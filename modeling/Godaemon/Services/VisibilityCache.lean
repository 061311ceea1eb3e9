import Godaemon.Services.Visibility

namespace Godaemon
set_option autoImplicit true

namespace ReplicationService

variable {S N : Type} [DecidableEq N] {T : ServerTree S N} {s s' s'' : ReplicationService N}

/-- What a query answers for a node that is not always visible: the cached answer, or else the
current one. -/
def answer (T : ServerTree S N) (s : ReplicationService N) (node : N) (peer : Int) : Bool :=
  (s.cached node peer).getD (s.effective T node peer)

def sees (T : ServerTree S N) (s : ReplicationService N) (node : N) (peer : Int) : Bool :=
  T.alwaysVisible node || s.answer T node peer

theorem effective_congr (h : s'.replicationVisibility = s.replicationVisibility) :
    s'.effective T node peer = s.effective T node peer := by
  simp only [effective, getReplicatedAncestors, h]

theorem mem_getReplicatedAncestors : a ∈ s.getReplicatedAncestors T n ↔
    a ∈ T.path n ∧ a ≠ T.root ∧ a ∈ s.replicationVisibility := by
  have hw : a ∈ (T.path n).takeWhile (fun m => m ≠ T.root) ↔ a ∈ T.path n ∧ a ≠ T.root := by
    induction n using T.parent_induction with
    | h n ih =>
      cases hp : T.parent n with
      | none =>
        rw [Forest.path_of_root hp, T.parent_eq_none_iff.1 hp]
        simp +contextual
      | some m =>
        have hne : n ≠ T.root := fun h => by
          rw [h, T.parent_root] at hp
          cases hp
        rw [Forest.path_of_parent hp, List.takeWhile_cons_of_pos (by simpa using hne),
          List.mem_cons, List.mem_cons, ih m hp]
        constructor
        · rintro (rfl | h)
          · exact ⟨.inl rfl, hne⟩
          · exact ⟨.inr h.1, h.2⟩
        · rintro ⟨rfl | h, hr⟩
          · exact .inl rfl
          · exact .inr ⟨h, hr⟩
  simp only [getReplicatedAncestors, List.mem_filter, hw, decide_eq_true_eq, and_assoc]

/-- The specification of visibility: every registered node on the way up lets the peer through. -/
theorem effective_iff : s.effective T n p = true ↔
    ∀ a ∈ T.path n, a ≠ T.root → ∀ entry, s.replicationVisibility.get? a = some entry →
      value entry p = true := by
  simp only [effective, List.all_eq_true, mem_getReplicatedAncestors]
  constructor
  · intro h a ha hr entry he
    have hv := h a ⟨ha, hr, (Dict.mem_iff_get? _).2 ⟨entry, he⟩⟩
    rwa [Dict.getD_of_get? _ he] at hv
  · rintro h a ⟨ha, hr, hm⟩
    obtain ⟨entry, he⟩ := (Dict.mem_iff_get? _).1 hm
    rw [Dict.getD_of_get? _ he]
    exact h a ha hr entry he

/-- The queries `asked` have been answered, and nothing else has happened. -/
structure Queried (T : ServerTree S N) (s s' : ReplicationService N) (asked : N → Int → Prop) :
    Prop where
  frame : s' = { s with visibilityCache := s'.visibilityCache }
  hit : ∀ n p, T.alwaysVisible n = false → asked n p → s'.cached n p = some (s.answer T n p)
  rest : ∀ n p, T.alwaysVisible n = true ∨ ¬ asked n p → s'.cached n p = s.cached n p
  nodes : ∀ n, n ∈ s'.visibilityCache ↔
    n ∈ s.visibilityCache ∨ T.alwaysVisible n = false ∧ ∃ p, asked n p

theorem Queried.refl : Queried T s s (fun _ _ => False) :=
  ⟨rfl, fun _ _ _ h => h.elim, fun _ _ _ => rfl, by simp⟩

theorem Queried.visibility (h : Queried T s s' A) :
    s'.replicationVisibility = s.replicationVisibility := by
  rw [h.frame]

theorem Queried.peers (h : Queried T s s' A) : s'.peers = s.peers := by
  rw [h.frame]

theorem Queried.sent (h : Queried T s s' A) : s'.sent = s.sent := by
  rw [h.frame]

/-- Queries never change what a later query answers. -/
theorem Queried.answer_eq (h : Queried T s s' A) (hn : T.alwaysVisible n = false) :
    s'.answer T n p = s.answer T n p := by
  by_cases ha : A n p
  · rw [answer, h.hit n p hn ha, Option.getD_some]
  · rw [answer, h.rest n p (.inr ha), effective_congr h.visibility, answer]

theorem Queried.sees_eq (h : Queried T s s' A) : s'.sees T n p = s.sees T n p := by
  cases hn : T.alwaysVisible n with
  | true => simp [sees, hn]
  | false => simp [sees, hn, h.answer_eq hn]

theorem Queried.congr (h : Queried T s s' A) (hAB : ∀ n p, A n p ↔ B n p) :
    Queried T s s' B := by
  have : A = B := funext fun n => funext fun p => propext (hAB n p)
  exact this ▸ h

theorem Queried.trans (h : Queried T s s' A) (h' : Queried T s' s'' B) :
    Queried T s s'' (fun n p => A n p ∨ B n p) := by
  refine ⟨?_, fun n p hn ha => ?_, fun n p ha => ?_, fun n => ?_⟩
  · rw [h'.frame, h.frame]
  · by_cases hb : B n p
    · rw [h'.hit n p hn hb, h.answer_eq hn]
    · rw [h'.rest n p (.inr hb), h.hit n p hn (ha.resolve_right hb)]
  · have hb : T.alwaysVisible n = true ∨ ¬ B n p := ha.imp_right (fun h hb => h (.inr hb))
    have ha' : T.alwaysVisible n = true ∨ ¬ A n p := ha.imp_right (fun h ha => h (.inl ha))
    rw [h'.rest n p hb, h.rest n p ha']
  · rw [h'.nodes, h.nodes]
    constructor
    · rintro ((h1 | ⟨h1, p, h2⟩) | ⟨h1, p, h2⟩)
      · exact .inl h1
      · exact .inr ⟨h1, p, .inl h2⟩
      · exact .inr ⟨h1, p, .inr h2⟩
    · rintro (h1 | ⟨h1, p, h2 | h2⟩)
      · exact .inl (.inl h1)
      · exact .inl (.inr ⟨h1, p, h2⟩)
      · exact .inr ⟨h1, p, h2⟩

/-- One query answers with the cached or the current visibility, and caches it. -/
theorem getTrueVisibility_spec (T : ServerTree S N) (s : ReplicationService N) (node : N)
    (peer : Int) : (s.getTrueVisibility T node peer).1 = s.sees T node peer ∧
      Queried T s (s.getTrueVisibility T node peer).2 (fun n p => n = node ∧ p = peer) := by
  unfold getTrueVisibility
  cases hv : T.alwaysVisible node with
  | true =>
    refine ⟨by simp [sees, hv], rfl, fun n p hn ha => ?_, fun _ _ _ => rfl, fun n => ?_⟩
    · rw [ha.1, hv] at hn
      cases hn
    · constructor
      · exact .inl
      · rintro (h | ⟨hn, p, rfl, _⟩)
        · exact h
        · rw [hv] at hn
          cases hn
  | false =>
    simp only [Bool.false_eq_true, ↓reduceIte]
    cases hc : s.cached node peer with
    | some b =>
      refine ⟨by simp [sees, hv, answer, hc], rfl, fun n p hn ha => ?_, fun _ _ _ => rfl,
        fun n => ?_⟩
      · rw [ha.1, ha.2, hc, answer, hc, Option.getD_some]
      · constructor
        · exact .inl
        · rintro (h | ⟨_, p, rfl, _⟩)
          · exact h
          · rw [Dict.mem_iff_get?]
            simp only [cached, Dict.get2?, Option.bind_eq_some_iff] at hc
            exact hc.imp fun _ h => h.1
    | none =>
      refine ⟨by simp [sees, hv, answer, hc], rfl, fun n p hn ha => ?_, fun n p ha => ?_,
        fun n => ?_⟩
      · rw [ha.1, ha.2, answer, hc, Option.getD_none]
        simp only [cached, Dict.get2?_set2, and_self, ↓reduceIte]
      · rcases ha with ha | ha
        · have hne : ¬ (n = node ∧ p = peer) := fun h => by
            rw [h.1, hv] at ha
            cases ha
          simp only [cached, Dict.get2?_set2, if_neg hne]
        · simp only [cached, Dict.get2?_set2, if_neg ha]
      · simp only [Dict.set2, Dict.mem_set]
        constructor
        · rintro (rfl | h)
          · exact .inr ⟨hv, peer, rfl, rfl⟩
          · exact .inl h
        · rintro (h | ⟨_, _, rfl, _⟩)
          · exact .inr h
          · exact .inl rfl

theorem visibleAmong_spec (T : ServerTree S N) (s : ReplicationService N) (peer : Int)
    (search : List N) :
    (visibleAmong T peer search s).1 = search.filter (fun n => s.sees T n peer) ∧
      Queried T s (visibleAmong T peer search s).2 (fun n p => n ∈ search ∧ p = peer) := by
  induction search generalizing s with
  | nil => exact ⟨rfl, Queried.refl.congr (by simp)⟩
  | cons node search ih =>
    obtain ⟨h1, h2⟩ := getTrueVisibility_spec T s node peer
    obtain ⟨h3, h4⟩ := ih (s.getTrueVisibility T node peer).2
    simp only [visibleAmong]
    constructor
    · rw [h1, h3, List.filter_cons]
      simp only [h2.sees_eq]
    · refine (h2.trans h4).congr fun n p => ?_
      rw [List.mem_cons, or_and_right]

theorem observingAmong_spec (T : ServerTree S N) (s : ReplicationService N) (node : N)
    (peers : List Int) :
    (observingAmong T node peers s).1 = peers.filter (fun p => s.sees T node p) ∧
      Queried T s (observingAmong T node peers s).2 (fun n p => n = node ∧ p ∈ peers) := by
  induction peers generalizing s with
  | nil => exact ⟨rfl, Queried.refl.congr (by simp)⟩
  | cons peer peers ih =>
    obtain ⟨h1, h2⟩ := getTrueVisibility_spec T s node peer
    obtain ⟨h3, h4⟩ := ih (s.getTrueVisibility T node peer).2
    simp only [observingAmong]
    constructor
    · rw [h1, h3, List.filter_cons]
      simp only [h2.sees_eq]
    · refine (h2.trans h4).congr fun n p => ?_
      rw [List.mem_cons, and_or_left]

theorem getObservingPeers_spec (T : ServerTree S N) (s : ReplicationService N) (node : N) :
    (∀ p, p ∈ (s.getObservingPeers T node).1 ↔
      (p ∈ s.clients ∧ s.sees T node p = true) ∨ s.clientCreatedScenes.get? node = some p) ∧
      Queried T s (s.getObservingPeers T node).2 (fun n p => n = node ∧ p ∈ s.clients) := by
  obtain ⟨h1, h2⟩ := observingAmong_spec T s node s.clients
  have hc : (observingAmong T node s.clients s).2.clientCreatedScenes = s.clientCreatedScenes := by
    rw [h2.frame]
  simp only [getObservingPeers, h1, hc]
  cases s.clientCreatedScenes.get? node with
  | none => exact ⟨fun p => by simp, h2⟩
  | some q =>
    refine ⟨fun p => ?_, h2⟩
    simp only [Option.some.injEq, eq_comm (a := q)]
    split
    · next hq =>
      rw [List.mem_filter] at hq
      rw [List.mem_filter]
      constructor
      · exact .inl
      · rintro (h | rfl)
        · exact h
        · exact hq
    · simp

theorem getVisibleNodesForPeer_spec (T : ServerTree S N) (s : ReplicationService N) (peer : Int)
    (node : N) :
    (s.getVisibleNodesForPeer T peer (some node)).1 =
        (s.getReplicatedDescendants T node).filter (fun n => s.sees T n peer) ∧
      Queried T s (s.getVisibleNodesForPeer T peer (some node)).2
        (fun n p => n ∈ s.getReplicatedDescendants T node ∧ p = peer) :=
  visibleAmong_spec T s peer _

theorem getReplicatedDescendants_congr (node : N)
    (h : s'.replicationVisibility = s.replicationVisibility) :
    s'.getReplicatedDescendants T node = s.getReplicatedDescendants T node := by
  simp only [getReplicatedDescendants, h, Bool.false_eq_true, ↓reduceIte]

theorem getVisibleNodes_spec (T : ServerTree S N) (s : ReplicationService N) (node : N)
    (peers : List Int) :
    (getVisibleNodes T node peers s).1 = peers.map (fun peer =>
        (peer, (s.getReplicatedDescendants T node).filter (fun n => s.sees T n peer))) ∧
      Queried T s (getVisibleNodes T node peers s).2
        (fun n p => n ∈ s.getReplicatedDescendants T node ∧ p ∈ peers) := by
  induction peers generalizing s with
  | nil => exact ⟨rfl, Queried.refl.congr (by simp)⟩
  | cons peer peers ih =>
    obtain ⟨h1, h2⟩ := getVisibleNodesForPeer_spec T s peer node
    obtain ⟨h3, h4⟩ := ih (s.getVisibleNodesForPeer T peer (some node)).2
    have hd := getReplicatedDescendants_congr (T := T) node h2.visibility
    simp only [getVisibleNodes]
    constructor
    · rw [h1, h3, hd]
      simp only [h2.sees_eq, List.map_cons]
    · rw [hd] at h4
      refine (h2.trans h4).congr fun n p => ?_
      rw [List.mem_cons, and_or_left]

theorem mem_getReplicatedDescendants (node n : N) : n ∈ s.getReplicatedDescendants T node ↔
    n ∈ s.replicationVisibility ∧ node ∈ T.path n := by
  simp only [getReplicatedDescendants, Bool.false_eq_true, ↓reduceIte, List.mem_append,
    List.mem_filter, Dict.mem_keys, isAncestorOf, Bool.and_eq_true, decide_eq_true_eq]
  by_cases hn : n = node
  · subst hn
    split <;> simp_all
  · have hn' : node ≠ n := fun h => hn h.symm
    split <;> simp [hn, hn']

theorem mem_getReplicatedDescendants_cache (hreg : node ∈ s.replicationVisibility) :
    n ∈ s.getReplicatedDescendants T node true ↔
      node ∈ T.path n ∧ (n ∈ s.replicationVisibility ∨ n ∈ s.visibilityCache) := by
  have hd := mem_getReplicatedDescendants (T := T) (s := s) node n
  simp only [getReplicatedDescendants, Bool.false_eq_true, ↓reduceIte] at hd
  simp only [getReplicatedDescendants, ↓reduceIte]
  rw [List.mem_append, List.mem_filter, Bool.and_eq_true, decide_eq_true_eq, hd, Dict.mem_keys,
    isAncestorOf, Bool.and_eq_true, decide_eq_true_eq, decide_eq_true_eq]
  constructor
  · rintro (⟨h1, h2⟩ | ⟨h1, _, _, h2⟩)
    · exact ⟨h2, .inl h1⟩
    · exact ⟨h2, .inr h1⟩
  · rintro ⟨h1, h2⟩
    by_cases hn : n ∈ s.replicationVisibility
    · exact .inl ⟨hn, h1⟩
    · have hne : node ≠ n := fun he => hn (he ▸ hreg)
      exact .inr ⟨h2.resolve_left hn, fun h => hn h.1, hne, h1⟩

theorem get2?_clearEntry (cache : Dict N (Dict Int Bool)) (n m : N) (peer p : Int) :
    (clearEntry peer cache n).get2? m p =
      if m = n ∧ (peer = 1 ∨ p = peer) then none else cache.get2? m p := by
  simp only [clearEntry, Dict.get2?]
  by_cases h1 : peer = 1
  · simp only [h1, ↓reduceIte, Dict.get?_erase, true_or, and_true]
    split <;> rfl
  · simp only [h1, ↓reduceIte, false_or]
    by_cases hm : m = n
    · subst hm
      cases he : cache.get? m with
      | none => simp [he]
      | some entry =>
        simp only [true_and]
        by_cases hp : peer ∈ entry
        · simp only [hp, ↓reduceIte, Dict.get?_set_self, Option.bind_some, Dict.get?_erase]
        · simp only [hp, ↓reduceIte, he, Option.bind_some]
          split
          · next hpp =>
            subst hpp
            exact (Dict.get?_eq_none_iff _).2 hp
          · rfl
    · simp only [hm, false_and, ↓reduceIte]
      cases cache.get? n with
      | none => rfl
      | some entry =>
        simp only
        split
        · rw [Dict.get?_set_ne _ hm]
        · rfl

theorem get2?_clearEntries (ns : List N) (cache : Dict N (Dict Int Bool)) (m : N)
    (peer p : Int) : (ns.foldl (clearEntry peer) cache).get2? m p =
      if m ∈ ns ∧ (peer = 1 ∨ p = peer) then none else cache.get2? m p := by
  induction ns generalizing cache with
  | nil => simp
  | cons n ns ih =>
    rw [List.foldl_cons, ih, get2?_clearEntry]
    by_cases hp : peer = 1 ∨ p = peer
    · by_cases hm : m ∈ ns <;> simp [hp, hm]
    · simp [hp]

/-- A clear removes the answers at and below a node that has a cache entry, for its peer. -/
theorem cached_clearVisibilityCache (hreg : node ∈ s.replicationVisibility) (n : N) (p : Int) :
    (s.clearVisibilityCache T node peer).cached n p =
      if node ∈ s.visibilityCache ∧ node ∈ T.path n ∧ (peer = 1 ∨ p = peer) then none
      else s.cached n p := by
  unfold clearVisibilityCache
  by_cases hc : node ∈ s.visibilityCache
  · rw [if_pos hc]
    simp only [cached, get2?_clearEntries, mem_getReplicatedDescendants_cache hreg, hc, true_and]
    by_cases hn : n ∈ s.visibilityCache
    · simp [hn]
    · have hnone : s.visibilityCache.get2? n p = none := by
        rw [Dict.get2?, (Dict.get?_eq_none_iff _).2 hn, Option.bind_none]
      rw [hnone]
      split <;> split <;> rfl
  · rw [if_neg hc, if_neg (fun h => hc h.1)]

end ReplicationService

end Godaemon
