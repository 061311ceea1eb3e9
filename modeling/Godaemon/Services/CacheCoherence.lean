import Godaemon.Services.ZoneService

namespace Godaemon
set_option autoImplicit true

/-- What reaches the ReplicationService of a server over time, departures included. -/
inductive CacheEvent (N : Type) where
  | call (call : VisibilityCall N)
  | peerDisconnected (peer : Int)

namespace ReplicationService

variable {S N : Type} [DecidableEq N] {T : ServerTree S N} {s s' mid : ReplicationService N}

/-- A peer leaves the transport, and then the service handles its departure. -/
def cacheStep (T : ServerTree S N) (s : ReplicationService N) : CacheEvent N → ReplicationService N
  | .call call => s.step T call
  | .peerDisconnected peer =>
    if peer ∉ s.peers then s
    else peerDisconnected peer { s with peers := s.peers.filter (fun p => p ≠ peer) }

/-- With the cache a query about a connected peer answers as it does without. -/
def CacheCoherent (T : ServerTree S N) (s : ReplicationService N) : Prop :=
  ∀ p ∈ s.peers, ∀ n, T.alwaysVisible n = false →
    (s.getTrueVisibility T n p).1 = s.effective T n p

/-- A change of a node that is not always visible does not register it while a connected peer that
the change is not about has a cached answer that it sees something there; a change of one that is,
like a service, leaves no answer behind that is out of date. -/
def Covers (T : ServerTree S N) (s : ReplicationService N) (node : N) (targets : List Int)
    (edit : Dict Int Bool → Dict Int Bool) (clearPeer : Int) : Prop :=
  s.canRegister T node = true →
    (T.alwaysVisible node = false → node ∈ s.replicationVisibility ∨
      ∀ p ∈ s.peers, p ∉ targets → ∀ n, node ∈ T.path n → s.cached n p ≠ some true) ∧
    (T.alwaysVisible node = true → ∀ p ∈ s.peers, ∀ n,
      DroppedAt T s node targets edit clearPeer n p)

/-- A peer that connects has no cached answers that are out of date. -/
def CacheSafe (T : ServerTree S N) (s : ReplicationService N) : CacheEvent N → Prop
  | .call (.setVisibility node visibility) =>
    Covers T s node s.clients (fun entry => entry.set 1 visibility) 1
  | .call (.setPeerVisibility node peer _ visibility) =>
    Covers T s node [peer] (fun entry => entry.set peer visibility) peer
  | .call (.clearPeerVisibility node peer _) =>
    Covers T s node [peer] (fun entry => entry.erase peer) peer
  | .call (.peerConnected peer) => (peer : Int) ∉ s.peers → ∀ n, Current T s n peer
  | _ => True

/-- The cache is only about nodes that are not always visible, and all peers are clients. -/
structure CachePlain (T : ServerTree S N) (s : ReplicationService N) : Prop where
  plain : ∀ n p b, s.cached n p = some b → T.alwaysVisible n = false
  client : ∀ p ∈ s.peers, p ≠ 1

theorem answer_eq_effective_iff :
    s.answer T n p = s.effective T n p ↔ Current T s n p := by
  rw [answer, Current]
  cases s.cached n p with
  | none => simp
  | some b => simp

theorem cacheCoherent_iff (hp : CachePlain T s) :
    CacheCoherent T s ↔ ∀ p ∈ s.peers, ∀ n, Current T s n p := by
  have hanswer (n : N) (p : Int) (hn : T.alwaysVisible n = false) :
      (s.getTrueVisibility T n p).1 = s.answer T n p := by
    rw [(getTrueVisibility_spec T s n p).1, sees, hn, Bool.false_or]
  constructor
  · intro h p hpeer n b hc
    have hn := hp.plain n p b hc
    have ha := h p hpeer n hn
    rw [hanswer n p hn, answer_eq_effective_iff] at ha
    exact ha b hc
  · intro h p hpeer n hn
    rw [hanswer n p hn, answer_eq_effective_iff]
    exact h p hpeer n

theorem Queried.current_iff (h : Queried T s s' A) : Current T s' n p ↔ Current T s n p := by
  by_cases ha : T.alwaysVisible n = false ∧ A n p
  · rw [← answer_eq_effective_iff, ← answer_eq_effective_iff, h.answer_eq ha.1,
      effective_congr h.visibility]
  · have hnot : T.alwaysVisible n = true ∨ ¬ A n p := by
      cases hv : T.alwaysVisible n with
      | true => exact .inl rfl
      | false => exact .inr (fun hb => ha ⟨hv, hb⟩)
    rw [Current, Current, h.rest n p hnot, effective_congr h.visibility]

theorem Queried.plain (h : Queried T s s' A) (hp : CachePlain T s) : CachePlain T s' := by
  constructor
  · intro n p b hc
    cases hv : T.alwaysVisible n with
    | false => rfl
    | true =>
      rw [h.rest n p (.inl hv)] at hc
      rw [← hv]
      exact hp.plain n p b hc
  · rw [h.peers]
    exact hp.client

theorem Queried.coherent (h : Queried T s s' A) (hp : CachePlain T s) (hc : CacheCoherent T s) :
    CacheCoherent T s' := by
  rw [cacheCoherent_iff (h.plain hp), h.peers]
  rw [cacheCoherent_iff hp] at hc
  exact fun p hpeer n => h.current_iff.2 (hc p hpeer n)

/-- What an operation on a node that is not always visible has to mind: it clears the answers of the
peers that it is about, and for the others it can only hide, by registering the node. -/
theorem droppedAt_iff_of_plain (ho : Others s targets edit clearPeer)
    (htargets : ∀ p ∈ targets, clearPeer = 1 ∨ p = clearPeer)
    (hnode : T.alwaysVisible node = false) (hp : CachePlain T s) (hpeer : p ∈ s.peers)
    (hf : Current T s n p) : DroppedAt T s node targets edit clearPeer n p ↔
      (node ∉ s.replicationVisibility → p ∉ targets → node ∈ T.path n →
        s.cached n p ≠ some true) := by
  by_cases hpt : p ∈ targets
  · have hclears : Clears T s node targets clearPeer p :=
      ⟨.inr ⟨hnode, List.ne_nil_of_mem hpt⟩, htargets p hpt⟩
    exact iff_of_true (fun _ _ _ => .inl hclears) (fun _ hno => absurd hpt hno)
  · obtain ⟨hone, hne, hneutral⟩ := ho p hpeer hpt
    have hkeeps : ¬ Clears T s node targets clearPeer p := fun hc => hc.2.elim hone hne
    have hroot := ne_root_of_not_alwaysVisible hnode
    constructor
    · intro hd hreg _ hpath hc
      have hold := (hd (hp.plain n p true hc) hpath (.inl (by rw [hc]; simp))).resolve_left hkeeps
      rw [oldAnswer_of_cached hc] at hold
      have hv := (effective_edited.1 hold.symm).2 hpath hroot
      rw [hneutral, entryOf_of_not_mem hreg, value_hiddenEntry] at hv
      cases hv
    · intro hno _ hpath hasked
      right
      have hcached : s.cached n p ≠ none := hasked.resolve_right (fun hb => hpt hb.2)
      obtain ⟨b, hb⟩ := Option.ne_none_iff_exists'.1 hcached
      rw [oldAnswer_of_cached hb, Bool.eq_iff_iff, hf b hb, effective_iff_besides node,
        effective_edited, hneutral]
      by_cases hreg : node ∈ s.replicationVisibility
      · obtain ⟨entry, he⟩ := (Dict.mem_iff_get? _).1 hreg
        simp only [he, entryOf, Dict.getD_of_get? _ he, Option.some.injEq, forall_eq']
      · have hfalse : b = false := by
          cases b with
          | false => rfl
          | true => exact absurd hb (hno hreg hpt hpath)
        have hhidden : ¬ (Besides T s node n p ∧ (node ∈ T.path n → node ≠ T.root →
            ∀ entry, s.replicationVisibility.get? node = some entry → value entry p = true)) := by
          rw [← effective_iff_besides, ← hf b hb, hfalse]
          exact Bool.noConfusion
        refine iff_of_false hhidden (fun hc => ?_)
        have hv := hc.2 hpath hroot
        rw [entryOf_of_not_mem hreg, value_hiddenEntry] at hv
        cases hv

theorem changeVisibility_coherent_iff (ho : Others s targets edit clearPeer)
    (htargets : ∀ p ∈ targets, clearPeer = 1 ∨ p = clearPeer) (hp : CachePlain T s)
    (hc : CacheCoherent T s) :
    CachePlain T (s.changeVisibility T node targets edit clearPeer) ∧
      (CacheCoherent T (s.changeVisibility T node targets edit clearPeer) ↔
        Covers T s node targets edit clearPeer) := by
  cases hcan : s.canRegister T node with
  | false =>
    rw [changeVisibility_of_not_canRegister hcan]
    refine ⟨hp, iff_of_true hc (fun h => ?_)⟩
    rw [hcan] at h
    cases h
  | true =>
    obtain ⟨mid, h⟩ := changeVisibility_spec hcan targets edit clearPeer
    have hp' : CachePlain T (s.changeVisibility T node targets edit clearPeer) := by
      constructor
      · exact fun n p b => h.cached_plain (hp.plain n p)
      · rw [h.peers]
        exact hp.client
    rw [cacheCoherent_iff hp] at hc
    refine ⟨hp', ?_⟩
    have hdropped : CacheCoherent T (s.changeVisibility T node targets edit clearPeer) ↔
        ∀ p ∈ s.peers, ∀ n, DroppedAt T s node targets edit clearPeer n p := by
      rw [cacheCoherent_iff hp', h.peers]
      exact forall_congr' fun p => forall_congr' fun hpeer => forall_congr' fun n =>
        h.current_iff (hp.plain n p) (hc p hpeer n)
    rw [hdropped]
    simp only [Covers, hcan, forall_const]
    cases hnode : T.alwaysVisible node with
    | true => simp
    | false =>
      simp only [Bool.false_eq_true, forall_const, false_implies, and_true]
      have hplain (p : Int) (hpeer : p ∈ s.peers) (n : N) :=
        droppedAt_iff_of_plain ho htargets hnode hp hpeer (hc p hpeer n)
      constructor
      · intro hd
        by_cases hreg : node ∈ s.replicationVisibility
        · exact .inl hreg
        · exact .inr (fun p hpeer hpt n => (hplain p hpeer n).1 (hd p hpeer n) hreg hpt)
      · intro hd p hpeer n
        apply (hplain p hpeer n).2
        intro hreg hpt
        exact hd.resolve_left hreg p hpeer hpt n

theorem peerConnected_coherent_iff (hp : CachePlain T s) (hc : CacheCoherent T s) (q : ClientPeer)
    (hq : (q : Int) ∉ s.peers) : CachePlain T (s.peerConnected T q) ∧
      (CacheCoherent T (s.peerConnected T q) ↔ ∀ n, Current T s n q) := by
  obtain ⟨t, ht⟩ : ∃ t : ReplicationService N, t = { s with peers := s.peers ++ [(q : Int)] } :=
    ⟨_, rfl⟩
  obtain ⟨mid, added, hqd, _, hrun⟩ := peerConnected_run T hq
  obtain ⟨ms, hframe, _⟩ := updateVisibility_frame T mid q added []
  rw [← hrun] at hframe
  rw [← ht] at hqd
  have hpt : CachePlain T t := by
    constructor
    · intro n p b hc
      rw [ht] at hc
      exact hp.plain n p b hc
    · intro p hpeer
      rw [ht, List.mem_append, List.mem_singleton] at hpeer
      rcases hpeer with hpeer | rfl
      · exact hp.client p hpeer
      · exact q.ne_one
  have hcurrent (n : N) (p : Int) : Current T (s.peerConnected T q) n p ↔ Current T s n p := by
    have hlooked : Current T (s.peerConnected T q) n p ↔
        Current T mid n p := by
      rw [hframe]
      rfl
    rw [hlooked, hqd.current_iff, ht]
    rfl
  have hpeers : (s.peerConnected T q).peers = s.peers ++ [(q : Int)] := by
    rw [hframe]
    change mid.peers = _
    rw [hqd.peers, ht]
  have hplain : CachePlain T (s.peerConnected T q) := by
    have hlooked := hqd.plain hpt
    constructor
    · intro n p b hc
      rw [hframe] at hc
      exact hlooked.plain n p b hc
    · intro p hpeer
      rw [hframe] at hpeer
      exact hlooked.client p hpeer
  rw [cacheCoherent_iff hp] at hc
  refine ⟨hplain, ?_⟩
  rw [cacheCoherent_iff hplain, hpeers]
  constructor
  · intro h n
    exact (hcurrent n q).1 (h q (List.mem_append_right _ List.mem_cons_self) n)
  · intro h p hpeer n
    rw [hcurrent]
    rcases List.mem_append.1 hpeer with hpeer | hpeer
    · exact hc p hpeer n
    · rw [List.mem_singleton.1 hpeer]
      exact h n

theorem peerDisconnected_coherent (hp : CachePlain T s) (hc : CacheCoherent T s)
    (hq : q ∈ s.peers) :
    let s' := peerDisconnected q { s with peers := s.peers.filter (fun p => p ≠ q) }
    CachePlain T s' ∧ CacheCoherent T s' := by
  obtain ⟨s', hs'⟩ : ∃ s', s' = peerDisconnected q { s with
    peers := s.peers.filter (fun p => p ≠ q) } := ⟨_, rfl⟩
  have hcached (n : N) (p : Int) : s'.cached n p = if p = q then none else s.cached n p := by
    rw [hs', cached, cached]
    simp only [peerDisconnected, Dict.get2?, Dict.get?_mapValues]
    cases s.visibilityCache.get? n with
    | none => simp only [Option.map_none, Option.bind_none, ite_self]
    | some entry => exact Dict.get?_erase entry
  have heffective (n : N) (p : Int) (hpq : p ≠ q) :
      s'.effective T n p = s.effective T n p := by
    rw [Bool.eq_iff_iff, effective_iff, effective_iff, hs']
    simp only [peerDisconnected, Dict.get?_mapValues, Option.map_eq_some_iff,
      forall_exists_index, and_imp, forall_apply_eq_imp_iff₂]
    refine forall_congr' fun a => forall_congr' fun _ => forall_congr' fun _ =>
      forall_congr' fun entry => forall_congr' fun _ => ?_
    rw [value_erase_ne entry hpq (hp.client q hq)]
  have hpeers : s'.peers = s.peers.filter (fun p => p ≠ q) := by
    rw [hs']
    rfl
  have hplain : CachePlain T s' := by
    constructor
    · intro n p b hc
      rw [hcached] at hc
      split at hc
      · cases hc
      · exact hp.plain n p b hc
    · intro p hpeer
      rw [hpeers] at hpeer
      exact hp.client p (List.mem_of_mem_filter hpeer)
  rw [← hs']
  refine ⟨hplain, ?_⟩
  rw [cacheCoherent_iff hplain]
  rw [cacheCoherent_iff hp] at hc
  intro p hpeer n b hb
  rw [hpeers, List.mem_filter, decide_eq_true_eq] at hpeer
  rw [hcached, if_neg hpeer.2] at hb
  rw [heffective n p hpeer.2]
  exact hc p hpeer.1 n b hb

theorem cacheStep_spec (hp : CachePlain T s) (hc : CacheCoherent T s) (event : CacheEvent N) :
    CachePlain T (cacheStep T s event) ∧
      (CacheCoherent T (cacheStep T s event) ↔ CacheSafe T s event) := by
  have hone (q : Int) : ∀ p ∈ [q], q = 1 ∨ p = q :=
    fun p hmem => .inr (List.mem_singleton.1 hmem)
  have hothers (edit : Dict Int Bool → Dict Int Bool) : Others s s.clients edit 1 := by
    intro p hpeer hno
    exact absurd (List.mem_filter.2 ⟨hpeer, decide_eq_true (hp.client p hpeer)⟩) hno
  cases event with
  | peerDisconnected q =>
    simp only [cacheStep]
    split
    · exact ⟨hp, iff_of_true hc trivial⟩
    · next hq =>
      obtain ⟨hp', hc'⟩ := peerDisconnected_coherent hp hc (not_not.1 hq)
      exact ⟨hp', iff_of_true hc' trivial⟩
  | call call =>
    cases call with
    | setVisibility node v =>
      simp only [cacheStep, step, CacheSafe, setVisibility]
      exact changeVisibility_coherent_iff (hothers _) (fun _ _ => .inl rfl) hp hc
    | setPeerVisibility node q hq v =>
      simp only [cacheStep, step, CacheSafe, setPeerVisibility]
      exact changeVisibility_coherent_iff (others_setPeerVisibility hq) (hone q) hp hc
    | clearPeerVisibility node q hq =>
      simp only [cacheStep, step, CacheSafe, clearPeerVisibility]
      exact changeVisibility_coherent_iff (others_clearPeerVisibility hq) (hone q) hp hc
    | peerConnected q =>
      by_cases hq : (q : Int) ∈ s.peers
      · simp only [cacheStep, step, peerConnected, CacheSafe, hq, not_true_eq_false, false_implies]
        exact ⟨hp, iff_of_true hc trivial⟩
      · obtain ⟨hp', hc'⟩ := peerConnected_coherent_iff hp hc q hq
        refine ⟨hp', hc'.trans ?_⟩
        simp only [CacheSafe, hq, not_false_eq_true, forall_const]
    | getTrueVisibility node q =>
      have hqd := (getTrueVisibility_spec T s node q).2
      exact ⟨hqd.plain hp, iff_of_true (hqd.coherent hp hc) trivial⟩
    | getObservingPeers node =>
      have hqd := (getObservingPeers_spec T s node).2
      exact ⟨hqd.plain hp, iff_of_true (hqd.coherent hp hc) trivial⟩

theorem cachePlain_start : CachePlain T (start : ReplicationService N) := by
  constructor
  · intro n p b h
    cases h
  · intro p h
    cases h

/-- The cache answers for connected peers as the overrides do, throughout a run, exactly if every
operation covers what is cached and no peer connects that has out of date answers. -/
theorem cache_coherent_iff (T : ServerTree S N) (events : List (CacheEvent N)) :
    Runs.Always (cacheStep T) (CacheCoherent T) start events ↔
      Runs.Guarded (cacheStep T) (CacheSafe T) start events :=
  Runs.always_iff_guarded (I := CachePlain T)
    (fun _ event hp hc _ => (cacheStep_spec hp hc event).1)
    (fun _ event hp hc => (cacheStep_spec hp hc event).2) cachePlain_start
    (fun _ h => absurd h List.not_mem_nil)

/-- Peer 3 may see a node of a scene; then the scene is shown to peer 2, and so hidden from peer 3,
but the node is still reported visible for peer 3. -/
theorem ancestor_hidden_descendant_visible :
    ¬ Runs.Always (cacheStep (smallTree (fun _ => (none : Option Unit))))
      (CacheCoherent (smallTree (fun _ => (none : Option Unit)))) start
      [.call (.peerConnected .two), .call (.peerConnected ⟨3, by decide, by decide⟩),
        .call (.getTrueVisibility .actor 3),
        .call (.setPeerVisibility .scene 2 (by decide) true)] := by
  intro h
  have hlast := h.last 3 (by decide) .actor (by decide)
  revert hlast
  decide

end ReplicationService

end Godaemon
