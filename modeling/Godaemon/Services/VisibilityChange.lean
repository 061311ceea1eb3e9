import Godaemon.Services.VisibilityCache

namespace Godaemon
set_option autoImplicit true

/-- What a peer knows about a node once it has a message. -/
def VisibilityUpdate.tell [DecidableEq N] (m : VisibilityUpdate N) (p : Int) (n : N)
    (known : Bool) : Bool :=
  if m.peer = p then (if n ∈ m.added then true else if n ∈ m.removed then false else known)
  else known

namespace ReplicationService

variable {S N : Type} [DecidableEq N] {T : ServerTree S N} {s s' : ReplicationService N}

/-- The nodes added minus the nodes removed by the messages to a peer, taken in order. -/
def told (s : ReplicationService N) (p : Int) (n : N) : Bool :=
  s.sent.foldl (fun known m => m.tell p n known) false

/-- The entries once a node has been registered and its entry edited. -/
def edited (s : ReplicationService N) (node : N) (edit : Dict Int Bool → Dict Int Bool) :
    ReplicationService N :=
  { s with
    replicationVisibility := (s.registerReplication node).replicationVisibility.set node
      (edit ((s.registerReplication node).replicationVisibility.getD node .empty)) }

/-- A node at or below the target that is registered once the target is. -/
def Below (T : ServerTree S N) (s : ReplicationService N) (node n : N) : Prop :=
  (n = node ∨ n ∈ s.replicationVisibility) ∧ node ∈ T.path n

/-- A change clears a peer's answers at and below its target: the target has a cache entry by
then, and the peer is the one whose answers are cleared. -/
def Clears (T : ServerTree S N) (s : ReplicationService N) (node : N) (targets : List Int)
    (clearPeer p : Int) : Prop :=
  (node ∈ s.visibilityCache ∨ T.alwaysVisible node = false ∧ targets ≠ []) ∧
    (clearPeer = 1 ∨ p = clearPeer)

instance (T : ServerTree S N) (s : ReplicationService N) (node n : N) :
    Decidable (Below T s node n) :=
  inferInstanceAs (Decidable ((_ ∨ _) ∧ _))

instance (T : ServerTree S N) (s : ReplicationService N) (node : N) (targets : List Int)
    (clearPeer p : Int) : Decidable (Clears T s node targets clearPeer p) :=
  inferInstanceAs (Decidable ((_ ∨ _ ∧ _) ∧ _))

/-- The answer that the first lookups of a change give. -/
def oldAnswer (T : ServerTree S N) (s : ReplicationService N) (node n : N) (p : Int) : Bool :=
  (s.registerReplication node).answer T n p

theorem told_append (ms : List (VisibilityUpdate N)) :
    told { s with sent := s.sent ++ ms } p n =
      ms.foldl (fun known m => m.tell p n known) (s.told p n) :=
  List.foldl_append

theorem parentId_ne (hn : n ≠ T.root) : parentId T n ≠ -1 := by
  unfold parentId
  cases hp : T.parent n with
  | none => exact absurd (T.parent_eq_none_iff.1 hp) hn
  | some m => exact T.getId_ne_neg_one m

theorem ne_root_of_not_alwaysVisible (hn : T.alwaysVisible n = false) : n ≠ T.root := by
  rintro rfl
  simp [SceneTree.alwaysVisible] at hn

theorem updateVisibility_frame (T : ServerTree S N) (s : ReplicationService N) (peer : Int)
    (added removed : List N) : ∃ ms,
    s.updateVisibility T peer added removed = { s with sent := s.sent ++ ms } ∧
      ∀ m ∈ ms, m.peer = peer ∧ peer ∈ s.peers ∧ (∀ n ∈ m.added, n ∈ added) ∧
        ∀ n ∈ m.removed, n ∈ removed := by
  unfold updateVisibility
  by_cases hp : peer ∈ s.peers
  · rw [if_neg (not_not.2 hp)]
    refine ⟨_, rfl, fun m hm => ?_⟩
    rw [List.mem_singleton] at hm
    subst hm
    exact ⟨rfl, hp, fun n hn => (List.mem_insertionSort _).1 (List.mem_filter.1 hn).1,
      fun n hn => (List.mem_insertionSort _).1 hn⟩
  · rw [if_pos hp]
    exact ⟨[], by simp, by simp⟩

/-- A peer that connects is looked up for every registered node, and told about those that it
sees. -/
theorem peerConnected_run (T : ServerTree S N) (hq : q ∉ s.peers) : ∃ mid added,
    Queried T { s with peers := s.peers ++ [q] } mid
      (fun n p => n ∈ s.replicationVisibility.keys ∧ p = q) ∧
    (∀ n, n ∈ added ↔
      n ∈ s.replicationVisibility ∧ T.alwaysVisible n = false ∧ s.answer T n q = true) ∧
    s.peerConnected T q = mid.updateVisibility T q added [] := by
  obtain ⟨hnodes, hqd⟩ := visibleAmong_spec T { s with peers := s.peers ++ [q] } q
    s.replicationVisibility.keys
  obtain ⟨seen, hseen⟩ : ∃ seen, seen = (visibleAmong T q s.replicationVisibility.keys
    { s with peers := s.peers ++ [q] }).1 := ⟨_, rfl⟩
  refine ⟨_, seen.filter (fun node => !T.alwaysVisible node), hqd, fun n => ?_, ?_⟩
  · rw [hseen, hnodes, List.mem_filter, List.mem_filter, Dict.mem_keys, sees]
    change (_ ∧ (T.alwaysVisible n || s.answer T n q) = true) ∧ _ ↔ _
    cases T.alwaysVisible n <;> simp
  · rw [peerConnected, if_neg hq, hseen]
    rfl

theorem told_updateVisibility (hn : n ≠ T.root ∨ n ∉ added) :
    (s.updateVisibility T peer added removed).told p n =
      if peer = p ∧ p ∈ s.peers then
        (if n ∈ added then true else if n ∈ removed then false else s.told p n)
      else s.told p n := by
  unfold updateVisibility
  by_cases hp : peer ∈ s.peers
  · rw [if_neg (not_not.2 hp), told_append]
    have hadded : (n ∈ added ∧ parentId T n ≠ -1) ↔ n ∈ added := by
      rcases hn with hn | hn
      · simp [parentId_ne hn]
      · simp [hn]
    simp only [List.foldl_cons, List.foldl_nil, VisibilityUpdate.tell, List.mem_filter,
      List.mem_insertionSort, decide_eq_true_eq, hadded]
    by_cases he : peer = p
    · subst he
      simp only [hp, and_self, ↓reduceIte]
    · simp only [he, false_and, ↓reduceIte]
  · rw [if_pos hp]
    have hne : ¬ (peer = p ∧ p ∈ s.peers) := fun h => hp (h.1 ▸ h.2)
    rw [if_neg hne]

theorem updatePeerNodes_frame (T : ServerTree S N) (s : ReplicationService N) (peer : Int)
    (old new : List N) : ∃ ms,
    s.updatePeerNodes T peer old new = { s with sent := s.sent ++ ms } ∧
      ∀ m ∈ ms, m.peer = peer ∧ peer ∈ s.peers ∧ (∀ n ∈ m.added, n ∈ new ∧ n ∉ old) ∧
        ∀ n ∈ m.removed, n ∈ old ∧ n ∉ new := by
  unfold updatePeerNodes
  simp only
  split
  · exact ⟨[], by simp, by simp⟩
  · simpa using updateVisibility_frame T s peer (new.filter (fun node => node ∉ old))
      (old.filter (fun node => node ∉ new))

theorem told_updatePeerNodes (hn : n ≠ T.root ∨ (n ∈ new → n ∈ old)) :
    (s.updatePeerNodes T peer old new).told p n =
      if peer = p ∧ p ∈ s.peers then
        (if n ∈ new ∧ n ∉ old then true else if n ∈ old ∧ n ∉ new then false else s.told p n)
      else s.told p n := by
  unfold updatePeerNodes
  simp only
  split
  · next he =>
    have h1 : ¬ (n ∈ new ∧ n ∉ old) := fun h => by
      have hm : n ∈ new.filter (fun node => node ∉ old) := by simpa using h
      rw [he.1] at hm
      cases hm
    have h2 : ¬ (n ∈ old ∧ n ∉ new) := fun h => by
      have hm : n ∈ old.filter (fun node => node ∉ new) := by simpa using h
      rw [he.2] at hm
      cases hm
    simp only [if_neg h1, if_neg h2, ite_self]
  · rw [told_updateVisibility (hn.imp_right fun h hm => ?_)]
    · simp only [List.mem_filter, decide_eq_true_eq]
    · rw [List.mem_filter, decide_eq_true_eq] at hm
      exact hm.2 (h hm.1)

theorem updateNodes_spec (targets : List Int) (old new : Int → List N)
    (s : ReplicationService N) :
    (∃ ms, updateNodes T (targets.map (fun q => (q, old q))) (targets.map (fun q => (q, new q))) s
      = { s with sent := s.sent ++ ms } ∧ ∀ m ∈ ms, m.peer ∈ s.peers ∧
        (∀ n ∈ m.added, n ∈ new m.peer ∧ n ∉ old m.peer) ∧
          ∀ n ∈ m.removed, n ∈ old m.peer ∧ n ∉ new m.peer) ∧
    ∀ p n, (n ≠ T.root ∨ ∀ q, n ∈ new q → n ∈ old q) →
      (updateNodes T (targets.map (fun q => (q, old q))) (targets.map (fun q => (q, new q))) s).told
        p n =
      if p ∈ targets ∧ p ∈ s.peers then
        (if n ∈ new p ∧ n ∉ old p then true else if n ∈ old p ∧ n ∉ new p then false
          else s.told p n)
      else s.told p n := by
  induction targets generalizing s with
  | nil => exact ⟨⟨[], by simp [updateNodes], by simp⟩, fun p n _ => by simp [updateNodes]⟩
  | cons q targets ih =>
    simp only [List.map_cons, updateNodes]
    obtain ⟨ms, hframe, hms⟩ := updatePeerNodes_frame T s q (old q) (new q)
    obtain ⟨⟨ms', hf, hms'⟩, ht⟩ := ih (s.updatePeerNodes T q (old q) (new q))
    have hpeers : (s.updatePeerNodes T q (old q) (new q)).peers = s.peers := by rw [hframe]
    refine ⟨⟨ms ++ ms', by rw [hf, hframe, List.append_assoc], fun m hm => ?_⟩, fun p n hn => ?_⟩
    · rcases List.mem_append.1 hm with hm | hm
      · obtain ⟨rfl, hrest⟩ := hms m hm
        exact hrest
      · rw [← hpeers]
        exact hms' m hm
    rw [ht p n hn, hpeers, told_updatePeerNodes (hn.imp_right fun h => h q)]
    by_cases hp : p ∈ s.peers
    · by_cases hq : q = p
      · subst hq
        simp only [List.mem_cons, true_or, hp, and_true, ↓reduceIte]
        split
        · split
          · rfl
          · split <;> rfl
        · rfl
      · have hq' : p ≠ q := fun h => hq h.symm
        simp only [List.mem_cons, hq, hq', false_or, false_and, ↓reduceIte]
    · simp only [hp, and_false, ↓reduceIte]

theorem registerReplication_frame :
    s.registerReplication node =
      { s with replicationVisibility := (s.registerReplication node).replicationVisibility } := by
  unfold registerReplication
  split <;> rfl

theorem mem_registerReplication : n ∈ (s.registerReplication node).replicationVisibility ↔
    n = node ∨ n ∈ s.replicationVisibility := by
  unfold registerReplication
  split
  · next h =>
    constructor
    · exact .inr
    · rintro (rfl | hn)
      · exact h
      · exact hn
  · simp

theorem mem_edited (edit : Dict Int Bool → Dict Int Bool) :
    n ∈ (s.edited node edit).replicationVisibility ↔ n = node ∨ n ∈ s.replicationVisibility := by
  simp only [edited, Dict.mem_set, mem_registerReplication]
  tauto

/-- A change, with the state `mid` that it reaches before its second lookups. -/
structure Change (T : ServerTree S N) (s mid s' : ReplicationService N) (node : N)
    (targets : List Int) (edit : Dict Int Bool → Dict Int Bool) (clearPeer : Int) : Prop where
  mid_frame : mid = { s with
    replicationVisibility := (s.edited node edit).replicationVisibility
    visibilityCache := mid.visibilityCache }
  cleared : ∀ n p, Clears T s node targets clearPeer p → node ∈ T.path n → mid.cached n p = none
  looked : ∀ n p, ¬ (Clears T s node targets clearPeer p ∧ node ∈ T.path n) →
    T.alwaysVisible n = false → Below T s node n → p ∈ targets →
      mid.cached n p = some (oldAnswer T s node n p)
  kept : ∀ n p, ¬ (Clears T s node targets clearPeer p ∧ node ∈ T.path n) →
    ¬ (T.alwaysVisible n = false ∧ Below T s node n ∧ p ∈ targets) →
      mid.cached n p = s.cached n p
  queried : Queried T mid { s' with sent := s.sent } (fun n p => Below T s node n ∧ p ∈ targets)
  told : ∀ p n, T.alwaysVisible n = false → s'.told p n =
    if (p ∈ targets ∧ p ∈ s.peers) ∧ Below T s node n then
      (if mid.answer T n p = true ∧ oldAnswer T s node n p = false then true
        else if oldAnswer T s node n p = true ∧ mid.answer T n p = false then false
        else s.told p n)
    else s.told p n
  told_always : ∀ p n, T.alwaysVisible n = true → s'.told p n = s.told p n
  sends : ∃ ms, s'.sent = s.sent ++ ms ∧ ∀ m ∈ ms, m.peer ∈ s.peers ∧
    ∀ n, n ∈ m.added ∨ n ∈ m.removed → Below T s node n ∧ T.alwaysVisible n = false

/-- The nodes at and below a node that are visible for a peer. -/
def snapshot (T : ServerTree S N) (s : ReplicationService N) (node : N) (q : Int) : List N :=
  (s.getReplicatedDescendants T node).filter (fun n => s.sees T n q)

/-- The states that a change goes through: `s2` has answered the first lookups, `mid` has the new
entry and has dropped answers, and `s5` has answered the second lookups. -/
structure Stages (T : ServerTree S N) (s s2 mid s5 s' : ReplicationService N) (node : N)
    (targets : List Int) (edit : Dict Int Bool → Dict Int Bool) (clearPeer : Int) : Prop where
  first : Queried T (s.registerReplication node) s2 (fun n p => Below T s node n ∧ p ∈ targets)
  mid_frame : mid = { s with
    replicationVisibility := (s.edited node edit).replicationVisibility
    visibilityCache := mid.visibilityCache }
  mid_cached : ∀ n p, mid.cached n p =
    if Clears T s node targets clearPeer p ∧ node ∈ T.path n then none else s2.cached n p
  second : Queried T mid s5 (fun n p => Below T s node n ∧ p ∈ targets)
  result : s' = updateNodes T
    (targets.map (fun q => (q, snapshot T (s.registerReplication node) node q)))
    (targets.map (fun q => (q, snapshot T mid node q))) s5

theorem mem_descendants_registered :
    n ∈ (s.registerReplication node).getReplicatedDescendants T node ↔
    Below T s node n := by
  rw [mem_getReplicatedDescendants, mem_registerReplication, Below]

/-- The answers of the target are cleared if it has a cache entry once the first lookups have
been made. -/
theorem clears_iff (hq : Queried T (s.registerReplication node) s2
    (fun n p => Below T s node n ∧ p ∈ targets)) :
    (node ∈ s2.visibilityCache ∧ (clearPeer = 1 ∨ p = clearPeer)) ↔
      Clears T s node targets clearPeer p := by
  have h1 : (s.registerReplication node).visibilityCache = s.visibilityCache := by
    rw [registerReplication_frame]
  have hbelow : Below T s node node := ⟨.inl rfl, T.self_mem_path node⟩
  have hex : (∃ p, Below T s node node ∧ p ∈ targets) ↔ targets ≠ [] := by
    simp only [hbelow, true_and]
    exact ⟨fun h => h.elim fun _ hm => List.ne_nil_of_mem hm, List.exists_mem_of_ne_nil targets⟩
  rw [hq.nodes, h1, hex, Clears]

theorem changeVisibility_stages (hcan : s.canRegister T node = true) (targets : List Int)
    (edit : Dict Int Bool → Dict Int Bool) (clearPeer : Int) :
    ∃ s2 mid s5, Stages T s s2 mid s5 (s.changeVisibility T node targets edit clearPeer) node
      targets edit clearPeer := by
  obtain ⟨hold, hq⟩ := getVisibleNodes_spec T (s.registerReplication node) node targets
  simp only [mem_descendants_registered] at hq
  obtain ⟨s2, hs2⟩ : ∃ s2, s2 = (getVisibleNodes T node targets (s.registerReplication node)).2 :=
    ⟨_, rfl⟩
  rw [← hs2] at hq
  -- `s3` has the new entry, and still all the answers
  obtain ⟨s3, hs3⟩ : ∃ s3, s3 = { s2 with
      replicationVisibility := s2.replicationVisibility.set node
        (edit (s2.replicationVisibility.getD node .empty)) } := ⟨_, rfl⟩
  obtain ⟨mid, hmid⟩ : ∃ mid, mid = s3.clearVisibilityCache T node clearPeer := ⟨_, rfl⟩
  obtain ⟨hnew, hq'⟩ := getVisibleNodes_spec T mid node targets
  have hframe : mid = { s with
      replicationVisibility := (s.edited node edit).replicationVisibility
      visibilityCache := mid.visibilityCache } := by
    have h4 : mid = { s3 with visibilityCache := mid.visibilityCache } := by
      rw [hmid, clearVisibilityCache]
      split <;> rfl
    rw [h4, hs3, hq.frame, registerReplication_frame]
    simp only [edited]
  have hcached : ∀ n p, mid.cached n p =
      if Clears T s node targets clearPeer p ∧ node ∈ T.path n then none else s2.cached n p := by
    intro n p
    have hreg : node ∈ s3.replicationVisibility := by
      rw [hs3]
      simp
    have h3 : s3.visibilityCache = s2.visibilityCache := by rw [hs3]
    have hc3 : s3.cached n p = s2.cached n p := by rw [cached, h3, cached]
    rw [hmid, cached_clearVisibilityCache hreg, hc3, h3]
    simp only [← clears_iff hq]
    congr 1
    rw [eq_iff_iff]
    tauto
  have hbelow (n : N) : n ∈ mid.getReplicatedDescendants T node ↔ Below T s node n := by
    rw [mem_getReplicatedDescendants, hframe, mem_edited, Below]
  apply Exists.intro s2
  apply Exists.intro mid
  refine ⟨_, hq, hframe, hcached, hq'.congr fun n p => by rw [hbelow], ?_⟩
  unfold snapshot
  rw [← hold, ← hnew, changeVisibility, hcan, hmid, hs3, hs2]
  rfl

namespace Stages

variable {s2 mid s5 : ReplicationService N}

theorem mem_mid (h : Stages T s s2 mid s5 s' node targets edit clearPeer) :
    n ∈ mid.getReplicatedDescendants T node ↔ Below T s node n := by
  rw [mem_getReplicatedDescendants, h.mid_frame, mem_edited, Below]

theorem looked (h : Stages T s s2 mid s5 s' node targets edit clearPeer)
    (hc : ¬ (Clears T s node targets clearPeer p ∧ node ∈ T.path n))
    (hn : T.alwaysVisible n = false) (hb : Below T s node n) (hp : p ∈ targets) :
    mid.cached n p = some (oldAnswer T s node n p) := by
  rw [h.mid_cached, if_neg hc, h.first.hit n p hn ⟨hb, hp⟩]
  rfl

theorem kept (h : Stages T s s2 mid s5 s' node targets edit clearPeer)
    (hc : ¬ (Clears T s node targets clearPeer p ∧ node ∈ T.path n))
    (hn : ¬ (T.alwaysVisible n = false ∧ Below T s node n ∧ p ∈ targets)) :
    mid.cached n p = s.cached n p := by
  have hrest : T.alwaysVisible n = true ∨ ¬ (Below T s node n ∧ p ∈ targets) := by
    cases hv : T.alwaysVisible n with
    | true => exact .inl rfl
    | false => exact .inr (fun hb => hn ⟨hv, hb⟩)
  rw [h.mid_cached, if_neg hc, h.first.rest n p hrest, registerReplication_frame]
  rfl

theorem peers (h : Stages T s s2 mid s5 s' node targets edit clearPeer) : s5.peers = s.peers := by
  rw [h.second.peers, h.mid_frame]

theorem told_second (h : Stages T s s2 mid s5 s' node targets edit clearPeer) (p : Int) (n : N) :
    s5.told p n = s.told p n := by
  rw [ReplicationService.told, h.second.sent, h.mid_frame, ReplicationService.told]

theorem queried (h : Stages T s s2 mid s5 s' node targets edit clearPeer) :
    Queried T mid { s' with sent := s.sent } (fun n p => Below T s node n ∧ p ∈ targets) := by
  have he : { s' with sent := s.sent } = s5 := by
    obtain ⟨⟨ms, hf, _⟩, _⟩ := updateNodes_spec (T := T) targets
      (snapshot T (s.registerReplication node) node) (snapshot T mid node) s5
    rw [h.result, hf, h.second.frame, h.mid_frame]
  rw [he]
  exact h.second

theorem told (h : Stages T s s2 mid s5 s' node targets edit clearPeer) (p : Int)
    (hn : T.alwaysVisible n = false) : s'.told p n =
      if (p ∈ targets ∧ p ∈ s.peers) ∧ Below T s node n then
        (if mid.answer T n p = true ∧ oldAnswer T s node n p = false then true
          else if oldAnswer T s node n p = true ∧ mid.answer T n p = false then false
          else s.told p n)
      else s.told p n := by
  obtain ⟨_, ht⟩ := updateNodes_spec (T := T) targets
    (snapshot T (s.registerReplication node) node) (snapshot T mid node) s5
  rw [h.result, ht p n (.inl (ne_root_of_not_alwaysVisible hn)), h.told_second, h.peers]
  by_cases hb : Below T s node n
  · simp only [snapshot, List.mem_filter, mem_descendants_registered, h.mem_mid, hb, true_and,
      and_true, sees, hn, Bool.false_or, oldAnswer, Bool.not_eq_true]
    congr!
  · simp only [snapshot, List.mem_filter, mem_descendants_registered, h.mem_mid, hb, false_and,
      and_false, ↓reduceIte, ite_self]

theorem told_always (h : Stages T s s2 mid s5 s' node targets edit clearPeer) (p : Int)
    (hn : T.alwaysVisible n = true) : s'.told p n = s.told p n := by
  obtain ⟨_, ht⟩ := updateNodes_spec (T := T) targets
    (snapshot T (s.registerReplication node) node) (snapshot T mid node) s5
  have hsame (q : Int) : n ∈ snapshot T mid node q ↔
      n ∈ snapshot T (s.registerReplication node) node q := by
    simp only [snapshot, List.mem_filter, mem_descendants_registered, h.mem_mid, sees, hn,
      Bool.true_or]
  rw [h.result, ht p n (.inr fun q => (hsame q).1), h.told_second]
  simp only [hsame, and_not_self, ↓reduceIte, ite_self]

theorem not_alwaysVisible_of_snapshot {t : ReplicationService N} {p : Int}
    (h : n ∉ snapshot T t node p) (hl : n ∈ t.getReplicatedDescendants T node) :
    T.alwaysVisible n = false := by
  cases hv : T.alwaysVisible n with
  | false => rfl
  | true => exact absurd (List.mem_filter.2 ⟨hl, by simp [sees, hv]⟩) h

theorem sends (h : Stages T s s2 mid s5 s' node targets edit clearPeer) :
    ∃ ms, s'.sent = s.sent ++ ms ∧ ∀ m ∈ ms, m.peer ∈ s.peers ∧
      ∀ n, n ∈ m.added ∨ n ∈ m.removed → Below T s node n ∧ T.alwaysVisible n = false := by
  obtain ⟨⟨ms, hf, hms⟩, _⟩ := updateNodes_spec (T := T) targets
    (snapshot T (s.registerReplication node) node) (snapshot T mid node) s5
  refine ⟨ms, ?_, fun m hm => ?_⟩
  · rw [h.result, hf, h.second.sent, h.mid_frame]
  · obtain ⟨hpeer, hadded, hremoved⟩ := hms m hm
    rw [h.peers] at hpeer
    apply And.intro hpeer
    intro n hn
    rcases hn with hn | hn
    · obtain ⟨h1, h2⟩ := hadded n hn
      have hb := h.mem_mid.1 (List.mem_filter.1 h1).1
      exact ⟨hb, not_alwaysVisible_of_snapshot h2 (mem_descendants_registered.2 hb)⟩
    · obtain ⟨h1, h2⟩ := hremoved n hn
      have hb := mem_descendants_registered.1 (List.mem_filter.1 h1).1
      exact ⟨hb, not_alwaysVisible_of_snapshot h2 (h.mem_mid.2 hb)⟩

end Stages

theorem changeVisibility_of_not_canRegister (hcan : s.canRegister T node = false)
    (targets : List Int) (edit : Dict Int Bool → Dict Int Bool) (clearPeer : Int) :
    s.changeVisibility T node targets edit clearPeer = s := by
  rw [changeVisibility, hcan]
  rfl

theorem changeVisibility_spec (hcan : s.canRegister T node = true) (targets : List Int)
    (edit : Dict Int Bool → Dict Int Bool) (clearPeer : Int) :
    ∃ mid, Change T s mid (s.changeVisibility T node targets edit clearPeer) node targets edit
      clearPeer := by
  obtain ⟨s2, mid, s5, h⟩ := changeVisibility_stages hcan targets edit clearPeer
  exact ⟨mid, {
    mid_frame := h.mid_frame
    cleared := fun n p hc hn => by rw [h.mid_cached, if_pos ⟨hc, hn⟩]
    looked := fun _ _ => h.looked
    kept := fun _ _ => h.kept
    queried := h.queried
    told := fun p _ => h.told p
    told_always := fun p _ => h.told_always p
    sends := h.sends }⟩

end ReplicationService

end Godaemon
