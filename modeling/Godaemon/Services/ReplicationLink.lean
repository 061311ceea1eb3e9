import Godaemon.Services.Replica
import Godaemon.Services.VisibilityRuns

namespace Godaemon
set_option autoImplicit true

/-- The node that a call sets the visibility of. -/
def VisibilityCall.target : VisibilityCall N → Option N
  | .setVisibility node _ => some node
  | .setPeerVisibility node _ _ _ => some node
  | .clearPeerVisibility node _ _ => some node
  | _ => none

namespace ReplicationService

variable {S N : Type} [DecidableEq N] {T : ServerTree S N} {s s' : ReplicationService N}

/-- The messages to one peer. -/
def sentTo (s : ReplicationService N) (p : Int) : List (VisibilityUpdate N) :=
  s.sent.filter fun m => m.peer = p

theorem told_eq_sentTo (p : Int) (n : N) :
    s.told p n = (s.sentTo p).foldl (fun known m => m.tell p n known) false := by
  have hfold (ms : List (VisibilityUpdate N)) (known : Bool) :
      ms.foldl (fun known m => m.tell p n known) known =
        (ms.filter fun m => m.peer = p).foldl (fun known m => m.tell p n known) known := by
    induction ms generalizing known with
    | nil => rfl
    | cons m ms ih =>
      rw [List.foldl_cons, ih, List.filter_cons]
      by_cases hp : m.peer = p
      · rw [if_pos (decide_eq_true hp), List.foldl_cons]
      · rw [if_neg (fun h => hp (of_decide_eq_true h)), VisibilityUpdate.tell, if_neg hp]
  exact hfold s.sent false

/-- A message that tells its peer what has changed, each node once and by ascending id. -/
structure Tells (T : ServerTree S N) (m : VisibilityUpdate N) (old new : N → Prop) : Prop where
  added : ∀ n, n ∈ m.added ↔ new n ∧ ¬ old n
  removed : ∀ n, n ∈ m.removed ↔ old n ∧ ¬ new n
  nodup : m.added.Nodup ∧ m.removed.Nodup
  sorted : m.added.Pairwise (npSortAscending T) ∧ m.removed.Pairwise (npSortAscending T)

/-- The message for a peer about two lists of what it sees. -/
def difference (T : ServerTree S N) (peer : Int) (old new : List N) : VisibilityUpdate N where
  peer := peer
  added := ((new.filter fun node => node ∉ old).insertionSort (npSortAscending T)).filter
    fun node => parentId T node ≠ -1
  removed := (old.filter fun node => node ∉ new).insertionSort (npSortAscending T)

theorem mem_difference {old new : List N} {n : N} :
    (n ∈ (difference T p old new).added ↔ (n ∈ new ∧ n ∉ old) ∧ parentId T n ≠ -1) ∧
      (n ∈ (difference T p old new).removed ↔ n ∈ old ∧ n ∉ new) := by
  simp only [difference, List.mem_filter, List.mem_insertionSort, decide_eq_true_eq, and_self]

instance : Std.Total (npSortAscending T) := ⟨fun _ _ => Int.le_total _ _⟩

instance : IsTrans N (npSortAscending T) := ⟨fun _ _ _ => Int.le_trans⟩

theorem difference_sorted {old new : List N} (hold : old.Nodup) (hnew : new.Nodup) :
    ((difference T p old new).added.Nodup ∧ (difference T p old new).removed.Nodup) ∧
      (difference T p old new).added.Pairwise (npSortAscending T) ∧
        (difference T p old new).removed.Pairwise (npSortAscending T) := by
  have hsorted (nodes : List N) := List.pairwise_insertionSort (npSortAscending T) nodes
  have hnodup {nodes : List N} (h : nodes.Nodup) :
      (nodes.insertionSort (npSortAscending T)).Nodup :=
    (List.perm_insertionSort (npSortAscending T) nodes).nodup_iff.2 h
  exact ⟨⟨(hnodup (hnew.filter _)).filter _, hnodup (hold.filter _)⟩, (hsorted _).filter _,
    hsorted _⟩

omit [DecidableEq N] in
theorem sentTo_append {ms : List (VisibilityUpdate N)} (h : s'.sent = s.sent ++ ms) :
    s'.sentTo p = s.sentTo p ++ ms.filter fun m => m.peer = p := by
  rw [sentTo, h, List.filter_append, sentTo]

theorem sentTo_updateVisibility (q : Int) (added removed : List N) :
    (s.updateVisibility T q added removed).sentTo p = s.sentTo p ++
      if q = p ∧ p ∈ s.peers then
        [⟨q, (added.insertionSort (npSortAscending T)).filter fun node => parentId T node ≠ -1,
          removed.insertionSort (npSortAscending T)⟩]
      else [] := by
  rw [updateVisibility]
  by_cases hq : q ∈ s.peers
  · rw [if_neg (not_not.2 hq), sentTo_append rfl, List.filter_singleton]
    congr 1
    by_cases hp : q = p
    · rw [if_pos ⟨hp, hp ▸ hq⟩, decide_eq_true hp]
      rfl
    · rw [if_neg (fun h => hp h.1), decide_eq_false hp]
      rfl
  · have hno : ¬ (q = p ∧ p ∈ s.peers) := fun h => hq (h.1 ▸ h.2)
    rw [if_pos hq, if_neg hno, List.append_nil]

/-- The lists do not differ. -/
def Same (old new : List N) : Prop :=
  (new.filter fun node => node ∉ old) = [] ∧ (old.filter fun node => node ∉ new) = []

instance (old new : List N) : Decidable (Same old new) := inferInstanceAs (Decidable (_ ∧ _))

theorem sentTo_updatePeerNodes (q : Int) (old new : List N) (s : ReplicationService N) :
    (s.updatePeerNodes T q old new).sentTo p = s.sentTo p ++
      if q = p ∧ p ∈ s.peers ∧ ¬ Same old new then [difference T p old new] else [] := by
  by_cases hsame : Same old new
  · have hrun : s.updatePeerNodes T q old new = s := if_pos hsame
    have hno : ¬ (q = p ∧ p ∈ s.peers ∧ ¬ Same old new) := fun h => h.2.2 hsame
    rw [hrun, if_neg hno, List.append_nil]
  · have hrun : s.updatePeerNodes T q old new = s.updateVisibility T q
        (new.filter fun node => node ∉ old) (old.filter fun node => node ∉ new) := if_neg hsame
    rw [hrun, sentTo_updateVisibility]
    congr 1
    by_cases hp : q = p ∧ p ∈ s.peers
    · rw [if_pos hp, if_pos ⟨hp.1, hp.2, hsame⟩, hp.1]
      rfl
    · rw [if_neg hp, if_neg (fun h => hp ⟨h.1, h.2.1⟩)]

theorem sentTo_updateNodes {targets : List Int} (hnodup : targets.Nodup) (old new : Int → List N)
    (s : ReplicationService N) :
    (updateNodes T (targets.map fun q => (q, old q)) (targets.map fun q => (q, new q))
      s).sentTo p = s.sentTo p ++
        if p ∈ targets ∧ p ∈ s.peers ∧ ¬ Same (old p) (new p) then
          [difference T p (old p) (new p)]
        else [] := by
  induction targets generalizing s with
  | nil => simp [updateNodes]
  | cons q targets ih =>
    obtain ⟨hq, htargets⟩ := List.nodup_cons.1 hnodup
    obtain ⟨ms, hframe, _⟩ := updatePeerNodes_frame T s q (old q) (new q)
    have hpeers : (s.updatePeerNodes T q (old q) (new q)).peers = s.peers := by rw [hframe]
    simp only [List.map_cons, updateNodes]
    rw [ih htargets, sentTo_updatePeerNodes, hpeers, List.append_assoc]
    congr 1
    by_cases hp : q = p
    · subst hp
      simp only [hq, false_and, ↓reduceIte, List.append_nil, true_and, List.mem_cons, true_or]
    · have hp' : p ≠ q := Ne.symm hp
      simp only [hp, false_and, ↓reduceIte, List.nil_append, List.mem_cons, hp', false_or]

theorem nodup_getReplicatedDescendants (node : N) :
    (s.getReplicatedDescendants T node).Nodup := by
  simp only [getReplicatedDescendants, Bool.false_eq_true, ↓reduceIte]
  rw [List.nodup_append']
  refine ⟨?_, s.replicationVisibility.nodup_keys.filter _, ?_⟩
  · split
    · exact List.nodup_singleton _
    · exact List.nodup_nil
  · intro n hn hn'
    split at hn
    · rw [List.mem_singleton.1 hn, List.mem_filter, isAncestorOf] at hn'
      simp at hn'
    · cases hn

theorem mem_snapshots {node : N} {targets : List Int} {edit : Dict Int Bool → Dict Int Bool}
    {clearPeer : Int} {s2 mid s5 : ReplicationService N} (hs : Settled T s)
    (hnode : node ∈ s.replicationVisibility)
    (h : Stages T s s2 mid s5 s' node targets edit clearPeer) (htarget : p ∈ targets)
    (hpeer : p ∈ s.peers) (n : N) :
    (n ∈ snapshot T mid node p ∧ n ∉ snapshot T s node p ↔
      s'.told p n = true ∧ ¬ s.told p n = true) ∧
      (n ∈ snapshot T s node p ∧ n ∉ snapshot T mid node p ↔
        s.told p n = true ∧ ¬ s'.told p n = true) := by
  have hregister : s.registerReplication node = s := if_pos hnode
  have hbelow : n ∈ s.getReplicatedDescendants T node ↔ Below T s node n := by
    rw [← mem_descendants_registered, hregister]
  simp only [snapshot, List.mem_filter, h.mem_mid, hbelow, sees]
  cases halways : T.alwaysVisible n with
  | true =>
    rw [h.told_always p halways]
    simp
  | false =>
    have htold := h.told p halways
    rw [oldAnswer, hregister] at htold
    by_cases hb : Below T s node n
    · have hregistered : n ∈ s.replicationVisibility := hb.1.elim (fun he => he ▸ hnode) id
      have hold : s.told p n = s.answer T n p := by
        rw [hs.fresh.answer, Bool.eq_iff_iff, hs.converged p hpeer n]
        simp only [hregistered, halways, true_and]
      rw [htold, hold]
      simp only [htarget, hpeer, hb, and_self, ↓reduceIte, Bool.false_or, true_and]
      cases mid.answer T n p <;> cases s.answer T n p <;> simp
    · rw [htold]
      simp [hb]

/-- A change of a registered node tells each of its peers what becomes of what it was told. -/
theorem tells_changeVisibility {node : N} {targets : List Int} (hs : Settled T s)
    (hnode : node ∈ s.replicationVisibility) (htargets : targets.Nodup)
    (edit : Dict Int Bool → Dict Int Bool) (clearPeer p : Int) :
    let s' := s.changeVisibility T node targets edit clearPeer
    s'.sentTo p = s.sentTo p ∨ ∃ m, s'.sentTo p = s.sentTo p ++ [m] ∧
      Tells T m (fun n => s.told p n = true) fun n => s'.told p n = true := by
  intro s'
  have hcan : s.canRegister T node = true := by simp [canRegister, hnode]
  obtain ⟨s2, mid, s5, h⟩ := changeVisibility_stages hcan targets edit clearPeer
  change Stages T s s2 mid s5 s' node targets edit clearPeer at h
  have hregister : s.registerReplication node = s := if_pos hnode
  have hsent := sentTo_updateNodes (T := T) (p := p) htargets
    (snapshot T (s.registerReplication node) node) (snapshot T mid node) s5
  rw [← h.result, h.peers, hregister] at hsent
  have hsame5 : s5.sentTo p = s.sentTo p := by
    rw [sentTo, h.second.sent, h.mid_frame, sentTo]
  rw [hsame5] at hsent
  by_cases hp : p ∈ targets ∧ p ∈ s.peers ∧ ¬ Same (snapshot T s node p) (snapshot T mid node p)
  · rw [if_pos hp] at hsent
    have hmem := mem_snapshots hs hnode h hp.1 hp.2.1
    have hnodup (t : ReplicationService N) : (snapshot T t node p).Nodup :=
      (nodup_getReplicatedDescendants node).filter _
    obtain ⟨hnodup, hsorted⟩ := difference_sorted (T := T) (p := p) (hnodup s) (hnodup mid)
    refine .inr ⟨_, hsent, fun n => ?_, fun n => ?_, hnodup, hsorted⟩
    · rw [mem_difference.1, (hmem n).1]
      refine and_iff_left_of_imp fun hn => ?_
      have halways : T.alwaysVisible n = false := by
        rw [← Bool.not_eq_true]
        intro halways
        rw [h.told_always p halways] at hn
        exact hn.2 hn.1
      exact parentId_ne (ne_root_of_not_alwaysVisible halways)
    · rw [mem_difference.2, (hmem n).2]
  · rw [if_neg hp, List.append_nil] at hsent
    exact .inl hsent

theorem tells_peerConnected (hs : Settled T s) (q : ClientPeer) (p : Int) :
    (s.peerConnected T q).sentTo p = s.sentTo p ∨
      ∃ m, (s.peerConnected T q).sentTo p = s.sentTo p ++ [m] ∧
        Tells T m (fun n => s.told p n = true) fun n => (s.peerConnected T q).told p n = true := by
  by_cases hq : (q : Int) ∈ s.peers
  · have hrun : s.peerConnected T q = s := if_pos hq
    rw [hrun]
    exact .inl rfl
  obtain ⟨_, _, htold, _⟩ := peerConnected_spec (T := T) hs.fresh hq
  obtain ⟨hnodes, hqd⟩ := visibleAmong_spec T { s with peers := s.peers ++ [(q : Int)] } q
    s.replicationVisibility.keys
  obtain ⟨seen, hseen⟩ : ∃ seen, seen = (visibleAmong T q s.replicationVisibility.keys
    { s with peers := s.peers ++ [(q : Int)] }).1.filter (fun node => !T.alwaysVisible node) :=
      ⟨_, rfl⟩
  obtain ⟨mid, hmid⟩ : ∃ mid, mid = (visibleAmong T q s.replicationVisibility.keys
    { s with peers := s.peers ++ [(q : Int)] }).2 := ⟨_, rfl⟩
  rw [← hmid] at hqd
  have hrun : s.peerConnected T q = mid.updateVisibility T q seen [] := by
    rw [peerConnected, if_neg hq, hseen, hmid]
    rfl
  have hsent : (s.peerConnected T q).sentTo p = s.sentTo p ++
      if q = p ∧ p ∈ mid.peers then [difference T q [] seen] else [] := by
    rw [hrun, sentTo_updateVisibility, sentTo, hqd.sent, sentTo]
    simp [difference]
  by_cases hp : q = p ∧ p ∈ mid.peers
  · rw [if_pos hp] at hsent
    have hnodup : seen.Nodup := by
      rw [hseen, hnodes]
      exact (s.replicationVisibility.nodup_keys.filter _).filter _
    have hseen_iff (n : N) : n ∈ seen ↔ n ∈ s.replicationVisibility ∧
        T.alwaysVisible n = false ∧ s.effective T n q = true := by
      have hanswer : s.answer T n q = s.effective T n q := hs.fresh.answer
      rw [hseen, hnodes, List.mem_filter, List.mem_filter, Dict.mem_keys, sees]
      change (_ ∧ (T.alwaysVisible n || s.answer T n q) = true) ∧ _ ↔ _
      rw [hanswer]
      cases T.alwaysVisible n <;> simp
    have hunknown (n : N) : ¬ s.told p n = true := fun h =>
      hq (hp.1 ▸ hs.tidy.told_peer p n h)
    have hnew (n : N) : (s.peerConnected T q).told p n = true ↔ n ∈ seen := by
      rw [htold, hseen_iff, Bool.eq_false_iff.2 (hunknown n), hp.1]
      simp [and_assoc]
    obtain ⟨hnodup, hsorted⟩ := difference_sorted (T := T) (p := q) List.nodup_nil hnodup
    refine .inr ⟨_, hsent, fun n => ?_, fun n => ?_, hnodup, hsorted⟩
    · rw [mem_difference.1, hnew, and_iff_left (hunknown n), and_iff_left List.not_mem_nil]
      apply and_iff_left_of_imp
      intro hn
      exact parentId_ne (ne_root_of_not_alwaysVisible ((hseen_iff n).1 hn).2.1)
    · rw [mem_difference.2]
      simp [hunknown]
  · rw [if_neg hp, List.append_nil] at hsent
    exact .inl hsent

theorem peers_changeVisibility (node : N) (targets : List Int)
    (edit : Dict Int Bool → Dict Int Bool) (clearPeer : Int) :
    (s.changeVisibility T node targets edit clearPeer).peers = s.peers := by
  cases hcan : s.canRegister T node with
  | false => rw [changeVisibility_of_not_canRegister hcan]
  | true =>
    obtain ⟨mid, h⟩ := changeVisibility_spec (T := T) hcan targets edit clearPeer
    exact h.peers

theorem nodup_peers_step (hs : Settled T s) (hnodup : s.peers.Nodup) (call : VisibilityCall N) :
    (step T s call).peers.Nodup := by
  cases call with
  | setVisibility node v =>
    rw [step, setVisibility, peers_changeVisibility]
    exact hnodup
  | setPeerVisibility node q hq v =>
    rw [step, setPeerVisibility, peers_changeVisibility]
    exact hnodup
  | clearPeerVisibility node q hq =>
    rw [step, clearPeerVisibility, peers_changeVisibility]
    exact hnodup
  | peerConnected q =>
    by_cases hq : (q : Int) ∈ s.peers
    · have hrun : s.peerConnected T q = s := if_pos hq
      rw [step, hrun]
      exact hnodup
    · obtain ⟨_, hpeers, _⟩ := peerConnected_spec (T := T) hs.fresh hq
      rw [step, hpeers]
      exact (List.perm_append_singleton _ _).nodup_iff.2 (List.nodup_cons.2 ⟨hq, hnodup⟩)
  | getTrueVisibility node q =>
    rw [step, (getTrueVisibility_spec T s node q).2.peers]
    exact hnodup
  | getObservingPeers node =>
    rw [step, (getObservingPeers_spec T s node).2.peers]
    exact hnodup

theorem mem_changeVisibility {node : N} (hnode : node ∈ s.replicationVisibility)
    (targets : List Int) (edit : Dict Int Bool → Dict Int Bool) (clearPeer : Int) (n : N) :
    n ∈ (s.changeVisibility T node targets edit clearPeer).replicationVisibility ↔
      n ∈ s.replicationVisibility := by
  have hcan : s.canRegister T node = true := by simp [canRegister, hnode]
  rw [Dict.mem_iff_get?, Dict.mem_iff_get?, get?_changeVisibility hcan]
  split
  · next h =>
    rw [h, ← Dict.mem_iff_get?]
    exact iff_of_true ⟨_, rfl⟩ hnode
  · rfl

theorem mem_visibility_step (hs : Settled T s) (call : VisibilityCall N)
    (htarget : ∀ node, call.target = some node → node ∈ s.replicationVisibility) (n : N) :
    n ∈ (step T s call).replicationVisibility ↔ n ∈ s.replicationVisibility := by
  cases call with
  | setVisibility node v =>
    simp only [step, setVisibility]
    exact mem_changeVisibility (htarget node rfl) _ _ _ n
  | setPeerVisibility node q hq v =>
    simp only [step, setPeerVisibility]
    exact mem_changeVisibility (htarget node rfl) _ _ _ n
  | clearPeerVisibility node q hq =>
    simp only [step, clearPeerVisibility]
    exact mem_changeVisibility (htarget node rfl) _ _ _ n
  | peerConnected q =>
    by_cases hq : (q : Int) ∈ s.peers
    · have hrun : s.peerConnected T q = s := if_pos hq
      rw [step, hrun]
    · rw [step, (peerConnected_spec (T := T) hs.fresh hq).1]
  | getTrueVisibility node q => rw [step, (getTrueVisibility_spec T s node q).2.visibility]
  | getObservingPeers node => rw [step, (getObservingPeers_spec T s node).2.visibility]

theorem tells_step (hs : Settled T s) (hnodup : s.peers.Nodup) (call : VisibilityCall N)
    (htarget : ∀ node, call.target = some node → node ∈ s.replicationVisibility) (p : Int) :
    (step T s call).sentTo p = s.sentTo p ∨ ∃ m, (step T s call).sentTo p = s.sentTo p ++ [m] ∧
      Tells T m (fun n => s.told p n = true) fun n => (step T s call).told p n = true := by
  cases call with
  | setVisibility node v =>
    simp only [step, setVisibility]
    exact tells_changeVisibility hs (htarget node rfl) (hnodup.filter _) _ _ p
  | setPeerVisibility node q hq v =>
    simp only [step, setPeerVisibility]
    exact tells_changeVisibility hs (htarget node rfl) (List.nodup_singleton _) _ _ p
  | clearPeerVisibility node q hq =>
    simp only [step, clearPeerVisibility]
    exact tells_changeVisibility hs (htarget node rfl) (List.nodup_singleton _) _ _ p
  | peerConnected q => exact tells_peerConnected hs q p
  | getTrueVisibility node q =>
    apply Or.inl
    rw [sentTo, step, (getTrueVisibility_spec T s node q).2.sent, sentTo]
  | getObservingPeers node =>
    apply Or.inl
    rw [sentTo, step, (getObservingPeers_spec T s node).2.sent, sentTo]

end ReplicationService

/-- The server, how many of its messages to one peer have been delivered, and the client of that
peer, which is gone once its script has failed, with what has been hidden from it in this frame. -/
structure ReplicationLink (N : Type) where
  server : ReplicationService N
  delivered : Nat
  client : Option ReplicaClient
  hidden : List N

/-- A call reaches the server, the next message is delivered, or a frame of the client ends. -/
inductive ReplicationLinkEvent (N : Type) where
  | call (call : VisibilityCall N)
  | deliver
  | frameEnd

namespace UpdateSource

variable {S N : Type} [DecidableEq N] {T : ServerTree S N} (X : UpdateSource T)
  (load : Int → Option Resource) (codec : VariantCodec) (peer : Int)

/-- The bytes of a message. -/
def message (m : VisibilityUpdate N) : List UInt8 :=
  compressVisibilityData codec (m.added.filterMap X.addData) (m.removed.map T.repository.getId)

def linkStep (s : ReplicationLink N) : ReplicationLinkEvent N → ReplicationLink N
  | .call call => { s with server := s.server.step T call }
  | .deliver =>
    match (s.server.sentTo peer)[s.delivered]? with
    | none => s
    | some m => { s with
      delivered := s.delivered + 1
      client := s.client.bind (ReplicaClient.updateVisibility load codec (X.message codec m))
      hidden := s.hidden ++ m.removed }
  | .frameEnd => { s with client := s.client.map ReplicaClient.frameEnd, hidden := [] }

/-- Calls are safe and about registered nodes, and what has been hidden from a client in a frame is
not shown to it again in the same. -/
def LinkAllowed (s : ReplicationLink N) : ReplicationLinkEvent N → Prop
  | .call call => s.server.Safe T call ∧
    ∀ node, call.target = some node → X.registered node = true
  | .deliver => ∀ m, (s.server.sentTo peer)[s.delivered]? = some m → ∀ n ∈ m.added, n ∉ s.hidden
  | .frameEnd => True

/-- What the delivered messages have told the client about a node. -/
def heard (s : ReplicationLink N) (n : N) : Bool :=
  ((s.server.sentTo peer).take s.delivered).foldl (fun known m => m.tell peer n known) false

/-- The client has copies of the nodes that it has heard of; and if it has got all messages, these
are the nodes that are visible for its peer. -/
def Replicated (s : ReplicationLink N) : Prop :=
  ∃ c seen, s.client = some c ∧ X.Replicates seen c ∧ (∀ n, n ∈ seen ↔ heard peer s n = true) ∧
    (s.delivered = (s.server.sentTo peer).length → peer ∈ s.server.peers →
      ∀ n, n ∈ seen ↔ X.registered n = true ∧ s.server.effective T n peer = true)

/-- The server and a client that it knows nothing of yet. -/
structure Unlinked (s : ReplicationLink N) : Prop where
  settled : ReplicationService.Settled T s.server
  peers : s.server.peers.Nodup
  registered : ∀ n, n ∈ s.server.replicationVisibility ↔ X.registered n = true
  unknown : s.server.sentTo peer = []
  delivered : s.delivered = 0
  hidden : s.hidden = []
  client : ∃ c, s.client = some c ∧ Starts T c

/-- Messages that lead a client from what it sees to something else, each to something that it may
see. -/
def Leads : (N → Prop) → List (VisibilityUpdate N) → (N → Prop) → Prop
  | old, [], new => ∀ n, old n ↔ new n
  | old, m :: ms, new => ∃ next, X.Visible next ∧ ReplicationService.Tells T m old (· ∈ next) ∧
    Leads (· ∈ next) ms new

/-- What holds between events. -/
structure Linked (s : ReplicationLink N) : Prop where
  settled : ReplicationService.Settled T s.server
  peers : s.server.peers.Nodup
  registered : ∀ n, n ∈ s.server.replicationVisibility ↔ X.registered n = true
  delivered : s.delivered ≤ (s.server.sentTo peer).length
  hidden : ∀ n ∈ s.hidden, X.registered n = true
  client : ∃ c seen, s.client = some c ∧ X.Visible seen ∧
    Mirror T (X.HasCopy seen) (fun n => ∃ t ∈ s.hidden, X.Carries t n) c ∧ X.Made seen c ∧
    (∀ n, n ∈ seen ↔ heard peer s n = true) ∧
    X.Leads (· ∈ seen) ((s.server.sentTo peer).drop s.delivered)
      (fun n => s.server.told peer n = true)

variable {X load codec peer}

theorem tells_congr {m : VisibilityUpdate N} {old old' new new' : N → Prop}
    (h : ReplicationService.Tells T m old new) (hold : ∀ n, old' n ↔ old n)
    (hnew : ∀ n, new' n ↔ new n) : ReplicationService.Tells T m old' new' := by
  refine ⟨fun n => ?_, fun n => ?_, h.nodup, h.sorted⟩
  · rw [hold, hnew]
    exact h.added n
  · rw [hold, hnew]
    exact h.removed n

theorem Leads.append {ms : List (VisibilityUpdate N)} {m : VisibilityUpdate N}
    {first old new : N → Prop} {next : List N} (h : X.Leads first ms old)
    (hm : ReplicationService.Tells T m old new) (hvisible : X.Visible next)
    (hnext : ∀ n, n ∈ next ↔ new n) : X.Leads first (ms ++ [m]) new := by
  induction ms generalizing first with
  | nil => exact ⟨next, hvisible, tells_congr hm h hnext, hnext⟩
  | cons m' ms ih =>
    obtain ⟨next', hvisible', hm', hrest⟩ := h
    exact ⟨next', hvisible', hm', ih hrest⟩

theorem Leads.congr {ms : List (VisibilityUpdate N)} {first old new : N → Prop}
    (h : X.Leads first ms old) (hnew : ∀ n, old n ↔ new n) : X.Leads first ms new := by
  induction ms generalizing first with
  | nil => exact fun n => (h n).trans (hnew n)
  | cons m ms ih =>
    obtain ⟨next, hvisible, hm, hrest⟩ := h
    exact ⟨next, hvisible, hm, ih hrest⟩

theorem sorted_eq {nodes nodes' : List N} (hnodes : nodes.Nodup) (hnodes' : nodes'.Nodup)
    (hsorted : nodes'.Pairwise (ReplicationService.npSortAscending T))
    (hmem : ∀ n, n ∈ nodes ↔ n ∈ nodes') : sorted T nodes = nodes' := by
  have hperm : (sorted T nodes).Perm nodes' :=
    (List.mergeSort_perm nodes _).trans ((List.perm_ext_iff_of_nodup hnodes hnodes').2 hmem)
  apply hperm.eq_of_pairwise _ _ hsorted
  · intro a b _ _ hab hba
    exact T.getId_inj (Int.le_antisymm hab hba)
  · exact List.pairwise_mergeSort' (ReplicationService.npSortAscending T) nodes

theorem message_eq {m : VisibilityUpdate N} {old new : List N} (hold : old.Nodup)
    (hnew : new.Nodup) (hm : ReplicationService.Tells T m (· ∈ old) (· ∈ new)) :
    X.message codec m =
      X.updateVisibility codec (new.filter (· ∉ old)) (old.filter (· ∉ new)) := by
  have hadded : sorted T (new.filter (· ∉ old)) = m.added := by
    apply sorted_eq (hnew.filter _) hm.nodup.1 hm.sorted.1
    intro n
    rw [hm.added, List.mem_filter, decide_eq_true_eq]
  have hremoved : sorted T (old.filter (· ∉ new)) = m.removed := by
    apply sorted_eq (hold.filter _) hm.nodup.2 hm.sorted.2
    intro n
    rw [hm.removed, List.mem_filter, decide_eq_true_eq]
  rw [message, updateVisibility, hadded, hremoved]

theorem visible_told {server : ReplicationService N} (hX : X.Replicable)
    (hs : ReplicationService.Settled T server)
    (hregistered : ∀ n, n ∈ server.replicationVisibility ↔ X.registered n = true) (peer : Int) :
    ∃ nodes, X.Visible nodes ∧ ∀ n, n ∈ nodes ↔ server.told peer n = true := by
  have htold (n : N) (hn : server.told peer n = true) := hs.tidy.told_peer peer n hn
  have hmem (n : N) : n ∈ server.replicationVisibility.keys.filter
      (fun n => server.told peer n) ↔ server.told peer n = true := by
    rw [List.mem_filter, Dict.mem_keys]
    exact and_iff_right_of_imp fun hn => ((hs.converged peer (htold n hn) n).1 hn).1
  refine ⟨_, ⟨server.replicationVisibility.nodup_keys.filter _, ?_, ?_⟩, hmem⟩
  · intro n hn
    rw [List.mem_filter, Dict.mem_keys] at hn
    exact (hregistered n).1 hn.1
  · intro n hn a ha hreg
    rw [hmem] at hn ⊢
    have hpeer := htold n hn
    have heffective := ((hs.converged peer hpeer n).1 hn).2.2
    refine (hs.converged peer hpeer a).2 ⟨(hregistered a).2 hreg, hX.not_always a hreg, ?_⟩
    rw [ReplicationService.effective_iff] at heffective ⊢
    exact fun b hb => heffective b (Forest.mem_path_trans ha hb)

theorem Linked.call (hX : X.Replicable) (h : X.Linked peer s) {call : VisibilityCall N}
    (hallowed : X.LinkAllowed peer s (.call call)) :
    X.Linked peer { s with server := s.server.step T call } := by
  obtain ⟨hsafe, htarget⟩ := hallowed
  have hsettled := (ReplicationService.step_iff h.settled call).2 hsafe
  have hnode (node : N) (hn : call.target = some node) : node ∈ s.server.replicationVisibility :=
    (h.registered node).2 (htarget node hn)
  have hregistered (n : N) := (ReplicationService.mem_visibility_step h.settled call hnode n).trans
    (h.registered n)
  obtain ⟨c, seen, hc, hvisible, hmirror, hmade, hheard, hleads⟩ := h.client
  have hpeers := ReplicationService.nodup_peers_step h.settled h.peers call
  rcases ReplicationService.tells_step h.settled h.peers call hnode peer with
    hsame | ⟨m, hsent, htells⟩
  · have hdelivered : s.delivered ≤ ((s.server.step T call).sentTo peer).length :=
      hsame ▸ h.delivered
    refine ⟨hsettled, hpeers, hregistered, hdelivered, h.hidden, c, seen, hc, hvisible, hmirror,
      hmade, ?_, ?_⟩
    · intro n
      rw [hheard, heard, heard, hsame]
    · simp only [hsame]
      apply hleads.congr
      intro n
      rw [ReplicationService.told_eq_sentTo, ReplicationService.told_eq_sentTo, hsame]
  · have hdelivered : s.delivered ≤ ((s.server.step T call).sentTo peer).length := by
      rw [hsent, List.length_append]
      exact Nat.le_trans h.delivered (Nat.le_add_right _ _)
    refine ⟨hsettled, hpeers, hregistered, hdelivered, h.hidden, c, seen, hc, hvisible, hmirror,
      hmade, ?_, ?_⟩
    · intro n
      rw [hheard, heard, heard, hsent, List.take_append_of_le_length h.delivered]
    · simp only [hsent]
      obtain ⟨next, hnext, hmem⟩ := visible_told hX hsettled hregistered peer
      rw [List.drop_append_of_le_length h.delivered]
      exact hleads.append htells hnext hmem

theorem heard_deliver {m : VisibilityUpdate N} (hm : (s.server.sentTo peer)[s.delivered]? = some m)
    (n : N) : heard peer { s with delivered := s.delivered + 1 } n =
      if n ∈ m.added then true else if n ∈ m.removed then false else heard peer s n := by
  have hpeer : m.peer = peer := by
    have hmem := List.mem_of_getElem? hm
    rw [ReplicationService.sentTo, List.mem_filter] at hmem
    exact of_decide_eq_true hmem.2
  simp only [heard, List.take_add_one, hm, Option.toList_some, List.foldl_append, List.foldl_cons,
    List.foldl_nil, VisibilityUpdate.tell, hpeer, ↓reduceIte]

theorem Linked.deliver (hX : X.Replicable) (hload : X.LoadsAs load) (hsend : X.Sendable codec)
    (h : X.Linked peer s) {m : VisibilityUpdate N}
    (hm : (s.server.sentTo peer)[s.delivered]? = some m) (hhidden : ∀ n ∈ m.added, n ∉ s.hidden) :
    X.Linked peer { s with
      delivered := s.delivered + 1
      client := s.client.bind (ReplicaClient.updateVisibility load codec (X.message codec m))
      hidden := s.hidden ++ m.removed } := by
  obtain ⟨c, seen, hc, hvisible, hmirror, hmade, hheard, hleads⟩ := h.client
  obtain ⟨hlt, _⟩ := List.getElem?_eq_some_iff.1 hm
  have hdrop : (s.server.sentTo peer).drop s.delivered =
      m :: (s.server.sentTo peer).drop (s.delivered + 1) := by
    rw [List.drop_eq_getElem_cons hlt, (List.getElem?_eq_some_iff.1 hm).2]
  rw [hdrop] at hleads
  obtain ⟨next, hnext, htells, hrest⟩ := hleads
  have hshown (n : N) (hn : n ∈ next) (hno : n ∉ seen) : n ∉ s.hidden :=
    hhidden n ((htells.added n).2 ⟨hn, hno⟩)
  obtain ⟨c', hc', hmirror', hmade'⟩ :=
    mirror_updated hX hload hsend hvisible hnext h.hidden hshown hmirror hmade
  have hremoved (n : N) : n ∈ m.removed ↔ n ∈ seen.filter (· ∉ next) := by
    rw [htells.removed, List.mem_filter, decide_eq_true_eq]
  refine ⟨h.settled, h.peers, h.registered, hlt, ?_, c', next, ?_, hnext, ?_, hmade', ?_,
    hrest⟩
  · intro n hn
    rcases List.mem_append.1 hn with hn | hn
    · exact h.hidden n hn
    · exact hvisible.registered n ((htells.removed n).1 hn).1
  · rw [hc, Option.bind_some, message_eq hvisible.nodup hnext.nodup htells]
    exact hc'
  · apply hmirror'.congr (fun _ => Iff.rfl)
    rintro n ⟨t, ht, hn⟩
    refine ⟨t, ?_, hn⟩
    rw [List.mem_append, hremoved]
    exact List.mem_append.1 ht
  · intro n
    change n ∈ next ↔ heard peer { s with delivered := s.delivered + 1 } n = true
    rw [heard_deliver hm n]
    by_cases hadded : n ∈ m.added
    · rw [if_pos hadded]
      exact iff_of_true ((htells.added n).1 hadded).1 rfl
    · rw [if_neg hadded]
      by_cases hgone : n ∈ m.removed
      · rw [if_pos hgone]
        exact iff_of_false ((htells.removed n).1 hgone).2 Bool.noConfusion
      · rw [if_neg hgone, ← hheard]
        rw [htells.added, not_and_not_right] at hadded
        rw [htells.removed, not_and_not_right] at hgone
        exact ⟨hadded, hgone⟩

theorem Linked.step (hX : X.Replicable) (hload : X.LoadsAs load) (hsend : X.Sendable codec)
    (s : ReplicationLink N) (event : ReplicationLinkEvent N) (h : X.Linked peer s)
    (hallowed : X.LinkAllowed peer s event) :
    X.Linked peer (X.linkStep load codec peer s event) := by
  cases event with
  | call call => exact h.call hX hallowed
  | deliver =>
    simp only [linkStep]
    split
    · exact h
    · next m hm => exact h.deliver hX hload hsend hm (hallowed m hm)
  | frameEnd =>
    obtain ⟨c, seen, hc, hvisible, hmirror, hmade, hheard, hleads⟩ := h.client
    refine ⟨h.settled, h.peers, h.registered, h.delivered, ?_, c.frameEnd, seen, ?_, hvisible, ?_,
      hmirror.frameEnd_made hmade, hheard, hleads⟩
    · intro n hn
      cases hn
    · rw [linkStep, hc]
      rfl
    · apply hmirror.frameEnd.congr (fun _ => Iff.rfl)
      intro n hn
      exact hn.elim

theorem Linked.replicated (hX : X.Replicable) (h : X.Linked peer s) : X.Replicated peer s := by
  obtain ⟨c, seen, hc, hvisible, hmirror, hmade, hheard, hleads⟩ := h.client
  refine ⟨c, seen, hc, replicates_of_mirror hmirror hmade, hheard, fun hall hpeer n => ?_⟩
  rw [hall, List.drop_length] at hleads
  apply (hleads n).trans
  simp only
  rw [h.settled.converged peer hpeer n, h.registered]
  exact and_congr_right fun hreg => and_iff_right (hX.not_always n hreg)

theorem Unlinked.linked (h : X.Unlinked peer s) : X.Linked peer s := by
  obtain ⟨c, hc, hstart⟩ := h.client
  have hheard (n : N) : heard peer s n = false := by
    rw [heard, h.unknown, List.take_nil, List.foldl_nil]
  have htold (n : N) : s.server.told peer n = false := by
    rw [ReplicationService.told_eq_sentTo, h.unknown, List.foldl_nil]
  refine ⟨h.settled, h.peers, h.registered, ?_, ?_, c, [], hc, ⟨List.nodup_nil, ?_, ?_⟩, ?_,
    made_nil, ?_, ?_⟩
  · rw [h.delivered]
    exact Nat.zero_le _
  · rw [h.hidden]
    intro n hn
    cases hn
  · intro n hn
    cases hn
  · intro n hn
    cases hn
  · apply hstart.congr
    · simp [HasCopy]
    · intro n hn
      exact hn.elim
  · intro n
    rw [hheard]
    exact iff_of_false List.not_mem_nil Bool.noConfusion
  · rw [h.unknown, List.drop_nil]
    intro n
    simp only [htold]
    exact iff_of_false List.not_mem_nil Bool.noConfusion

/-- While the visibility on a server changes and a client gets its messages whenever they come, the
client has copies of what it has heard of, which in the end is what its peer may see. -/
theorem visibility_replicated (hX : X.Replicable) (hload : X.LoadsAs load)
    (hsend : X.Sendable codec) (hs : X.Unlinked peer s) (events : List (ReplicationLinkEvent N))
    (hallowed : Runs.Guarded (X.linkStep load codec peer) (X.LinkAllowed peer) s events) :
    Runs.Always (X.linkStep load codec peer) (X.Replicated peer) s events :=
  (Runs.always_of_guarded (Linked.step hX hload hsend) hs.linked hallowed).mono
    fun _ h => h.replicated hX

end UpdateSource

namespace ReplicationService

theorem settled_of_unused {S N : Type} [DecidableEq N] {T : ServerTree S N}
    {s : ReplicationService N} (hpeers : s.peers = []) (hcache : s.visibilityCache = .empty)
    (hsent : s.sent = []) : Settled T s := by
  have htold (p : Int) (n : N) : s.told p n = false := by
    rw [told, hsent, List.foldl_nil]
  have hcached (n : N) (p : Int) : s.cached n p = none := by
    rw [cached, hcache]
    exact Dict.get2?_empty
  refine ⟨⟨?_, ?_, ?_, ?_⟩, ?_, ?_⟩
  · simp [htold]
  · simp [htold]
  · simp [hcached]
  · simp [hpeers]
  · simp [Converged, hpeers]
  · simp [Fresh, hcached]

theorem safe_setVisibility {S N : Type} [DecidableEq N] {T : ServerTree S N}
    {s : ReplicationService N} {node : N} (hnode : node ∈ s.replicationVisibility)
    (halways : T.alwaysVisible node = false) (hclients : s.clients ≠ []) (v : Bool) :
    s.Safe T (.setVisibility node v) := by
  intro _
  refine ⟨.inl hnode, fun n p _ _ _ => .inl ?_⟩
  exact ⟨.inr ⟨halways, hclients⟩, .inl rfl⟩

end ReplicationService

/-- A server whose scene nobody sees yet, and the client of the peer 2. -/
def sceneLink : ReplicationLink SmallNode :=
  ⟨ReplicationService.start.registerReplication .scene, 0, some emptyClient, []⟩

/-- The scene is shown, hidden and shown again, and the client gets the last message in its next
frame. -/
def sceneCalls : List (ReplicationLinkEvent SmallNode) :=
  [.call (.peerConnected .two), .call (.setVisibility .scene true), .deliver, .deliver,
    .call (.setVisibility .scene false), .call (.setVisibility .scene true), .deliver, .frameEnd,
    .deliver]

theorem visibility_replicated_scene : Runs.Always
    (smallSource.linkStep loadActorScene emptyDictionaryCodec 2) (smallSource.Replicated 2)
    sceneLink sceneCalls := by
  have hs : smallSource.Unlinked 2 sceneLink := by
    refine ⟨ReplicationService.settled_of_unused rfl rfl rfl, List.nodup_nil, fun n => ?_, rfl, rfl,
      rfl, emptyClient, rfl, emptyClient_starts⟩
    cases n <;> decide
  apply UpdateSource.visibility_replicated smallSource_replicable smallSource_loads
    smallSource_sendable hs
  have hsafe (s : ReplicationService SmallNode) (hnode : .scene ∈ s.replicationVisibility)
      (hclients : s.clients ≠ []) (v : Bool) :
      s.Safe (smallTree (S := Unit) fun _ => none) (.setVisibility .scene v) ∧
        ∀ node, (VisibilityCall.setVisibility SmallNode.scene v).target = some node →
          smallSource.registered node = true := by
    refine ⟨ReplicationService.safe_setVisibility hnode rfl hclients v, fun node hn => ?_⟩
    cases hn
    rfl
  have hdeliver (s : ReplicationLink SmallNode) (added : List SmallNode)
      (hadded : (s.server.sentTo 2)[s.delivered]?.map VisibilityUpdate.added = some added)
      (hhidden : ∀ n ∈ added, n ∉ s.hidden) : smallSource.LinkAllowed 2 s .deliver := by
    intro m hm
    rw [hm] at hadded
    rw [Option.some.inj hadded]
    exact hhidden
  have hconnect : ∀ node, (VisibilityCall.peerConnected (N := SmallNode) .two).target = some node →
      smallSource.registered node = true := by
    intro node hn
    cases hn
  exact ⟨⟨trivial, hconnect⟩, hsafe _ (by decide +kernel) (by decide +kernel) _,
    hdeliver _ [] (by decide +kernel) (by decide +kernel),
    hdeliver _ [.scene] (by decide +kernel) (by decide +kernel),
    hsafe _ (by decide +kernel) (by decide +kernel) _,
    hsafe _ (by decide +kernel) (by decide +kernel) _,
    hdeliver _ [] (by decide +kernel) (by decide +kernel), trivial,
    hdeliver _ [.scene] (by decide +kernel) (by decide +kernel), trivial⟩

end Godaemon
