import Godaemon.Services.CacheCoherence

namespace Godaemon
set_option autoImplicit true

/-- Which of the server's nodes a client has copies of, and where these hang. -/
structure ClientTree (N : Type) where
  has : N → Bool
  parent : N → Option N

namespace ClientTree

variable {S N : Type} [DecidableEq N] (T : SceneTree S N)

/-- The client's copies hang where the server's nodes do. -/
structure CopyOf (c : ClientTree N) : Prop where
  parent : ∀ n, c.has n = true → c.parent n = T.parent n
  closed : ∀ n m, c.has n = true → T.parent n = some m → c.has m = true

def getObject (node : N) (c : ClientTree N) : Option N := if c.has node then some node else none

/-- A node is taken out of the tree and freed, with what is below it. -/
def free (node : N) (c : ClientTree N) : ClientTree N :=
  { c with has := fun n => c.has n && node ∉ T.path n }

/-- What a client does when the server says that a node has another parent. -/
def nodeReparent (node parent : N) (c : ClientTree N) : ClientTree N :=
  match c.getObject node, c.getObject parent with
  | none, _ => c
  | some node, object =>
    if c.parent node = object then c
    else
      match object with
      | none => c.free T node
      | some parent => { c with parent := Function.update c.parent node (some parent) }

end ClientTree

namespace ReplicationService

variable {S N : Type} [DecidableEq N]

/-- The server's part, once the node has been moved. Everyone is told, for everyone observes the
service. -/
def reparentNode (T : ServerTree S N) (node : N) (s : ReplicationService N) :
    ReplicationService N :=
  if node ∈ s.replicationVisibility then s.clearVisibilityCache T node else s

end ReplicationService

namespace ClientTree

variable {S N : Type} [DecidableEq N] {T : SceneTree S N} {c : ClientTree N}

/-- What the message comes to: a node that the client has goes where its parent is, or with it. -/
theorem CopyOf.nodeReparent_eq (h : c.CopyOf T) (m : T.Move) :
    c.nodeReparent T m.node m.parent =
      if c.has m.node then
        if c.has m.parent then
          { c with parent := Function.update c.parent m.node (some m.parent) }
        else c.free T m.node
      else c := by
  rw [nodeReparent, getObject, getObject]
  by_cases hnode : c.has m.node = true
  · rw [if_pos hnode, if_pos hnode]
    by_cases hparent : c.has m.parent = true
    · rw [if_pos hparent, if_pos hparent]
      simp only
      by_cases hsame : c.parent m.node = some m.parent
      · rw [if_pos hsame, ← hsame, Function.update_eq_self]
      · rw [if_neg hsame]
    · have hne : c.parent m.node ≠ none := by
        rw [h.parent m.node hnode]
        exact fun hp => m.node_ne_root (T.parent_eq_none_iff.1 hp)
      rw [if_neg hparent, if_neg hparent]
      simp only
      rw [if_neg hne]
  · rw [if_neg hnode, if_neg hnode]

theorem CopyOf.has_self (h : c.CopyOf T) (m : T.Move) :
    (c.nodeReparent T m.node m.parent).has m.node = true ↔
      c.has m.node = true ∧ c.has m.parent = true := by
  rw [h.nodeReparent_eq]
  by_cases hnode : c.has m.node = true
  · rw [if_pos hnode]
    by_cases hparent : c.has m.parent = true
    · rw [if_pos hparent]
      exact iff_of_true hnode ⟨hnode, hparent⟩
    · rw [if_neg hparent]
      simp only [free, T.self_mem_path, not_true_eq_false, decide_false, Bool.and_false,
        Bool.false_eq_true, hparent, and_false]
  · rw [if_neg hnode]
    exact iff_of_false hnode (fun hb => hnode hb.1)

theorem CopyOf.nodeReparent (h : c.CopyOf T) (m : T.Move) :
    (c.nodeReparent T m.node m.parent).CopyOf (T.move m) := by
  have hother (d : ClientTree N) (hd : ∀ n, d.has n = true → n ≠ m.node ∧ c.has n = true)
      (hparent : d.parent = c.parent)
      (hclosed : ∀ n k, d.has n = true → T.parent n = some k → d.has k = true) :
      d.CopyOf (T.move m) := by
    constructor
    · intro n hn
      obtain ⟨hne, hc⟩ := hd n hn
      rw [hparent, SceneTree.move_parent_of_ne m hne]
      exact h.parent n hc
    · intro n k hn hk
      rw [SceneTree.move_parent_of_ne m (hd n hn).1] at hk
      exact hclosed n k hn hk
  rw [h.nodeReparent_eq]
  by_cases hnode : c.has m.node = true
  · rw [if_pos hnode]
    by_cases hparent : c.has m.parent = true
    · rw [if_pos hparent]
      constructor
      · intro n hn
        by_cases hne : n = m.node
        · rw [hne, SceneTree.move_parent_self]
          exact Function.update_self _ _ _
        · rw [SceneTree.move_parent_of_ne m hne, ← h.parent n hn]
          exact Function.update_of_ne hne _ _
      · intro n k hn hk
        by_cases hne : n = m.node
        · rw [hne, SceneTree.move_parent_self, Option.some.injEq] at hk
          rw [← hk]
          exact hparent
        · rw [SceneTree.move_parent_of_ne m hne] at hk
          exact h.closed n k hn hk
    · rw [if_neg hparent]
      have hfree (n : N) : (c.free T m.node).has n = true ↔
          c.has n = true ∧ m.node ∉ T.path n := by
        rw [free, Bool.and_eq_true, decide_eq_true_iff]
      apply hother (c.free T m.node)
      · intro n hn
        rw [hfree] at hn
        refine ⟨fun he => hn.2 ?_, hn.1⟩
        rw [he]
        exact T.self_mem_path m.node
      · rfl
      · intro n k hn hk
        rw [hfree] at hn ⊢
        rw [Forest.path_of_parent hk] at hn
        exact ⟨h.closed n k hn.1 hk, fun hm => hn.2 (List.mem_cons_of_mem _ hm)⟩
  · rw [if_neg hnode]
    apply hother c
    · intro n hn
      refine ⟨fun he => hnode ?_, hn⟩
      rw [← he]
      exact hn
    · rfl
    · exact h.closed

end ClientTree

namespace ReplicationService

variable {S N : Type} [DecidableEq N] {T : ServerTree S N} {s : ReplicationService N}

theorem reparentNode_frame (T : ServerTree S N) (node : N) (s : ReplicationService N) :
    ∃ cache, s.reparentNode T node = { s with visibilityCache := cache } := by
  unfold reparentNode clearVisibilityCache
  split
  · split
    · exact ⟨_, rfl⟩
    · exact ⟨_, rfl⟩
  · exact ⟨_, rfl⟩

theorem not_alwaysVisible_of_below (m : T.Move) (hn : m.node ∈ (T.move m).path n) :
    (T.move m).alwaysVisible n = false := by
  have hnode : (T.move m).alwaysVisible m.node = false := by
    have hroot : m.node ≠ (T.move m).root := m.node_ne_root
    have hservice : (T.move m).isService m.node = false := m.not_service
    rw [SceneTree.alwaysVisible, hservice, decide_eq_false hroot]
    rfl
  cases hv : (T.move m).alwaysVisible n with
  | false => rfl
  | true =>
    rw [SceneTree.alwaysVisible_of_mem_path hv hn] at hnode
    cases hnode

theorem cached_reparentNode (hreg : node ∈ s.replicationVisibility) (hn : node ∈ T.path n) :
    (s.reparentNode T node).cached n p =
      if node ∈ s.visibilityCache then none else s.cached n p := by
  rw [reparentNode, if_pos hreg, cached_clearVisibilityCache hreg]
  by_cases hcache : node ∈ s.visibilityCache
  · rw [if_pos hcache, if_pos ⟨hcache, hn, .inl rfl⟩]
  · rw [if_neg hcache, if_neg (fun h => hcache h.1)]

/-- A query about a moved node answers by its new place if the cache was cleared or is right. -/
theorem answers_iff (m : T.Move)
    (hreg : m.node ∈ s.replicationVisibility) (hn : m.node ∈ (T.move m).path n) :
    ((s.reparentNode (T.move m) m.node).getTrueVisibility (T.move m) n p).1 =
        s.effective (T.move m) n p ↔
      m.node ∈ s.visibilityCache ∨ Current (T.move m) s n p := by
  obtain ⟨cache, hframe⟩ := reparentNode_frame (T.move m) m.node s
  have heffective : (s.reparentNode (T.move m) m.node).effective (T.move m) n p =
      s.effective (T.move m) n p := by
    apply effective_congr
    rw [hframe]
  rw [(getTrueVisibility_spec _ _ n p).1, sees, not_alwaysVisible_of_below m hn, Bool.false_or,
    ← heffective, answer_eq_effective_iff, Current, cached_reparentNode hreg hn, heffective]
  by_cases hcache : m.node ∈ s.visibilityCache
  · rw [if_pos hcache]
    exact iff_of_true (fun b hb => by cases hb) (.inl hcache)
  · rw [if_neg hcache]
    exact (or_iff_right hcache).symm

theorem effective_move (s : ReplicationService N) (m : T.Move) :
    s.effective (T.move m) m.node p = true ↔
      (∀ entry, s.replicationVisibility.get? m.node = some entry → value entry p = true) ∧
        s.effective T m.parent p = true := by
  have hpath : (T.move m).path m.node = m.node :: T.path m.parent := by
    have hself : (T.move m).path m.node = m.node :: (T.move m).path m.parent :=
      Forest.path_move_self (h := m.acyclic)
    have hparent : (T.move m).path m.parent = T.path m.parent :=
      Forest.path_move_of_not_mem (h := m.acyclic) m.acyclic
    rw [hself, hparent]
  rw [effective_iff, effective_iff, hpath]
  simp only [List.mem_cons, forall_eq_or_imp]
  exact and_congr_left' (forall_prop_of_true m.node_ne_root)

end ReplicationService

/-- The server's visibility state and the trees of the clients. -/
structure ReparentNet [DecidableEq N] (T : ServerTree S N) where
  service : ReplicationService N
  client : Int → ClientTree N
  copies : ∀ p ∈ service.clients, (client p).CopyOf T.toSceneTree

namespace ReparentNet

open ReplicationService

variable {S N : Type} [DecidableEq N] {T : ServerTree S N}

/-- The node is moved on the server, and all clients are told. -/
def reparent (net : ReparentNet T) (m : T.Move) : ReparentNet (T.move m) where
  service := net.service.reparentNode (T.move m) m.node
  client p := (net.client p).nodeReparent T.toSceneTree m.node m.parent
  copies := by
    obtain ⟨cache, hframe⟩ := reparentNode_frame (T.move m) m.node net.service
    intro p hp
    rw [hframe] at hp
    exact (net.copies p hp).nodeReparent m

/-- The clients have the node if it is visible to them, and have it below their copy of its parent;
and queries about it and what is below it answer by where they are. -/
def Converged (net : ReparentNet T) (node parent : N) : Prop :=
  ∀ p ∈ net.service.clients,
    ((net.client p).has node = true ↔ net.service.effective T node p = true) ∧
    ((net.client p).has node = true →
      (net.client p).parent node = some parent ∧ (net.client p).has parent = true) ∧
    ∀ n, node ∈ T.path n → (net.service.getTrueVisibility T n p).1 = net.service.effective T n p

/-- A client that sees the node in its new place has it and its new parent already, and one that
does not see it lacks one of them; and the node has an entry in the cache, or no answer that is
cached for it or a node below it is out of date in the new place. -/
def Ready (net : ReparentNet T) (m : T.Move) : Prop :=
  ∀ p ∈ net.service.clients,
    ((net.client p).has m.node = true ∧ (net.client p).has m.parent = true ↔
      net.service.effective (T.move m) m.node p = true) ∧
    (m.node ∈ net.service.visibilityCache ∨
      ∀ n, m.node ∈ T.path n → Current (T.move m) net.service n p)

/-- Reparenting a registered node converges exactly if the clients and the cache are ready. -/
theorem reparent_converges_iff (net : ReparentNet T) (m : T.Move)
    (hreg : m.node ∈ net.service.replicationVisibility) :
    (net.reparent m).Converged m.node m.parent ↔ net.Ready m := by
  obtain ⟨cache, hframe⟩ := reparentNode_frame (T.move m) m.node net.service
  have hclients : (net.reparent m).service.clients = net.service.clients := by
    change (net.service.reparentNode (T.move m) m.node).clients = _
    rw [hframe]
    rfl
  have heffective (n : N) (p : Int) : (net.reparent m).service.effective (T.move m) n p =
      net.service.effective (T.move m) n p := by
    apply effective_congr
    change (net.service.reparentNode (T.move m) m.node).replicationVisibility = _
    rw [hframe]
  rw [Converged, Ready, hclients]
  apply forall_congr'
  intro p
  apply forall_congr'
  intro hp
  have hself := (net.copies p hp).has_self m
  have hplace (h : ((net.reparent m).client p).has m.node = true) :
      ((net.reparent m).client p).parent m.node = some m.parent ∧
        ((net.reparent m).client p).has m.parent = true := by
    have hcopies := (net.reparent m).copies p (hclients ▸ hp)
    have hparent := SceneTree.move_parent_self m
    exact ⟨(hcopies.parent m.node h).trans hparent, hcopies.closed m.node m.parent h hparent⟩
  have hanswers (n : N) (hn : m.node ∈ (T.move m).path n) :
      ((net.reparent m).service.getTrueVisibility (T.move m) n p).1 =
          (net.reparent m).service.effective (T.move m) n p ↔
        m.node ∈ net.service.visibilityCache ∨ Current (T.move m) net.service n p := by
    rw [heffective]
    exact answers_iff m hreg hn
  have hbelow (n : N) : m.node ∈ (T.move m).path n ↔ m.node ∈ T.path n :=
    Forest.mem_path_move_self (h := m.acyclic)
  rw [heffective, ← hself]
  constructor
  · intro h
    obtain ⟨hhas, _, hqueries⟩ := h
    refine ⟨hhas, ?_⟩
    by_cases hcache : m.node ∈ net.service.visibilityCache
    · exact .inl hcache
    · refine .inr (fun n hn => ?_)
      have hn' := (hbelow n).2 hn
      exact ((hanswers n hn').1 (hqueries n hn')).resolve_left hcache
  · intro h
    obtain ⟨hhas, hcache⟩ := h
    refine ⟨hhas, hplace, fun n hn => (hanswers n hn).2 ?_⟩
    rcases hcache with hcache | hcurrent
    · exact .inl hcache
    · exact .inr (hcurrent n ((hbelow n).1 hn))

/-- A client that has the node and the new parent exactly if they are visible to it is ready exactly
if the node does not become visible to it by the move. -/
theorem ready_of_synced (net : ReparentNet T) (m : T.Move)
    (hnode : (net.client p).has m.node = true ↔ net.service.effective T m.node p = true)
    (hparent : (net.client p).has m.parent = true ↔ net.service.effective T m.parent p = true) :
    ((net.client p).has m.node = true ∧ (net.client p).has m.parent = true ↔
        net.service.effective (T.move m) m.node p = true) ↔
      (net.service.effective (T.move m) m.node p = true →
        net.service.effective T m.node p = true) := by
  have hown : net.service.effective T m.node p = true →
      ∀ entry, net.service.replicationVisibility.get? m.node = some entry →
        value entry p = true := by
    intro h
    rw [effective_iff] at h
    exact h m.node (T.self_mem_path m.node) m.node_ne_root
  rw [hnode, hparent, effective_move]
  constructor
  · intro h hnew
    exact (h.2 hnew).1
  · intro h
    constructor
    · intro hold
      exact ⟨hown hold.1, hold.2⟩
    · intro hnew
      exact ⟨h hnew, hnew.2⟩

/-- Peer 2 may see a node of a scene, and sees the scene or not; it has copies of what it sees. -/
def smallNet (shown : Bool) : ReparentNet (smallTree fun _ => some ()) where
  service := Runs.run (step (smallTree fun _ => some ())) start
    [.peerConnected .two, .setVisibility .scene shown, .setVisibility .actor true]
  client _ :=
    { has n := n = .root || shown, parent := (smallTree fun _ => some ()).parent }
  copies p _ := by
    constructor
    · exact fun _ _ => rfl
    · intro n k hn hk
      cases shown with
      | true => simp only [Bool.or_true]
      | false =>
        simp only [Bool.or_false, decide_eq_true_eq] at hn
        rw [hn] at hk
        cases hk

/-- The node leaves its scene for the root. -/
def leaveScene : SceneTree.Move (smallTree fun _ => some ()).toSceneTree where
  node := .actor
  parent := .root
  not_service := rfl
  acyclic := by decide

theorem shown_converges : ((smallNet true).reparent leaveScene).Converged .actor .root := by
  apply (reparent_converges_iff (smallNet true) leaveScene (by decide +kernel)).2
  have hclients : (smallNet true).service.clients = [2] := by decide +kernel
  intro p hp
  rw [hclients, List.mem_singleton] at hp
  rw [hp]
  exact ⟨by decide +kernel, .inl (by decide +kernel)⟩

/-- The scene is hidden from peer 2, so it has no copy of the node. By leaving the scene the node
becomes visible to it, but it does not get it. -/
theorem newly_visible_missing :
    (∀ n, ((smallNet false).client 2).has n =
      (smallNet false).service.effective (smallTree fun _ => some ()) n 2) ∧
    .actor ∈ (smallNet false).service.replicationVisibility ∧
    ¬ ((smallNet false).reparent leaveScene).Converged .actor .root := by
  refine ⟨fun n => by cases n <;> decide +kernel, by decide +kernel, fun h => ?_⟩
  have hpeer := (h 2 (by decide +kernel)).1
  revert hpeer
  decide +kernel

end ReparentNet

end Godaemon
