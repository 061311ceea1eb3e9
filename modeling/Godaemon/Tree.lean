import Mathlib.Logic.Function.Basic
import Godaemon.Lib.Forest
import Godaemon.Api.Repository

namespace Godaemon
set_option autoImplicit true

/-- The nodes below a MultiplayerRoot, with the parts of a node that replication looks at. -/
structure SceneTree (S N : Type) extends Forest N where
  root : N
  parent_root : parent root = none
  under_root : ∀ n, root ∈ toForest.path n
  isService : N → Bool
  service_parent : ∀ n, isService n = true → parent n = some root
  isScene : N → Bool
  script : N → Option S

namespace SceneTree

variable {S N : Type} [DecidableEq N] (T : SceneTree S N)

omit [DecidableEq N] in
theorem parent_eq_none_iff : T.parent n = none ↔ n = T.root := by
  constructor
  · intro h
    have hm := T.under_root n
    rw [Forest.path_of_root h, List.mem_singleton] at hm
    exact hm.symm
  · rintro rfl
    exact T.parent_root

/-- The MultiplayerRoot and the services are visible to everyone. -/
def alwaysVisible (n : N) : Bool := n = T.root || T.isService n

/-- Where a climb for the owner stops, and what it finds there. -/
def ownerLabel (owner : N → Option Int) (n : N) : Option Int :=
  if n = T.root ∨ (owner n).isSome then some ((owner n).getD 1) else none

/-- The owner of a node in the tree: the nearest owner metadata up to the root, or the server. -/
def getNodeOwner (owner : N → Option Int) (n : N) : Int :=
  (T.nearest (T.ownerLabel owner) n).getD 1

variable {T} {owner : N → Option Int}

theorem getNodeOwner_of_meta (h : owner n = some p) : T.getNodeOwner owner n = p := by
  have hl : T.ownerLabel owner n = some p := by simp [ownerLabel, h]
  rw [getNodeOwner, Forest.nearest_of_some hl, Option.getD_some]

theorem getNodeOwner_root : T.getNodeOwner owner T.root = (owner T.root).getD 1 := by
  have hl : T.ownerLabel owner T.root = some ((owner T.root).getD 1) := by simp [ownerLabel]
  rw [getNodeOwner, Forest.nearest_of_some hl, Option.getD_some]

theorem getNodeOwner_of_parent (h : owner n = none) (hp : T.parent n = some m) :
    T.getNodeOwner owner n = T.getNodeOwner owner m := by
  have hr : n ≠ T.root := fun he => by
    rw [he, T.parent_root] at hp
    cases hp
  have hl : T.ownerLabel owner n = none := by simp [ownerLabel, h, hr]
  rw [getNodeOwner, Forest.nearest_of_parent hl hp, getNodeOwner]

/-- A node takes its owner from what `a` says: `a` is at or above it, and no node below `a` on the
way there has an owner of its own. -/
def Inherits (T : SceneTree S N) (owner : N → Option Int) (n a : N) : Prop :=
  a ∈ T.path n ∧ ∀ m ∈ T.path n, (owner m).isSome = true → m ∈ T.path a

instance (owner : N → Option Int) (n a : N) : Decidable (T.Inherits owner n a) :=
  inferInstanceAs (Decidable (_ ∧ _))

theorem getNodeOwner_congr (h : ∀ m ∈ T.path n, owner m = owner' m) :
    T.getNodeOwner owner n = T.getNodeOwner owner' n := by
  induction n using T.parent_induction with
  | h n ih =>
    have hn := h n (T.self_mem_path n)
    cases ho : owner n with
    | some v => rw [getNodeOwner_of_meta ho, getNodeOwner_of_meta (hn ▸ ho)]
    | none =>
      cases hp : T.parent n with
      | none =>
        have hr := T.parent_eq_none_iff.1 hp
        subst hr
        rw [getNodeOwner_root, getNodeOwner_root, hn]
      | some m =>
        rw [getNodeOwner_of_parent ho hp, getNodeOwner_of_parent (hn ▸ ho) hp]
        apply ih m hp
        intro x hx
        exact h x (by rw [Forest.path_of_parent hp]; exact List.mem_cons_of_mem _ hx)

/-- On the way up from a service or the root there are only services and the root. -/
theorem alwaysVisible_of_mem_path (hn : T.alwaysVisible n = true) (hm : m ∈ T.path n) :
    T.alwaysVisible m = true := by
  rcases Forest.mem_path_iff.1 hm with rfl | ⟨c, hc, hmc⟩
  · exact hn
  · simp only [alwaysVisible, Bool.or_eq_true, decide_eq_true_eq] at hn
    rcases hn with rfl | hs
    · rw [T.parent_root] at hc
      cases hc
    · rw [T.service_parent n hs] at hc
      cases hc
      rw [Forest.path_of_root T.parent_root, List.mem_singleton] at hmc
      simp [alwaysVisible, hmc]

/-- A node and where to hang it: services stay where they are, and no node goes below itself. -/
structure Move (T : SceneTree S N) where
  node : N
  parent : N
  not_service : T.isService node = false
  acyclic : node ∉ T.path parent

omit [DecidableEq N] in
theorem Move.node_ne_root (m : T.Move) : m.node ≠ T.root := by
  intro he
  apply m.acyclic
  rw [he]
  exact T.under_root m.parent

/-- The tree after a node has been given another parent. -/
def move (T : SceneTree S N) (m : T.Move) : SceneTree S N :=
  { T with
    toForest := T.toForest.move m.node m.parent m.acyclic
    parent_root := by
      rw [Forest.parent_move_of_ne m.acyclic m.node_ne_root.symm, T.parent_root]
    under_root := by
      intro n
      by_cases hn : m.node ∈ T.path n
      · exact (Forest.mem_path_move hn).2 (.inr (T.under_root m.parent))
      · rw [Forest.path_move_of_not_mem hn]
        exact T.under_root n
    service_parent := by
      intro n hn
      have hne : n ≠ m.node := by
        intro he
        rw [he, m.not_service] at hn
        cases hn
      rw [Forest.parent_move_of_ne m.acyclic hne, T.service_parent n hn] }

theorem move_parent_self (m : T.Move) : (T.move m).parent m.node = some m.parent := if_pos rfl

theorem move_parent_of_ne (m : T.Move) (hn : n ≠ m.node) : (T.move m).parent n = T.parent n :=
  Forest.parent_move_of_ne m.acyclic hn

end SceneTree

/-- The server's tree: it gives every node of the tree an id, starting with the root. -/
structure ServerTree (S N : Type) [DecidableEq N] extends SceneTree S N where
  repository : Repository N
  coherent : repository.Coherent
  registered : ∀ n, n ∈ repository.objectToId
  root_id : repository.getId root = 0

namespace ServerTree

variable {S N : Type} [DecidableEq N] (T : ServerTree S N)

theorem getId_inj (h : T.repository.getId n = T.repository.getId m) : n = m :=
  T.coherent.getId_inj (T.registered n) (T.registered m) h

theorem getId_ne_neg_one (n : N) : T.repository.getId n ≠ -1 := by
  have h := (T.coherent.getId_of_mem (T.registered n)).1
  omega

/-- Ids do not depend on where nodes are. -/
def move (m : T.Move) : ServerTree S N := { T with toSceneTree := T.toSceneTree.move m }

theorem getId_eq_zero_iff : T.repository.getId n = 0 ↔ n = T.root :=
  ⟨fun h => T.getId_inj (h.trans T.root_id.symm), fun h => h ▸ T.root_id⟩

end ServerTree

inductive SmallNode where
  | root
  | scene
  | actor
  deriving DecidableEq

/-- A root, a scene below it, and a node of the scene, registered in this order. -/
def smallTree (script : SmallNode → Option S) : ServerTree S SmallNode where
  parent
    | .root => none
    | .scene => some .root
    | .actor => some .scene
  rank
    | .root => 0
    | .scene => 1
    | .actor => 2
  rank_lt {a b} h := by
    cases a <;> cases h <;> decide
  root := .root
  parent_root := rfl
  under_root n := by cases n <;> decide
  isService _ := false
  service_parent _ h := by cases h
  isScene n := n = .scene
  script := script
  repository := (((Repository.new.addObject .root).2.addObject .scene).2.addObject .actor).2
  coherent := by
    have h0 := Repository.Coherent.new.addObject (n := SmallNode.root) ⟨by decide, by decide⟩
    have h1 := h0.addObject (n := .scene) ⟨by decide, by decide⟩
    exact h1.addObject ⟨by decide, by decide⟩
  registered n := by cases n <;> decide
  root_id := by decide

/-- The owner of a node outside the tree: only its own metadata counts. -/
def getDetachedOwner (owner : Option Int) : Int := owner.getD 1

end Godaemon
