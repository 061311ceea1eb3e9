import Godaemon.Services.BatchHierarchy

namespace Godaemon
set_option autoImplicit true

/-- What becomes of a node of a scene's states when the client goes through them. -/
inductive SlotOutcome where
  | paired (path : ScenePath) (nodeId : Int)
  | absent
  | warned
  | outOfBounds
  deriving DecidableEq

def stateSlots (paths : List ScenePath) : List (Nat × ScenePath) :=
  paths.zipIdx.map fun (path, nodeIdx) => (nodeIdx, path)

/-- The nodes of all states, with their indices in their own states. -/
def sceneSlots (states : List (List ScenePath)) : List (Nat × ScenePath) :=
  states.flatMap stateSlots

/-- The client's loop over the nodes, up to where the script fails. -/
def pairSlots (has : ScenePath → Bool) (nodeIds : List Int) :
    Nat → List (Nat × ScenePath) → List SlotOutcome
  | _, [] => []
  | idx, (nodeIdx, path) :: slots =>
    if nodeIdx ≥ nodeIds.length then .warned :: pairSlots has nodeIds (idx + 1) slots
    else if has path = false then .absent :: pairSlots has nodeIds (idx + 1) slots
    else
      match nodeIds[idx]? with
      | none => [.outOfBounds]
      | some nodeId => .paired path nodeId :: pairSlots has nodeIds (idx + 1) slots

/-- What should become of a node, by the id at its place among all nodes. -/
def slotOutcome (has : ScenePath → Bool) (path : ScenePath) : Option Int → SlotOutcome
  | none => .warned
  | some nodeId => if has path then .paired path nodeId else .absent

/-- All nodes, each with the id at its own place in the list. -/
def alignedSlots (has : ScenePath → Bool) (nodeIds : List Int) (idx : Nat)
    (paths : List ScenePath) : List SlotOutcome :=
  (paths.zipIdx idx).map fun (path, k) => slotOutcome has path nodeIds[k]?

/-- The server's instance of a scene. A node that is registered on its own, apart from the root,
is replicated on its own. -/
structure InstancedScene (N : Type) where
  getNode : ScenePath → Option N
  replicatedApart : N → Bool
  getId : N → Int

namespace InstancedScene

/-- The id that the server sends for a path. An assertion fails on a node without one. -/
def idAt (scene : InstancedScene N) (path : ScenePath) : Int :=
  match scene.getNode path with
  | none => 0
  | some subnode =>
    if scene.replicatedApart subnode then 0
    else if scene.getId subnode ≠ -1 then scene.getId subnode else 0

def nodeIds (scene : InstancedScene N) (states : List (List ScenePath)) : List Int :=
  states.flatMap fun paths => paths.map scene.idAt

end InstancedScene

theorem PackedScene.slots_eq (scene : PackedScene) : scene.slots = sceneSlots scene.states := rfl

section Registering

variable {N : Type} [DecidableEq N] {w : BatchWorld N}

/-- Register the node of a pair. -/
def addOutcome (w : BatchWorld N) (rootId : Int) (b : SceneBuild N) : SlotOutcome → SceneBuild N
  | .paired path nodeId => w.addSlot nodeId path (.created rootId path) b
  | _ => b

theorem registerSlots_eq_pairSlots (rootId : Int) (has : ScenePath → Bool) (nodeIds : List Int)
    (slots : List (Nat × ScenePath)) (idx : Nat) (b : SceneBuild N) :
    w.registerSlots rootId has nodeIds idx slots b =
      if .outOfBounds ∈ pairSlots has nodeIds idx slots then none
      else some ((pairSlots has nodeIds idx slots).foldl (addOutcome w rootId) b) := by
  induction slots generalizing idx b with
  | nil => rfl
  | cons slot slots ih =>
    obtain ⟨nodeIdx, path⟩ := slot
    rw [BatchWorld.registerSlots, pairSlots]
    split
    · rw [ih]
      simp only [List.mem_cons, reduceCtorEq, false_or, List.foldl_cons, addOutcome]
    · split
      · rw [ih]
        simp only [List.mem_cons, reduceCtorEq, false_or, List.foldl_cons, addOutcome]
      · cases nodeIds[idx]? with
        | none => simp only [List.mem_singleton, ↓reduceIte]
        | some nodeId =>
          simp only [ih, List.mem_cons, reduceCtorEq, false_or, List.foldl_cons, addOutcome]

end Registering

theorem alignedSlots_cons : alignedSlots has nodeIds idx (path :: paths) =
    slotOutcome has path nodeIds[idx]? :: alignedSlots has nodeIds (idx + 1) paths := by
  simp only [alignedSlots, List.zipIdx_cons, List.map_cons]

/-- No node beyond the end of the ids has an index in its state that is not. -/
def InStep (size idx : Nat) (slots : List (Nat × ScenePath)) : Prop :=
  ∀ slot ∈ slots.zipIdx idx, size ≤ slot.2 → size ≤ slot.1.1

theorem inStep_append : InStep size idx (slots ++ slots') ↔
    InStep size idx slots ∧ InStep size (idx + slots.length) slots' := by
  simp only [InStep, List.zipIdx_append, List.forall_mem_append]

/-- The pairs are right exactly if the two counters are past the end together: by induction on the
nodes, none of which is further on in its state than among all. -/
theorem pairSlots_eq_iff (slots : List (Nat × ScenePath)) (idx : Nat)
    (hidx : ∀ slot ∈ slots.zipIdx idx, slot.1.1 ≤ slot.2) :
    pairSlots has nodeIds idx slots = alignedSlots has nodeIds idx (slots.map Prod.snd) ↔
      InStep nodeIds.length idx slots := by
  induction slots generalizing idx with
  | nil => simp [pairSlots, alignedSlots, InStep]
  | cons slot slots ih =>
    obtain ⟨nodeIdx, path⟩ := slot
    rw [List.zipIdx_cons, List.forall_mem_cons] at hidx
    have hrest := ih (idx + 1) hidx.2
    have hle : nodeIdx ≤ idx := hidx.1
    rw [InStep, List.zipIdx_cons, List.forall_mem_cons, ← InStep, ← hrest, pairSlots,
      List.map_cons, alignedSlots_cons]
    by_cases hbig : nodeIdx ≥ nodeIds.length
    · have hnone : nodeIds[idx]? = none := List.getElem?_eq_none (Nat.le_trans hbig hle)
      rw [if_pos hbig, hnone, slotOutcome, List.cons.injEq]
      exact ⟨fun h => ⟨fun _ => hbig, h.2⟩, fun h => ⟨rfl, h.2⟩⟩
    · rw [if_neg hbig]
      by_cases hin : idx < nodeIds.length
      · rw [List.getElem?_eq_getElem hin, slotOutcome]
        have hcounters : nodeIds.length ≤ idx → nodeIds.length ≤ nodeIdx := by omega
        by_cases hhas : has path = false
        · rw [if_pos hhas, hhas, if_neg Bool.false_ne_true, List.cons.injEq]
          exact ⟨fun h => ⟨hcounters, h.2⟩, fun h => ⟨rfl, h.2⟩⟩
        · rw [if_neg hhas, if_pos (Bool.eq_true_of_not_eq_false hhas)]
          simp only [List.cons.injEq, true_and]
          exact ⟨fun h => ⟨hcounters, h⟩, fun h => h.2⟩
      · have hout : nodeIds[idx]? = none := List.getElem?_eq_none (Nat.le_of_not_lt hin)
        have hcounters : ¬ (nodeIds.length ≤ idx → nodeIds.length ≤ nodeIdx) := by omega
        rw [hout, slotOutcome]
        refine ⟨fun h => ?_, fun h => absurd h.1 hcounters⟩
        split at h
        · cases h
        · cases h

theorem stateSlots_length : (stateSlots paths).length = paths.length := by
  rw [stateSlots, List.length_map, List.length_zipIdx]

theorem stateSlots_paths : (stateSlots paths).map Prod.snd = paths := by
  rw [stateSlots, List.map_map]
  exact List.zipIdx_map_fst 0 paths

theorem getElem?_stateSlots (i : Nat) :
    (stateSlots paths)[i]? = paths[i]?.map fun path => (i, path) := by
  rw [stateSlots, List.getElem?_map, List.getElem?_zipIdx, Option.map_map, Nat.zero_add]
  rfl

theorem mem_zipIdx_stateSlots (h : slot ∈ (stateSlots paths).zipIdx idx) :
    slot.1.1 < paths.length ∧ slot.2 = idx + slot.1.1 := by
  obtain ⟨hle, hslot⟩ := List.mem_zipIdx_iff_le_and_getElem?_sub.1 h
  rw [getElem?_stateSlots, Option.map_eq_some_iff] at hslot
  obtain ⟨path, hpath, hpair⟩ := hslot
  obtain ⟨hlt, _⟩ := List.getElem?_eq_some_iff.1 hpath
  rw [← hpair]
  exact ⟨hlt, (Nat.add_sub_of_le hle).symm⟩

theorem exists_mem_zipIdx_stateSlots (hi : i < paths.length) (idx : Nat) :
    ∃ slot ∈ (stateSlots paths).zipIdx idx, slot.1.1 = i ∧ slot.2 = idx + i := by
  refine ⟨((i, paths[i]), idx + i), ?_, rfl, rfl⟩
  rw [List.mk_add_mem_zipIdx_iff_getElem?, getElem?_stateSlots, List.getElem?_eq_getElem hi]
  rfl

theorem inStep_stateSlots : InStep size idx (stateSlots paths) ↔
    idx = 0 ∨ size = 0 ∨ paths.length = 0 ∨ idx + paths.length ≤ size := by
  constructor
  · intro h
    by_contra hno
    have hi : size - idx < paths.length := by omega
    obtain ⟨slot, hslot, hone, htwo⟩ := exists_mem_zipIdx_stateSlots hi idx
    have hle := h slot hslot
    omega
  · intro h slot hslot hle
    obtain ⟨hlt, heq⟩ := mem_zipIdx_stateSlots hslot
    omega

theorem sceneSlots_cons (paths : List ScenePath) (states : List (List ScenePath)) :
    sceneSlots (paths :: states) = stateSlots paths ++ sceneSlots states := List.flatMap_cons

theorem sceneSlots_paths (states : List (List ScenePath)) :
    (sceneSlots states).map Prod.snd = states.flatten := by
  induction states with
  | nil => rfl
  | cons paths states ih =>
    rw [sceneSlots_cons, List.map_append, stateSlots_paths, ih, List.flatten_cons]

theorem inStep_sceneSlots_of_pos (h : 0 < idx) (states : List (List ScenePath)) :
    InStep size idx (sceneSlots states) ↔
      size = 0 ∨ states.flatten.length = 0 ∨ idx + states.flatten.length ≤ size := by
  induction states generalizing idx with
  | nil => simp [sceneSlots, InStep]
  | cons paths states ih =>
    rw [sceneSlots_cons, inStep_append, inStep_stateSlots, stateSlots_length,
      ih (Nat.add_pos_left h _), List.flatten_cons, List.length_append]
    omega

theorem flatten_length_eq_zero_iff (states : List (List ScenePath)) :
    states.flatten.length = 0 ↔ (states.filter (fun paths => !paths.isEmpty)).length = 0 := by
  rw [List.length_eq_zero_iff, List.length_eq_zero_iff, List.flatten_eq_nil_iff,
    List.filter_eq_nil_iff]
  simp

/-- The counters are in step exactly if there are no ids, or enough, or all nodes are of one
state. -/
theorem inStep_sceneSlots (size : Nat) (states : List (List ScenePath)) :
    InStep size 0 (sceneSlots states) ↔ size = 0 ∨ states.flatten.length ≤ size ∨
      (states.filter (fun paths => !paths.isEmpty)).length ≤ 1 := by
  induction states with
  | nil => simp [sceneSlots, InStep]
  | cons paths states ih =>
    rw [sceneSlots_cons, inStep_append, inStep_stateSlots, stateSlots_length, Nat.zero_add,
      List.flatten_cons, List.length_append]
    cases paths with
    | nil =>
      rw [List.length_nil, ih, Nat.zero_add, List.filter_cons_of_neg (by simp)]
      simp only [true_or, true_and]
    | cons path paths =>
      have hzero := flatten_length_eq_zero_iff states
      rw [inStep_sceneSlots_of_pos (by simp), List.filter_cons_of_pos (by simp), List.length_cons,
        List.length_cons]
      omega

theorem sceneSlots_le (states : List (List ScenePath)) (idx : Nat) :
    ∀ slot ∈ (sceneSlots states).zipIdx idx, slot.1.1 ≤ slot.2 := by
  induction states generalizing idx with
  | nil =>
    intro slot hslot
    cases hslot
  | cons paths states ih =>
    rw [sceneSlots_cons, List.zipIdx_append, List.forall_mem_append]
    refine ⟨fun slot hslot => ?_, ih _⟩
    obtain ⟨_, heq⟩ := mem_zipIdx_stateSlots hslot
    omega

theorem pairSlots_eq_alignedSlots_iff (states : List (List ScenePath)) (has : ScenePath → Bool)
    (nodeIds : List Int) :
    pairSlots has nodeIds 0 (sceneSlots states) = alignedSlots has nodeIds 0 states.flatten ↔
      nodeIds.length = 0 ∨ states.flatten.length ≤ nodeIds.length ∨
        (states.filter (fun paths => !paths.isEmpty)).length ≤ 1 := by
  rw [← sceneSlots_paths, pairSlots_eq_iff _ 0 (sceneSlots_le states 0), inStep_sceneSlots,
    sceneSlots_paths]

theorem InstancedScene.nodeIds_eq (scene : InstancedScene N) (states : List (List ScenePath)) :
    scene.nodeIds states = states.flatten.map scene.idAt := by
  rw [InstancedScene.nodeIds, List.flatMap_def, List.map_flatten]

theorem alignedSlots_map (has : ScenePath → Bool) (idAt : ScenePath → Int)
    (paths : List ScenePath) : alignedSlots has (paths.map idAt) 0 paths =
      paths.map fun path => slotOutcome has path (some (idAt path)) := by
  have hfst : paths = paths.zipIdx.map Prod.fst := (List.zipIdx_map_fst 0 paths).symm
  conv => rhs; rw [hfst, List.map_map]
  apply List.map_congr_left
  intro slot hslot
  simp only [List.getElem?_map, List.mem_zipIdx_iff_getElem?.1 hslot, Option.map_some,
    Function.comp_apply]

/-- The id that a scene's node is paired with is the one at its place among all nodes, and what is
beyond the end of the ids is passed over with a warning, exactly if there are no ids, or enough, or
all nodes are of one state. The ids of a server with the same states reach their nodes. -/
theorem sceneIds_aligned_iff (states : List (List ScenePath)) (has : ScenePath → Bool)
    (nodeIds : List Int) :
    (pairSlots has nodeIds 0 (sceneSlots states) = alignedSlots has nodeIds 0 states.flatten ↔
      nodeIds.length = 0 ∨ states.flatten.length ≤ nodeIds.length ∨
        (states.filter (fun paths => !paths.isEmpty)).length ≤ 1) ∧
    ∀ scene : InstancedScene N, pairSlots has (scene.nodeIds states) 0 (sceneSlots states) =
      states.flatten.map fun path => slotOutcome has path (some (scene.idAt path)) := by
  refine ⟨pairSlots_eq_alignedSlots_iff states has nodeIds, fun scene => ?_⟩
  have hlength : states.flatten.length ≤ (scene.nodeIds states).length := by
    rw [scene.nodeIds_eq, List.length_map]
  rw [(pairSlots_eq_alignedSlots_iff states has _).2 (.inr (.inl hlength)), scene.nodeIds_eq,
    alignedSlots_map]

/-- Of a scene that inherits another, both with a node below the root: the first two have ids, and
the client reads a third. -/
theorem inherited_scene_out_of_bounds :
    let states : List (List ScenePath) := [[[], ["Door"]], [[], ["Window"]]]
    pairSlots (fun _ => true) [5, 6] 0 (sceneSlots states) =
        [.paired [] 5, .paired ["Door"] 6, .outOfBounds] ∧
      pairSlots (fun _ => true) [5, 6] 0 (sceneSlots states) ≠
        alignedSlots (fun _ => true) [5, 6] 0 states.flatten := by
  decide

end Godaemon
