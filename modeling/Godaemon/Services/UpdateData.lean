import Mathlib.Data.List.Perm.Subperm
import Mathlib.Data.List.Sort
import Godaemon.Services.SceneIds

namespace Godaemon
set_option autoImplicit true

/-- What the server looks at when it writes an update for a peer: what its nodes are made from,
their children by name, which of them are registered, and what goes along with them. -/
structure UpdateSource {S N : Type} [DecidableEq N] (T : ServerTree S N) where
  uid : N → Int
  scene : N → Option PackedScene
  child : N → String → Option N
  registered : N → Bool
  dominant : N → Bool
  owner : N → Int
  values : N → List Variant
  child_parent : ∀ {n name m}, child n name = some m → T.parent m = some n
  child_name : ∀ {n name name' m}, child n name = some m → child n name' = some m → name = name'

namespace UpdateSource

variable {S N : Type} [DecidableEq N] {T : ServerTree S N} (X : UpdateSource T)

def getNode (n : N) : ScenePath → Option N
  | [] => some n
  | name :: path => (getNode n path).bind fun m => X.child m name

/-- A scene as its node ids are read off it. -/
def instanced (n : N) : InstancedScene N :=
  ⟨X.getNode n, fun m => X.registered m && m ≠ n, T.repository.getId⟩

/-- The body of the loop over a scene's nodes, as far as it gathers their properties. -/
def gatherValues (n : N) (values : Dict Int (List Variant)) (path : ScenePath) :
    Dict Int (List Variant) :=
  match X.getNode n path with
  | none => values
  | some subnode =>
    if X.registered subnode && subnode ≠ n then values
    else if (X.values subnode).isEmpty then values
    else values.set (T.repository.getId subnode) (X.values subnode)

def propertyValues (n : N) (scene : PackedScene) : Dict Int (List Variant) :=
  scene.states.flatten.foldl (X.gatherValues n) .empty

/-- The data of a node that is added, a scene or a script; none where the parent has no id. -/
def addData (n : N) : Option AddedNode :=
  match T.parent n with
  | none => none
  | some parent =>
    if T.repository.getId parent = -1 then none
    else
      match X.scene n with
      | none => some {
          parentId := T.repository.getId parent
          owner := X.owner n
          uid := X.uid n
          propertyKeys := [.int (T.repository.getId n)]
          propertyValues := [.array (X.values n)]
          nodeIds := [T.repository.getId n]
          dominant := X.dominant n }
      | some scene => some {
          parentId := T.repository.getId parent
          owner := X.owner n
          uid := X.uid n
          propertyKeys := (X.propertyValues n scene).keys.map .int
          propertyValues := (X.propertyValues n scene).values.map .array
          nodeIds := (X.instanced n).nodeIds scene.states
          dominant := X.dominant n }

/-- By ascending id. -/
def sorted (T : ServerTree S N) (nodes : List N) : List N :=
  nodes.mergeSort fun a b => T.repository.getId a ≤ T.repository.getId b

/-- The bytes of an update. -/
def updateVisibility (codec : VariantCodec) (added removed : List N) : List UInt8 :=
  compressVisibilityData codec ((sorted T added).filterMap X.addData)
    ((sorted T removed).map T.repository.getId)

/-- What becomes of a change of the nodes that a peer sees: nothing, or an update for it. -/
def updatePeerNodes (codec : VariantCodec) (old new : List N) : Option (List UInt8) :=
  let added := new.filter (· ∉ old)
  let removed := old.filter (· ∉ new)
  if added = [] ∧ removed = [] then none else some (X.updateVisibility codec added removed)

/-- A node comes along with a registered one: it is that node, or a part of its scene. -/
def Carries (s m : N) : Prop :=
  match X.scene s with
  | none => m = s
  | some scene => ∃ path ∈ scene.states.flatten, X.getNode s path = some m ∧
      (X.registered m = true → m = s)

/-- What replication asks of the server's nodes: a registered node is no service, and its parent
is a service, the root or a part of what is replicated; the scenes list all nodes down to each,
which an instance has; and no registered node is in between a scene and a part of it. -/
structure Replicable : Prop where
  not_always : ∀ n, X.registered n = true → T.alwaysVisible n = false
  parent_known : ∀ n, X.registered n = true → ∀ p, T.parent n = some p →
    T.alwaysVisible p = true ∨ ∃ s, X.registered s = true ∧ X.Carries s p
  above : ∀ n scene, X.scene n = some scene → ∀ name path,
    name :: path ∈ scene.states.flatten → path ∈ scene.states.flatten
  has : ∀ n scene, X.scene n = some scene → ∀ path ∈ scene.states.flatten, scene.has path = true
  nearest : ∀ s m, X.registered s = true → X.Carries s m →
    ∀ a ∈ T.path m, X.registered a = true → a ∈ T.path s

/-- The client loads for the server's uids what the server made its nodes from. -/
def LoadsAs (load : Int → Option Resource) : Prop :=
  ∀ n, X.registered n = true → load (X.uid n) = some (match X.scene n with
    | none => .script
    | some scene => .scene scene)

variable {X}

theorem getNode_cons {n m : N} {name : String} {path : ScenePath}
    (h : X.getNode n (name :: path) = some m) :
    ∃ p, X.getNode n path = some p ∧ X.child p name = some m ∧ T.parent m = some p := by
  rw [getNode, Option.bind_eq_some_iff] at h
  obtain ⟨p, hp, hm⟩ := h
  exact ⟨p, hp, hm, X.child_parent hm⟩

theorem mem_path_of_getNode {n m : N} {path : ScenePath} (h : X.getNode n path = some m) :
    n ∈ T.path m := by
  induction path generalizing m with
  | nil =>
    cases h
    exact T.self_mem_path n
  | cons name path ih =>
    obtain ⟨p, hp, _, hparent⟩ := getNode_cons h
    rw [Forest.path_of_parent hparent]
    exact List.mem_cons_of_mem _ (ih hp)

theorem getNode_cons_ne {n : N} {name : String} {path : ScenePath} :
    X.getNode n (name :: path) ≠ some n := by
  intro h
  obtain ⟨p, hp, _, hparent⟩ := getNode_cons h
  have hlt := T.rank_lt hparent
  have hle := Forest.rank_le_of_mem_path (mem_path_of_getNode hp)
  omega

/-- A node is on one path only: by induction on the two, from the node upwards. -/
theorem getNode_inj {n m : N} {path path' : ScenePath} (h : X.getNode n path = some m)
    (h' : X.getNode n path' = some m) : path = path' := by
  induction path generalizing m path' with
  | nil =>
    cases h
    cases path' with
    | nil => rfl
    | cons name' path' => exact absurd h' getNode_cons_ne
  | cons name path ih =>
    cases path' with
    | nil =>
      cases h'
      exact absurd h getNode_cons_ne
    | cons name' path' =>
      obtain ⟨p, hp, hchild, hparent⟩ := getNode_cons h
      obtain ⟨p', hp', hchild', hparent'⟩ := getNode_cons h'
      rw [hparent, Option.some.injEq] at hparent'
      rw [← hparent'] at hp' hchild'
      rw [ih hp hp', X.child_name hchild hchild']

theorem exists_getNode_of_carries {s m : N} (h : X.Carries s m) :
    ∃ path, X.getNode s path = some m := by
  rw [Carries] at h
  cases hs : X.scene s with
  | none =>
    rw [hs] at h
    exact ⟨[], congrArg some h.symm⟩
  | some scene =>
    rw [hs] at h
    obtain ⟨path, _, hget, _⟩ := h
    exact ⟨path, hget⟩

theorem carries_mem_path {s m : N} (h : X.Carries s m) : s ∈ T.path m := by
  obtain ⟨path, hget⟩ := exists_getNode_of_carries h
  exact mem_path_of_getNode hget

theorem carries_self (s : N) : X.Carries s s := by
  rw [Carries]
  cases hs : X.scene s with
  | none => rfl
  | some scene =>
    obtain ⟨paths, rest, hstates⟩ := scene.root_first
    refine ⟨[], ?_, rfl, fun _ => rfl⟩
    rw [hstates]
    exact List.mem_cons_self

theorem Replicable.carrier_unique (hX : X.Replicable) {s s' m : N}
    (hs : X.registered s = true) (hs' : X.registered s' = true) (h : X.Carries s m)
    (h' : X.Carries s' m) : s = s' :=
  Forest.eq_of_mem_path (hX.nearest s m hs h s' (carries_mem_path h') hs')
    (hX.nearest s' m hs' h' s (carries_mem_path h) hs)

theorem Replicable.carries_above (hX : X.Replicable) {s m : N} (hs : X.registered s = true)
    (hc : X.Carries s m) {name : String} {path : ScenePath}
    (h : X.getNode s (name :: path) = some m) :
    ∃ p, X.getNode s path = some p ∧ T.parent m = some p ∧ X.Carries s p := by
  obtain ⟨p, hp, _, hparent⟩ := getNode_cons h
  refine ⟨p, hp, hparent, ?_⟩
  have hmem : p ∈ T.path m := by
    rw [Forest.path_of_parent hparent]
    exact List.mem_cons_of_mem _ (T.self_mem_path p)
  have honly (hreg : X.registered p = true) : p = s :=
    Forest.eq_of_mem_path (mem_path_of_getNode hp) (hX.nearest s m hs hc p hmem hreg)
  cases hscene : X.scene s with
  | none =>
    rw [Carries, hscene] at hc
    rw [hc] at h
    exact absurd h getNode_cons_ne
  | some scene =>
    rw [Carries, hscene] at hc ⊢
    obtain ⟨path', hpath', hget, _⟩ := hc
    rw [getNode_inj hget h] at hpath'
    exact ⟨path, hX.above s scene hscene name path hpath', hp, honly⟩

theorem addData_of_parent {n p : N} (hp : T.parent n = some p) :
    ∃ e, X.addData n = some e ∧ e.parentId = T.repository.getId p ∧ e.uid = X.uid n ∧
      e.dominant = X.dominant n ∧
      match X.scene n with
      | none => e.propertyKeys = [.int (T.repository.getId n)] ∧ e.nodeIds = [T.repository.getId n]
      | some scene => e.nodeIds = scene.states.flatten.map (X.instanced n).idAt := by
  rw [addData, hp]
  simp only [T.getId_ne_neg_one p, ↓reduceIte]
  cases X.scene n with
  | none => exact ⟨_, rfl, rfl, rfl, rfl, rfl, rfl⟩
  | some scene => exact ⟨_, rfl, rfl, rfl, rfl, (X.instanced n).nodeIds_eq scene.states⟩

theorem addData_made {n : N} {e : AddedNode} (h : X.addData n = some e) :
    e.owner = X.owner n ∧ e.uid = X.uid n := by
  rw [addData] at h
  split at h
  · cases h
  · split at h
    · cases h
    · split at h
      · cases h
        exact ⟨rfl, rfl⟩
      · cases h
        exact ⟨rfl, rfl⟩

theorem idAt_eq_iff {s : N} {path : ScenePath} {i : Int} (hi : i ≠ 0) :
    (X.instanced s).idAt path = i ↔ ∃ m, X.getNode s path = some m ∧
      (X.registered m = true → m = s) ∧ T.repository.getId m = i := by
  cases hget : X.getNode s path with
  | none => simpa [InstancedScene.idAt, instanced, hget] using hi.symm
  | some m =>
    simp only [InstancedScene.idAt, instanced, hget, Option.some.injEq, exists_eq_left',
      T.getId_ne_neg_one m, ne_eq, not_false_eq_true, ↓reduceIte, Bool.and_eq_true,
      decide_eq_true_eq]
    by_cases hapart : X.registered m = true ∧ ¬ m = s
    · rw [if_pos hapart]
      constructor
      · intro h
        exact absurd h.symm hi
      · rintro ⟨honly, _⟩
        exact absurd (honly hapart.1) hapart.2
    · rw [if_neg hapart]
      rw [not_and_not_right] at hapart
      exact ⟨fun h => ⟨hapart, h⟩, fun h => h.2⟩

theorem idAt_nonneg (s : N) (path : ScenePath) : 0 ≤ (X.instanced s).idAt path := by
  rw [InstancedScene.idAt]
  split
  · exact Int.le_refl 0
  · split
    · exact Int.le_refl 0
    · split
      · exact (T.coherent.getId_of_mem (T.registered _)).1
      · exact Int.le_refl 0

theorem Replicable.ne_root (hX : X.Replicable) {s m : N} (hs : X.registered s = true)
    (h : X.Carries s m) : m ≠ T.root := by
  intro he
  have hmem := carries_mem_path h
  rw [he, Forest.path_of_root T.parent_root, List.mem_singleton] at hmem
  have hnot := hX.not_always s hs
  rw [hmem, SceneTree.alwaysVisible, decide_eq_true rfl, Bool.true_or] at hnot
  cases hnot

theorem Replicable.exists_parent (hX : X.Replicable) {s : N} (hs : X.registered s = true) :
    ∃ p, T.parent s = some p := by
  rw [← Option.isSome_iff_exists, Option.isSome_iff_ne_none, Ne, T.parent_eq_none_iff]
  exact hX.ne_root hs (carries_self s)

variable {N' : Type} {w : BatchWorld N'}

theorem getElem?_slots {scene : PackedScene} {idx nodeIdx : Nat} {path : ScenePath}
    (h : scene.slots[idx]? = some (nodeIdx, path)) :
    scene.states.flatten[idx]? = some path ∧ nodeIdx ≤ idx := by
  rw [scene.slots_eq] at h
  apply And.intro
  · rw [← sceneSlots_paths, List.getElem?_map, h, Option.map_some]
  · exact sceneSlots_le scene.states 0 ((nodeIdx, path), idx) (List.mem_zipIdx_iff_getElem?.2 h)

theorem exists_slot {scene : PackedScene} {idx : Nat} {path : ScenePath}
    (h : scene.states.flatten[idx]? = some path) :
    ∃ nodeIdx, scene.slots[idx]? = some (nodeIdx, path) := by
  rw [← sceneSlots_paths, ← scene.slots_eq, List.getElem?_map, Option.map_eq_some_iff] at h
  obtain ⟨⟨nodeIdx, path'⟩, hslot, rfl⟩ := h
  exact ⟨nodeIdx, hslot⟩

theorem reads_iff_of_aligned {e : AddedNode} {scene : PackedScene} {idAt : ScenePath → Int}
    (hload : w.load e.uid = some (.scene scene))
    (hids : e.nodeIds = scene.states.flatten.map idAt)
    (hhas : ∀ path ∈ scene.states.flatten, scene.has path = true) {i : Int} {path : ScenePath} :
    w.Reads e i path ↔ path ∈ scene.states.flatten ∧ i = idAt path := by
  simp only [BatchWorld.Reads, hload, hids, List.length_map, List.getElem?_map]
  constructor
  · rintro ⟨idx, nodeIdx, hslot, _, _, hid⟩
    obtain ⟨hpath, _⟩ := getElem?_slots hslot
    rw [hpath, Option.map_some, Option.some.injEq] at hid
    exact ⟨List.mem_of_getElem? hpath, hid.symm⟩
  · rintro ⟨hmem, hid⟩
    obtain ⟨idx, hpath⟩ := List.mem_iff_getElem?.1 hmem
    obtain ⟨nodeIdx, hslot⟩ := exists_slot hpath
    have hle := (getElem?_slots hslot).2
    obtain ⟨hlt, _⟩ := List.getElem?_eq_some_iff.1 hpath
    refine ⟨idx, nodeIdx, hslot, Nat.lt_of_le_of_lt hle hlt, hhas path hmem, ?_⟩
    rw [hpath, Option.map_some, hid]

theorem rootId_of_aligned {e : AddedNode} {scene : PackedScene} {idAt : ScenePath → Int}
    (hids : e.nodeIds = scene.states.flatten.map idAt) : BatchWorld.rootId e = idAt [] := by
  obtain ⟨paths, rest, hstates⟩ := scene.root_first
  rw [BatchWorld.rootId, hids, hstates]
  rfl

/-- What an entry of an update is to the client: it has the id of its node first, and as many ids
as the client looks for, and every node that comes along is registered on its path. -/
structure Describes (X : UpdateSource T) (w : BatchWorld N') (s : N) (e : AddedNode) : Prop where
  rootId : BatchWorld.rootId e = T.repository.getId s
  parentId : ∀ p, T.parent s = some p → e.parentId = T.repository.getId p
  ids : e.nodeIds ≠ [] ∧ ∀ nodeId ∈ e.nodeIds, 0 ≤ nodeId
  inBounds : w.InBounds e
  loads : w.load e.uid = some .script ∨ ∃ scene, w.load e.uid = some (.scene scene)
  properties : w.load e.uid = some .script →
    e.propertyKeys = [] ∨ hasPropertiesOf (BatchWorld.rootId e) e.propertyKeys = true
  registers : ∀ i node, w.Registers e i node ↔ ∃ path m, X.getNode s path = some m ∧
    X.Carries s m ∧ i = T.repository.getId m ∧ node = .created (T.repository.getId s) path

theorem Replicable.getId_ne_zero (hX : X.Replicable) {s m : N} (hs : X.registered s = true)
    (h : X.Carries s m) : T.repository.getId m ≠ 0 := by
  rw [Ne, T.getId_eq_zero_iff]
  exact hX.ne_root hs h

theorem describes_script (hX : X.Replicable) {s : N} {e : AddedNode}
    (hs : X.registered s = true) (hscene : X.scene s = none)
    (hload : w.load e.uid = some .script)
    (hparent : ∀ p, T.parent s = some p → e.parentId = T.repository.getId p)
    (hkeys : e.propertyKeys = [.int (T.repository.getId s)])
    (hids : e.nodeIds = [T.repository.getId s]) : X.Describes w s e := by
  have hroot : BatchWorld.rootId e = T.repository.getId s := by
    rw [BatchWorld.rootId, hids]
    rfl
  have honly (m : N) : X.Carries s m ↔ m = s := by rw [Carries, hscene]
  refine ⟨hroot, hparent, ⟨?_, ?_⟩, ?_, .inl hload, fun _ => .inr ?_, fun i node => ?_⟩
  · rw [hids]
    exact List.cons_ne_nil _ _
  · intro nodeId hmem
    rw [hids, List.mem_singleton] at hmem
    rw [hmem]
    exact (T.coherent.getId_of_mem (T.registered s)).1
  · intro scene hloaded
    rw [hload] at hloaded
    cases hloaded
  · rw [hroot, hkeys]
    simp [hasPropertiesOf]
  · rw [BatchWorld.registers_script hload, BatchWorld.lodeOf, hroot]
    have hself : X.getNode s [] = some s := rfl
    constructor
    · rintro ⟨hi, _, hnode⟩
      exact ⟨[], s, hself, carries_self s, hi, hnode⟩
    · rintro ⟨path, m, hget, hm, hi, hnode⟩
      rw [(honly m).1 hm] at hget hi
      rw [getNode_inj hget hself] at hnode
      exact ⟨hi, hi ▸ hX.getId_ne_zero hs (carries_self s), hnode⟩

theorem describes_scene (hX : X.Replicable) {s : N} {e : AddedNode} {scene : PackedScene}
    (hs : X.registered s = true) (hscene : X.scene s = some scene)
    (hload : w.load e.uid = some (.scene scene))
    (hparent : ∀ p, T.parent s = some p → e.parentId = T.repository.getId p)
    (hids : e.nodeIds = scene.states.flatten.map (X.instanced s).idAt) : X.Describes w s e := by
  have hroot : BatchWorld.rootId e = T.repository.getId s := by
    rw [rootId_of_aligned hids, idAt_eq_iff (hX.getId_ne_zero hs (carries_self s))]
    exact ⟨s, rfl, fun _ => rfl, rfl⟩
  refine ⟨hroot, hparent, ⟨?_, ?_⟩, ?_, .inr ⟨scene, hload⟩, ?_, fun i node => ?_⟩
  · obtain ⟨paths, rest, hstates⟩ := scene.root_first
    rw [hids, hstates]
    exact List.cons_ne_nil _ _
  · intro nodeId hmem
    rw [hids] at hmem
    obtain ⟨path, _, rfl⟩ := List.mem_map.1 hmem
    exact idAt_nonneg s path
  · intro scene' hloaded idx nodeIdx path hslot _ _
    rw [hload, Option.some.injEq, Resource.scene.injEq] at hloaded
    rw [← hloaded] at hslot
    rw [hids, List.length_map]
    exact (List.getElem?_eq_some_iff.1 (getElem?_slots hslot).1).1
  · intro hloaded
    rw [hload] at hloaded
    cases hloaded
  · simp only [BatchWorld.Registers, hroot,
      reads_iff_of_aligned hload hids (hX.has s scene hscene)]
    constructor
    · rintro ⟨path, ⟨hpath, hid⟩, hi, hnode⟩
      obtain ⟨m, hget, honly, hm⟩ := (idAt_eq_iff hi).1 hid.symm
      refine ⟨path, m, hget, ?_, hm.symm, hnode⟩
      rw [Carries, hscene]
      exact ⟨path, hpath, hget, honly⟩
    · rintro ⟨path, m, hget, hm, hi, hnode⟩
      have hzero : i ≠ 0 := hi ▸ hX.getId_ne_zero hs hm
      rw [Carries, hscene] at hm
      obtain ⟨path', hpath', hget', honly⟩ := hm
      rw [getNode_inj hget' hget] at hpath'
      refine ⟨path, ⟨hpath', ?_⟩, hzero, hnode⟩
      exact ((idAt_eq_iff hzero).2 ⟨m, hget, honly, hi.symm⟩).symm

theorem exists_describes (hX : X.Replicable) (hload : X.LoadsAs w.load) {s : N}
    (hs : X.registered s = true) : ∃ e, X.addData s = some e ∧ X.Describes w s e := by
  obtain ⟨p, hp⟩ := hX.exists_parent hs
  obtain ⟨e, he, hid, huid, _, hids⟩ := X.addData_of_parent hp
  have hparent (q : N) (hq : T.parent s = some q) : e.parentId = T.repository.getId q := by
    rw [hp, Option.some.injEq] at hq
    rw [← hq, hid]
  have hloaded := hload s hs
  rw [← huid] at hloaded
  refine ⟨e, he, ?_⟩
  cases hscene : X.scene s with
  | none =>
    rw [hscene] at hids hloaded
    exact describes_script hX hs hscene hloaded hparent hids.1 hids.2
  | some scene =>
    rw [hscene] at hids hloaded
    exact describes_scene hX hs hscene hloaded hparent hids

/-- How deep the node of an id is in the server's tree. -/
def idRank (T : ServerTree S N) (id : Int) : Nat :=
  match T.repository.idToObject.get? id with
  | none => 0
  | some n => T.rank n

theorem idRank_getId (n : N) : idRank T (T.repository.getId n) = T.rank n := by
  rw [idRank, (T.coherent.getId_of_mem (T.registered n)).2.2]

theorem mem_entries (hX : X.Replicable) (hload : X.LoadsAs w.load) {added : List N}
    (hreg : ∀ s ∈ added, X.registered s = true) {e : AddedNode} :
    e ∈ added.filterMap X.addData ↔ ∃ s ∈ added, X.addData s = some e ∧ X.Describes w s e := by
  rw [List.mem_filterMap]
  constructor
  · rintro ⟨s, hs, he⟩
    obtain ⟨e', he', hd⟩ := exists_describes hX hload (hreg s hs)
    rw [he, Option.some.injEq] at he'
    exact ⟨s, hs, he, he' ▸ hd⟩
  · rintro ⟨s, hs, he, _⟩
    exact ⟨s, hs, he⟩

theorem map_rootId (hX : X.Replicable) (hload : X.LoadsAs w.load) {added : List N}
    (hreg : ∀ s ∈ added, X.registered s = true) :
    (added.filterMap X.addData).map BatchWorld.rootId = added.map T.repository.getId := by
  induction added with
  | nil => rfl
  | cons s added ih =>
    obtain ⟨e, he, hd⟩ := exists_describes hX hload (hreg s List.mem_cons_self)
    rw [List.filterMap_cons, he, List.map_cons, List.map_cons, hd.rootId,
      ih fun s' hs' => hreg s' (List.mem_cons_of_mem _ hs')]

/-- An update that adds registered nodes which the client does not have is a batch: of two entries
one is below the other only if its node is. -/
theorem batch_of_added (hX : X.Replicable) (hload : X.LoadsAs w.load)
    {r : Repository (BatchNode N')} {added : List N}
    (hexisting : ∀ i node, r.idToObject.get? i = some node → ∃ n, node = .existing n)
    (hreg : ∀ s ∈ added, X.registered s = true) (hnodup : added.Nodup)
    (hnew : ∀ s ∈ added, ∀ m, X.Carries s m →
      (r.getObject w.isValid (T.repository.getId m)).1 = none) :
    w.Batch r (added.filterMap X.addData) := by
  have hmem (e : AddedNode) (he : e ∈ added.filterMap X.addData) :
      ∃ s ∈ added, X.Describes w s e := by
    obtain ⟨s, hs, _, hd⟩ := (mem_entries hX hload hreg).1 he
    exact ⟨s, hs, hd⟩
  refine ⟨hexisting, fun e he => ?_, fun e he => ?_, fun e he => ?_, fun e he => ?_, ?_,
    fun e he e' he' i node node' h h' => ?_, fun e he i i' node h h' => ?_,
    fun e he i node h => ?_, idRank T, fun e he e' he' node h => ?_⟩
  · obtain ⟨s, _, hd⟩ := hmem e he
    exact hd.loads
  · obtain ⟨s, _, hd⟩ := hmem e he
    exact hd.ids
  · obtain ⟨s, hs, hd⟩ := hmem e he
    rw [hd.rootId]
    exact hX.getId_ne_zero (hreg s hs) (carries_self s)
  · obtain ⟨s, _, hd⟩ := hmem e he
    exact hd.properties
  · rw [map_rootId hX hload hreg]
    exact hnodup.map fun a b hab => T.getId_inj hab
  · obtain ⟨s, hs, hd⟩ := hmem e he
    obtain ⟨s', hs', hd'⟩ := hmem e' he'
    obtain ⟨path, m, hget, hm, hi, rfl⟩ := (hd.registers i node).1 h
    obtain ⟨path', m', hget', hm', hi', rfl⟩ := (hd'.registers i node').1 h'
    have hmm : m = m' := T.getId_inj (hi.symm.trans hi')
    rw [← hmm] at hm' hget'
    have hss := hX.carrier_unique (hreg s hs) (hreg s' hs') hm hm'
    rw [← hss] at hget' ⊢
    rw [getNode_inj hget hget']
  · obtain ⟨s, hs, hd⟩ := hmem e he
    obtain ⟨path, m, hget, _, hi, rfl⟩ := (hd.registers i node).1 h
    obtain ⟨path', m', hget', _, hi', hnode⟩ := (hd.registers i' _).1 h'
    obtain ⟨_, hpath⟩ := BatchNode.created.inj hnode
    rw [← hpath, hget, Option.some.injEq] at hget'
    rw [hi, hi', hget']
  · obtain ⟨s, hs, hd⟩ := hmem e he
    obtain ⟨path, m, _, hm, rfl, _⟩ := (hd.registers i node).1 h
    exact hnew s hs m hm
  · obtain ⟨s, hs, hd⟩ := hmem e he
    obtain ⟨s', hs', hd'⟩ := hmem e' he'
    obtain ⟨path, m, _, hm, hi, _⟩ := (hd'.registers _ node).1 h
    obtain ⟨p, hp⟩ := hX.exists_parent (hreg s hs)
    rw [hd.parentId p hp] at hi
    rw [hd.rootId, hd'.rootId, idRank_getId, idRank_getId]
    have hle := Forest.rank_le_of_mem_path (carries_mem_path hm)
    have hlt := T.rank_lt hp
    rw [T.getId_inj hi] at hlt
    omega

/-- What goes into an update fits its fields, and the serializer gives the properties back. -/
structure Sendable (X : UpdateSource T) (codec : VariantCodec) : Prop where
  owner : ∀ n, 0 ≤ X.owner n ∧ X.owner n < 2 ^ 32
  uid : ∀ n, -2 ^ 63 ≤ X.uid n ∧ X.uid n < 2 ^ 63
  count : ∀ n scene, X.scene n = some scene → scene.states.flatten.length < 2 ^ 32
  inverts : ∀ n, X.registered n = true → ∀ e, X.addData n = some e → codec.Inverts e.properties

theorem getId_inRange (n : N) : 0 ≤ T.repository.getId n ∧ T.repository.getId n < 2 ^ 32 := by
  have hid := T.coherent.getId_of_mem (T.registered n)
  rw [maxId_eq] at hid
  omega

theorem idAt_inRange (s : N) (path : ScenePath) :
    0 ≤ (X.instanced s).idAt path ∧ (X.instanced s).idAt path < 2 ^ 32 := by
  by_cases hzero : (X.instanced s).idAt path = 0
  · rw [hzero]
    omega
  · obtain ⟨m, _, _, hm⟩ := (idAt_eq_iff hzero).1 rfl
    rw [← hm]
    exact getId_inRange m

theorem Sendable.inRange {codec : VariantCodec} (hsend : X.Sendable codec) {n : N} {e : AddedNode}
    (he : X.addData n = some e) : e.InRange := by
  rw [addData] at he
  cases hp : T.parent n with
  | none =>
    rw [hp] at he
    cases he
  | some p =>
    simp only [hp, T.getId_ne_neg_one p, ↓reduceIte] at he
    cases hscene : X.scene n with
    | none =>
      rw [hscene] at he
      cases he
      refine ⟨getId_inRange p, hsend.owner n, hsend.uid n, fun id hid => ?_, ?_⟩
      · rw [List.mem_singleton.1 hid]
        exact getId_inRange n
      · exact Nat.one_lt_two_pow (by decide)
    | some scene =>
      rw [hscene] at he
      cases he
      refine ⟨getId_inRange p, hsend.owner n, hsend.uid n, fun id hid => ?_, ?_⟩
      · rw [InstancedScene.nodeIds_eq] at hid
        obtain ⟨path, _, rfl⟩ := List.mem_map.1 hid
        exact idAt_inRange n path
      · change ((X.instanced n).nodeIds scene.states).length < 2 ^ 32
        rw [InstancedScene.nodeIds_eq, List.length_map]
        exact hsend.count n scene hscene

theorem length_lt_of_nodup {nodes : List N} (hnodup : nodes.Nodup)
    (hroot : ∀ n ∈ nodes, n ≠ T.root) : nodes.length < 2 ^ 32 := by
  have hid (n : N) := getId_inRange (T := T) n
  have hinj : (nodes.map fun n => (T.repository.getId n).toNat).Nodup := by
    apply hnodup.map
    intro a b hab
    apply T.getId_inj
    have ha := hid a
    have hb := hid b
    simp only at hab
    omega
  have hzero : 0 ∉ nodes.map fun n => (T.repository.getId n).toNat := by
    intro hm
    obtain ⟨n, hn, he⟩ := List.mem_map.1 hm
    have hn0 := hid n
    exact hroot n hn (T.getId_eq_zero_iff.1 (by omega))
  have hsub : 0 :: nodes.map (fun n => (T.repository.getId n).toNat) ⊆ List.range (2 ^ 32) := by
    intro i hi
    rw [List.mem_range]
    rcases List.mem_cons.1 hi with he | hm
    · rw [he]
      exact Nat.two_pow_pos 32
    · obtain ⟨n, _, rfl⟩ := List.mem_map.1 hm
      have hn := hid n
      omega
  have hle := (List.subperm_of_subset (List.nodup_cons.2 ⟨hzero, hinj⟩) hsub).length_le
  rw [List.length_cons, List.length_map, List.length_range] at hle
  exact hle

theorem mem_sorted {nodes : List N} {n : N} : n ∈ sorted T nodes ↔ n ∈ nodes :=
  List.mem_mergeSort

theorem nodup_sorted {nodes : List N} (h : nodes.Nodup) : (sorted T nodes).Nodup :=
  (List.mergeSort_perm nodes _).nodup_iff.2 h

theorem decompress_compress {codec : VariantCodec} {added : List AddedNode} {removed : List Int}
    (hadded : ∀ node ∈ added, node.InRange ∧ codec.Inverts node.properties)
    (hremoved : ∀ id ∈ removed, 0 ≤ id ∧ id < 2 ^ 32) (hcount : added.length < 2 ^ 32)
    (hcount' : removed.length < 2 ^ 32) :
    decompressVisibilityData codec (compressVisibilityData codec added removed) =
      some (added, removed) := by
  have h0 := PackedByteStream.Ahead.setup PackedByteStream.new
    (visibilityBytes codec added removed)
  nth_rewrite 2 [visibilityBytes] at h0
  obtain ⟨s1, e1, v1, h1⟩ := field_ahead h0 (by omega) (by omega)
  obtain ⟨s2, e2, v2, h2⟩ := field_ahead h1 (by omega) (by omega)
  obtain ⟨s3, e3, v3, h3⟩ := readAddedNodes_ahead added h2 hadded
  rw [← List.append_nil (idBytes removed)] at h3
  obtain ⟨s4, e4, v4, _⟩ := readIds_ahead removed h3 hremoved
  have hvalid : s4.valid = true := by
    rw [v4, v3, v2, v1]
    rfl
  rw [compressVisibilityData_eq]
  simp only [decompressVisibilityData, readUnsigned_maxBytes, e1, e2,
    Int.toNat_natCast, e3, Option.bind_some, e4, hvalid, ↓reduceIte]

/-- The client reads an update as the server has written it. -/
theorem decompress_updateVisibility {codec : VariantCodec} (hX : X.Replicable)
    (hsend : X.Sendable codec) {added removed : List N}
    (hadded : added.Nodup ∧ ∀ s ∈ added, X.registered s = true)
    (hremoved : removed.Nodup ∧ ∀ s ∈ removed, X.registered s = true) :
    decompressVisibilityData codec (X.updateVisibility codec added removed) =
      some ((sorted T added).filterMap X.addData,
        (sorted T removed).map T.repository.getId) := by
  have hroot (nodes : List N) (hreg : ∀ s ∈ nodes, X.registered s = true) :
      ∀ n ∈ sorted T nodes, n ≠ T.root :=
    fun n hn => hX.ne_root (hreg n (mem_sorted.1 hn)) (carries_self n)
  apply decompress_compress
  · intro e he
    obtain ⟨s, hs, he⟩ := List.mem_filterMap.1 he
    exact ⟨hsend.inRange he, hsend.inverts s (hadded.2 s (mem_sorted.1 hs)) e he⟩
  · intro id hid
    obtain ⟨n, _, rfl⟩ := List.mem_map.1 hid
    exact getId_inRange n
  · exact Nat.lt_of_le_of_lt (List.length_filterMap_le _ _)
      (length_lt_of_nodup (nodup_sorted hadded.1) (hroot added hadded.2))
  · rw [List.length_map]
    exact length_lt_of_nodup (nodup_sorted hremoved.1) (hroot removed hremoved.2)

end UpdateSource

end Godaemon
