import Godaemon.Tree
import Godaemon.Services.VisibilityMessage

namespace Godaemon
set_option autoImplicit true

/-- A path inside of a scene, the deepest name first. -/
abbrev ScenePath := List String

/-- A scene with the states that it inherits from, its own first, and the nodes of an instance.
Every state begins with the root. -/
structure PackedScene where
  states : List (List ScenePath)
  has : ScenePath → Bool
  root_first : ∃ paths rest, states = ([] :: paths) :: rest
  has_root : has [] = true

inductive Resource where
  | script
  | scene (scene : PackedScene)
  | other

/-- A node that the client has, or one that a batch makes: named by the id of its entry and its
path in the scene. -/
inductive BatchNode (N : Type) where
  | existing (node : N)
  | created (rootId : Int) (path : ScenePath)
  deriving DecidableEq

/-- The engine: which of the client's nodes have not been freed, and what is loaded for a uid, with
the remaps of scenes and scripts. -/
structure BatchWorld (N : Type) where
  isInstanceValid : N → Bool
  load : Int → Option Resource

/-- The client while it adds a batch, the nodes that it frees when the frame ends, and the calls of
`add_child` that have gone through, the child first. The root of an entry has `META_OWNER` and the
uid of the resource that it is an instance of. -/
structure BatchState (N : Type) where
  repository : Repository (BatchNode N)
  tree : Forest (BatchNode N)
  metaOwner : Dict (BatchNode N) Int
  resource : Dict (BatchNode N) Int
  idsToLodes : Dict Int (BatchNode N)
  dominantLodeIds : List Int
  lodeIdToParentIds : Dict Int Int
  queuedForDeletion : List (BatchNode N)
  addedChildren : List (BatchNode N × BatchNode N)

/-- While a scene is built: its nodes with ids and those without, by their paths. -/
structure SceneBuild (N : Type) where
  repository : Repository (BatchNode N)
  existing : Dict ScenePath (BatchNode N)
  dead : Dict ScenePath (BatchNode N)

/-- Where a node is before the batch comes: made for an entry, it is in its scene. -/
def bornParent (F : Forest N) : BatchNode N → Option (BatchNode N)
  | .existing node => (F.parent node).map .existing
  | .created _ [] => none
  | .created rootId (_ :: path) => some (.created rootId path)

def bornRank (F : Forest N) : BatchNode N → Nat
  | .existing node => F.rank node
  | .created _ path => path.length

/-- The tree of the client, with the nodes to come below the roots of their scenes. -/
def bornTree (F : Forest N) : Forest (BatchNode N) where
  parent := bornParent F
  rank := bornRank F
  rank_lt {a b} h := by
    cases a with
    | existing node =>
      cases hp : F.parent node with
      | none =>
        rw [bornParent, hp] at h
        cases h
      | some parent =>
        rw [bornParent, hp] at h
        cases h
        exact F.rank_lt hp
    | created rootId path =>
      cases path with
      | nil => cases h
      | cons name path =>
        cases h
        exact Nat.lt_succ_self _

/-- The positions of a scene's nodes in their states, over all of its states. -/
def PackedScene.slots (scene : PackedScene) : List (Nat × ScenePath) :=
  scene.states.flatMap fun paths => paths.zipIdx.map fun (path, nodeIdx) => (nodeIdx, path)

def hasPropertiesOf (id : Int) (keys : List Variant) : Bool :=
  keys.any fun
    | .int key => key = id
    | _ => false

namespace BatchWorld

variable {N : Type} [DecidableEq N] (w : BatchWorld N)

/-- What a batch has made is not freed before it ends. -/
def isValid : BatchNode N → Bool
  | .existing node => w.isInstanceValid node
  | .created _ _ => true

/-- A node with an id is registered, unless it is already; one without is going to be removed. -/
def addSlot (nodeId : Int) (path : ScenePath) (subnode : BatchNode N) (b : SceneBuild N) :
    SceneBuild N :=
  if nodeId ≠ 0 then
    let (object, repository) := b.repository.getObject w.isValid nodeId
    { b with
      existing := b.existing.set path subnode
      repository :=
        if object ≠ some subnode then (repository.addObject subnode nodeId).2 else repository }
  else { b with dead := b.dead.set path subnode }

/-- The loop over the nodes of a scene's states. The running index is used on the ids, but what is
compared with their number is the node's index in its own state. -/
def registerSlots (rootId : Int) (has : ScenePath → Bool) (nodeIds : List Int) :
    Nat → List (Nat × ScenePath) → SceneBuild N → Option (SceneBuild N)
  | _, [], b => some b
  | idx, (nodeIdx, path) :: slots, b =>
    if nodeIdx ≥ nodeIds.length then registerSlots rootId has nodeIds (idx + 1) slots b
    else if has path = false then registerSlots rootId has nodeIds (idx + 1) slots b
    else
      match nodeIds[idx]? with
      | none => none
      | some nodeId =>
        registerSlots rootId has nodeIds (idx + 1) slots
          (w.addSlot nodeId path (.created rootId path) b)

/-- The nodes without ids are taken out and freed, unless another state has an id for them. -/
def removeDead (existing : Dict ScenePath (BatchNode N)) :
    List (ScenePath × BatchNode N) → BatchState N → BatchState N
  | [], s => s
  | (path, subnode) :: dead, s =>
    if path ∈ existing then removeDead existing dead s
    else removeDead existing dead { s with
      tree := s.tree.detach subnode
      queuedForDeletion := s.queuedForDeletion ++ [subnode] }

def addLode (nodeId : Int) (e : AddedNode) (s : BatchState N) : BatchState N :=
  { s with
    metaOwner := s.metaOwner.set (.created nodeId []) e.owner
    resource := s.resource.set (.created nodeId []) e.uid
    idsToLodes := s.idsToLodes.set nodeId (.created nodeId [])
    lodeIdToParentIds := s.lodeIdToParentIds.set nodeId e.parentId
    dominantLodeIds := if e.dominant then s.dominantLodeIds ++ [nodeId] else s.dominantLodeIds }

/-- Make the nodes of an entry, `none` when the script fails: where an id is read that there is
not, or the properties of a script's node are missing. -/
def buildEntry (e : AddedNode) (s : BatchState N) : Option (BatchState N) :=
  match w.load e.uid, e.nodeIds with
  | some .script, nodeId :: _ =>
    if e.propertyKeys ≠ [] ∧ hasPropertiesOf nodeId e.propertyKeys = false then none
    else some (addLode nodeId e { s with
      repository := (s.repository.addObject (.created nodeId []) nodeId).2 })
  | some (.scene scene), nodeId :: _ =>
    (w.registerSlots nodeId scene.has e.nodeIds 0 scene.slots
        ⟨s.repository, .empty, .empty⟩).map fun b =>
      addLode nodeId e
        (removeDead b.existing b.dead.entries { s with repository := b.repository })
  | some .script, [] => none
  | some (.scene _), [] => none
  | _, _ => some s

def buildEntries : List AddedNode → BatchState N → Option (BatchState N)
  | [], s => some s
  | e :: added, s => (w.buildEntry e s).bind (buildEntries added)

/-- Dominant entries first. -/
def lodeIdOrder (s : BatchState N) : List Int :=
  s.dominantLodeIds ++ s.idsToLodes.keys.filter fun id => id ∉ s.dominantLodeIds

def tryGetParent (parentId : Int) (s : BatchState N) : Option (BatchNode N) × BatchState N :=
  ((s.repository.getObject w.isValid parentId).1,
    { s with repository := (s.repository.getObject w.isValid parentId).2 })

/-- The body of the loop that finds the parents. -/
def orderLode (build : Dict (BatchNode N) (BatchNode N) × BatchState N) (lodeId : Int) :
    Dict (BatchNode N) (BatchNode N) × BatchState N :=
  let (lodeOrder, s) := build
  match s.idsToLodes.get? lodeId, s.lodeIdToParentIds.get? lodeId with
  | some lode, some parentId =>
    match s.idsToLodes.get? parentId with
    | some parentLode => (lodeOrder.set lode parentLode, s)
    | none =>
      match w.tryGetParent parentId s with
      | (some parentNode, s) => (lodeOrder.set lode parentNode, s)
      | (none, s) => (lodeOrder, { s with queuedForDeletion := s.queuedForDeletion ++ [lode] })
  | _, _ => (lodeOrder, s)

/-- The engine refuses a node that has a parent, or that would come below itself. -/
def addChild (lode parent : BatchNode N) (s : BatchState N) : BatchState N :=
  if s.tree.parent lode ≠ none then s
  else if h : lode ∈ s.tree.path parent then s
  else { s with
    tree := s.tree.move lode parent h
    addedChildren := s.addedChildren ++ [(lode, parent)] }

def addLodes : List (BatchNode N × BatchNode N) → BatchState N → BatchState N
  | [], s => s
  | (lode, parent) :: lodeOrder, s => addLodes lodeOrder (addChild lode parent s)

/-- The client, with its repository and its tree, before a batch. -/
def start (repository : Repository (BatchNode N)) (F : Forest N) : BatchState N :=
  ⟨repository, bornTree F, .empty, .empty, .empty, [], .empty, [], []⟩

/-- What the client does with the added nodes of an update. -/
def updateVisibility (added : List AddedNode) (s : BatchState N) : Option (BatchState N) :=
  (w.buildEntries added s).map fun s =>
    let (lodeOrder, s) := (lodeIdOrder s).foldl w.orderLode (.empty, s)
    addLodes lodeOrder.entries s

/-- The id of an entry's root. -/
def rootId (e : AddedNode) : Int := e.nodeIds.headD 0

/-- The root that is made for an entry. -/
def lodeOf (e : AddedNode) : BatchNode N := .created (rootId e) []

/-- The client reads an id for a node of an entry. -/
def Reads (e : AddedNode) (nodeId : Int) (path : ScenePath) : Prop :=
  match w.load e.uid with
  | some .script => nodeId = rootId e ∧ path = []
  | some (.scene scene) => ∃ idx nodeIdx : Nat, scene.slots[idx]? = some (nodeIdx, path) ∧
      nodeIdx < e.nodeIds.length ∧ scene.has path = true ∧ e.nodeIds[idx]? = some nodeId
  | _ => False

/-- An entry's node is registered under an id while the batch is built. -/
def Registers (e : AddedNode) (nodeId : Int) (node : BatchNode N) : Prop :=
  ∃ path, w.Reads e nodeId path ∧ nodeId ≠ 0 ∧ node = .created (rootId e) path

/-- A node that an entry has no id for, wherever it is in the scene's states. -/
def Dead (e : AddedNode) (node : BatchNode N) : Prop :=
  ∃ path, node = .created (rootId e) path ∧ w.Reads e 0 path ∧
    ∀ nodeId, w.Reads e nodeId path → nodeId = 0

/-- An id stands for a node: for one that the batch registers, a root or below one, or for one that
is in the repository. -/
def Stands (r : Repository (BatchNode N)) (added : List AddedNode) (nodeId : Int)
    (node : BatchNode N) : Prop :=
  (∃ e ∈ added, w.Registers e nodeId node) ∨ (r.getObject w.isValid nodeId).1 = some node

/-- No node of an entry that is there, and whose index in its own state is below the number of the
entry's ids, comes after as many others. -/
def InBounds (e : AddedNode) : Prop :=
  ∀ scene, w.load e.uid = some (.scene scene) → ∀ (idx nodeIdx : Nat) (path : ScenePath),
    scene.slots[idx]? = some (nodeIdx, path) → nodeIdx < e.nodeIds.length →
      scene.has path = true → idx < e.nodeIds.length

/-- The entries load, have an id each and new ids for their nodes, an id for a node and a node for
an id; the properties of a script's node come under its id; the parent links go down a rank. -/
structure Batch (r : Repository (BatchNode N)) (added : List AddedNode) : Prop where
  existing : ∀ nodeId node, r.idToObject.get? nodeId = some node → ∃ n, node = .existing n
  loads : ∀ e ∈ added, w.load e.uid = some .script ∨ ∃ scene, w.load e.uid = some (.scene scene)
  ids : ∀ e ∈ added, e.nodeIds ≠ [] ∧ ∀ nodeId ∈ e.nodeIds, 0 ≤ nodeId
  roots : ∀ e ∈ added, rootId e ≠ 0
  properties : ∀ e ∈ added, w.load e.uid = some .script →
    e.propertyKeys = [] ∨ hasPropertiesOf (rootId e) e.propertyKeys = true
  distinct : (added.map rootId).Nodup
  one_node : ∀ e ∈ added, ∀ e' ∈ added, ∀ nodeId node node', w.Registers e nodeId node →
    w.Registers e' nodeId node' → node = node'
  one_id : ∀ e ∈ added, ∀ nodeId nodeId' node, w.Registers e nodeId node →
    w.Registers e nodeId' node → nodeId = nodeId'
  new : ∀ e ∈ added, ∀ nodeId node, w.Registers e nodeId node →
    (r.getObject w.isValid nodeId).1 = none
  acyclic : ∃ rank : Int → Nat, ∀ e ∈ added, ∀ e' ∈ added, ∀ node,
    w.Registers e' e.parentId node → rank (rootId e') < rank (rootId e)

/-- What the client has made of a batch: an entry whose parent is known hangs below it, added once
and not freed; any other is freed; and dominant entries have been added before the others. -/
structure Hangs (r : Repository (BatchNode N)) (added : List AddedNode) (s : BatchState N) :
    Prop where
  child : ∀ e ∈ added, ∀ node, w.Stands r added e.parentId node →
    s.tree.parent (lodeOf e) = some node ∧
      s.addedChildren.filter (fun c => c.1 = lodeOf e) = [(lodeOf e, node)] ∧
        lodeOf e ∉ s.queuedForDeletion
  freed : ∀ e ∈ added, (∀ node, ¬ w.Stands r added e.parentId node) →
    s.tree.parent (lodeOf e) = none ∧ (∀ c ∈ s.addedChildren, c.1 ≠ lodeOf e) ∧
      lodeOf e ∈ s.queuedForDeletion
  dominant_first : ∃ first later, s.addedChildren = first ++ later ∧
    (∀ c ∈ first, ∃ e ∈ added, e.dominant = true ∧ c.1 = lodeOf e) ∧
      ∀ c ∈ later, ∃ e ∈ added, e.dominant = false ∧ c.1 = lodeOf e

/-- The batch is added as it should be, and in any other order to the same tree. -/
def Reconstructs (r : Repository (BatchNode N)) (F : Forest N) (added : List AddedNode) : Prop :=
  ∃ s, w.updateVisibility added (start r F) = some s ∧ w.Hangs r added s ∧
    ∀ added', added'.Perm added → ∃ s', w.updateVisibility added' (start r F) = some s' ∧
      ∀ node, s'.tree.parent node = s.tree.parent node

variable {w} {r : Repository (BatchNode N)} {F : Forest N}

/-- The ids that the loop over a scene's nodes reads, with the paths of the nodes. -/
def slotIds (has : ScenePath → Bool) (nodeIds : List Int) :
    Nat → List (Nat × ScenePath) → List (Int × ScenePath)
  | _, [] => []
  | idx, (nodeIdx, path) :: slots =>
    if nodeIdx ≥ nodeIds.length ∨ has path = false then slotIds has nodeIds (idx + 1) slots
    else (nodeIds.getD idx 0, path) :: slotIds has nodeIds (idx + 1) slots

theorem registerSlots_eq {rootId : Int} {has : ScenePath → Bool} {nodeIds : List Int}
    (slots : List (Nat × ScenePath)) (idx : Nat) (b : SceneBuild N)
    (h : ∀ i nodeIdx path, slots[i]? = some (nodeIdx, path) → nodeIdx < nodeIds.length →
      has path = true → idx + i < nodeIds.length) :
    w.registerSlots rootId has nodeIds idx slots b = some ((slotIds has nodeIds idx slots).foldl
      (fun b slot => w.addSlot slot.1 slot.2 (.created rootId slot.2) b) b) := by
  induction slots generalizing idx b with
  | nil => rfl
  | cons slot slots ih =>
    obtain ⟨nodeIdx, path⟩ := slot
    have hrest (i nodeIdx : Nat) (path : ScenePath) (hi : slots[i]? = some (nodeIdx, path))
        (hlt : nodeIdx < nodeIds.length) (hhas : has path = true) :
        idx + 1 + i < nodeIds.length := by
      have := h (i + 1) nodeIdx path hi hlt hhas
      omega
    rw [registerSlots, slotIds]
    by_cases hbig : nodeIdx ≥ nodeIds.length
    · rw [if_pos hbig, if_pos (.inl hbig), ih (idx + 1) b hrest]
    by_cases hhas : has path = false
    · rw [if_neg hbig, if_pos hhas, if_pos (.inr hhas), ih (idx + 1) b hrest]
    have hidx : idx < nodeIds.length :=
      h 0 nodeIdx path rfl (Nat.lt_of_not_le hbig) (Bool.eq_true_of_not_eq_false hhas)
    rw [if_neg hbig, if_neg hhas, if_neg (not_or.2 ⟨hbig, hhas⟩), List.getElem?_eq_getElem hidx]
    simp only [List.foldl_cons, List.getD_eq_getElem?_getD, List.getElem?_eq_getElem hidx,
      Option.getD_some]
    exact ih (idx + 1) _ hrest

theorem registerSlots_none {rootId : Int} {has : ScenePath → Bool} {nodeIds : List Int}
    (slots : List (Nat × ScenePath)) (idx : Nat) (b : SceneBuild N)
    (h : ∃ i nodeIdx path, slots[i]? = some (nodeIdx, path) ∧ nodeIdx < nodeIds.length ∧
      has path = true ∧ nodeIds.length ≤ idx + i) :
    w.registerSlots rootId has nodeIds idx slots b = none := by
  induction slots generalizing idx b with
  | nil =>
    obtain ⟨i, nodeIdx, path, hi, _⟩ := h
    cases hi
  | cons slot slots ih =>
    obtain ⟨nodeIdx, path⟩ := slot
    obtain ⟨i, badIdx, badPath, hi, hlt, hhas, hout⟩ := h
    cases i with
    | zero =>
      cases hi
      have hnone : nodeIds[idx]? = none := List.getElem?_eq_none hout
      rw [registerSlots, if_neg (Nat.not_le.2 hlt), hhas, if_neg Bool.false_ne_true.symm, hnone]
    | succ i =>
      have hrest : ∃ i nodeIdx path, slots[i]? = some (nodeIdx, path) ∧
          nodeIdx < nodeIds.length ∧ has path = true ∧ nodeIds.length ≤ idx + 1 + i :=
        ⟨i, badIdx, badPath, hi, hlt, hhas, by omega⟩
      rw [registerSlots]
      split
      · exact ih (idx + 1) b hrest
      split
      · exact ih (idx + 1) b hrest
      split
      · rfl
      · exact ih (idx + 1) _ hrest

theorem mem_slotIds {has : ScenePath → Bool} {nodeIds : List Int} {nodeId : Int}
    {path : ScenePath} (slots : List (Nat × ScenePath)) (idx : Nat)
    (h : ∀ i nodeIdx path, slots[i]? = some (nodeIdx, path) → nodeIdx < nodeIds.length →
      has path = true → idx + i < nodeIds.length) :
    (nodeId, path) ∈ slotIds has nodeIds idx slots ↔ ∃ i nodeIdx,
      slots[i]? = some (nodeIdx, path) ∧ nodeIdx < nodeIds.length ∧ has path = true ∧
        nodeIds[idx + i]? = some nodeId := by
  induction slots generalizing idx with
  | nil => simp [slotIds]
  | cons slot slots ih =>
    obtain ⟨firstIdx, firstPath⟩ := slot
    have hrest (i nodeIdx : Nat) (path : ScenePath) (hi : slots[i]? = some (nodeIdx, path))
        (hlt : nodeIdx < nodeIds.length) (hhas : has path = true) :
        idx + 1 + i < nodeIds.length := by
      have hlater := h (i + 1) nodeIdx path hi hlt hhas
      omega
    have hih := ih (idx + 1) hrest
    simp only [Nat.add_assoc, Nat.add_comm 1] at hih
    rw [← Nat.or_exists_add_one, slotIds]
    simp only [List.getElem?_cons_zero, List.getElem?_cons_succ, Nat.add_zero, ← hih,
      Option.some.injEq, Prod.mk.injEq]
    by_cases hskip : firstIdx ≥ nodeIds.length ∨ has firstPath = false
    · rw [if_pos hskip]
      refine (or_iff_right ?_).symm
      rintro ⟨_, ⟨rfl, rfl⟩, hlt, hhas, _⟩
      rcases hskip with hbig | hno
      · omega
      · rw [hhas] at hno
        cases hno
    · rw [if_neg hskip, List.mem_cons, Prod.mk.injEq]
      rw [not_or, Bool.not_eq_false] at hskip
      have hidx : idx < nodeIds.length := h 0 firstIdx firstPath rfl (by omega) hskip.2
      rw [List.getD_eq_getElem?_getD, List.getElem?_eq_getElem hidx, Option.getD_some]
      apply or_congr_left
      constructor
      · rintro ⟨hid, rfl⟩
        exact ⟨firstIdx, ⟨rfl, rfl⟩, by omega, hskip.2, congrArg some hid.symm⟩
      · rintro ⟨_, ⟨_, rfl⟩, _, _, hid⟩
        exact ⟨(Option.some.inj hid).symm, rfl⟩

/-- The node that an id stands for in a repository. -/
def lookup (w : BatchWorld N) (r : Repository (BatchNode N)) (nodeId : Int) :
    Option (BatchNode N) :=
  (r.getObject w.isValid nodeId).1

theorem lookup_addObject (r : Repository (BatchNode N)) {nodeId : Int} (hid : nodeId ≠ -1)
    (root : Int) (path : ScenePath) (i : Int) :
    w.lookup (r.addObject (.created root path) nodeId).2 i =
      if i = nodeId then some (.created root path) else w.lookup r i := by
  simp only [lookup, Repository.getObject_fst, Repository.addObject, if_neg hid, Dict.get?_set]
  split
  · rfl
  · rfl

theorem lookup_addSlot (b : SceneBuild N) {nodeId : Int} (hid : 0 ≤ nodeId) (root : Int)
    (path : ScenePath) (i : Int) :
    w.lookup (w.addSlot nodeId path (.created root path) b).repository i =
      if nodeId ≠ 0 ∧ i = nodeId then some (.created root path) else w.lookup b.repository i := by
  rw [addSlot]
  by_cases hzero : nodeId ≠ 0
  · rw [if_pos hzero]
    simp only [hzero, ne_eq, not_false_eq_true, true_and]
    have hsame (i : Int) := b.repository.getObject_getObject w.isValid nodeId i
    by_cases hthere : (b.repository.getObject w.isValid nodeId).1 = some (.created root path)
    · simp only [hthere, not_true_eq_false, ↓reduceIte]
      change (Repository.getObject _ _ i).1 = _
      rw [hsame i]
      split
      · next he => rw [he, hthere]
      · rfl
    · simp only [hthere, not_false_eq_true, ↓reduceIte]
      rw [lookup_addObject _ (by omega)]
      split
      · rfl
      · exact hsame i
  · rw [if_neg hzero, if_neg (fun h => hzero h.1)]

theorem lookup_foldl_addSlot {slots : List (Int × ScenePath)} {b : SceneBuild N} {root : Int}
    (hnonneg : ∀ nodeId path, (nodeId, path) ∈ slots → 0 ≤ nodeId)
    (hone : ∀ nodeId path path', (nodeId, path) ∈ slots → (nodeId, path') ∈ slots →
      nodeId ≠ 0 → path = path')
    (hold : ∀ nodeId path node, (nodeId, path) ∈ slots → nodeId ≠ 0 →
      w.lookup b.repository nodeId = some node → node = .created root path)
    (i : Int) (node : BatchNode N) :
    w.lookup (slots.foldl (fun b slot => w.addSlot slot.1 slot.2 (.created root slot.2) b)
        b).repository i = some node ↔
      (∃ path, (i, path) ∈ slots ∧ i ≠ 0 ∧ node = .created root path) ∨
        w.lookup b.repository i = some node := by
  induction slots generalizing b with
  | nil => simp
  | cons slot slots ih =>
    obtain ⟨first, path⟩ := slot
    have hfirst := hnonneg first path List.mem_cons_self
    rw [List.foldl_cons, ih (fun nodeId p hm => hnonneg nodeId p (List.mem_cons_of_mem _ hm))
      (fun nodeId p p' hm hm' => hone nodeId p p' (List.mem_cons_of_mem _ hm)
        (List.mem_cons_of_mem _ hm')) ?_, lookup_addSlot b hfirst]
    · by_cases hi : first ≠ 0 ∧ i = first
      · rw [if_pos hi, Option.some.injEq]
        constructor
        · rintro (⟨p, hm, hne, hnode⟩ | hnode)
          · exact .inl ⟨p, List.mem_cons_of_mem _ hm, hne, hnode⟩
          · exact .inl ⟨path, by rw [hi.2]; exact List.mem_cons_self, hi.2 ▸ hi.1, hnode.symm⟩
        · rintro (⟨p, hm, hne, hnode⟩ | hnode)
          · rw [hi.2] at hm
            have hpath := hone first path p List.mem_cons_self hm hi.1
            rw [hnode, hpath]
            exact .inr rfl
          · rw [hi.2] at hnode
            exact .inr (hold first path node List.mem_cons_self hi.1 hnode).symm
      · rw [if_neg hi]
        apply or_congr_left
        constructor
        · rintro ⟨p, hm, hne, hnode⟩
          exact ⟨p, List.mem_cons_of_mem _ hm, hne, hnode⟩
        · rintro ⟨p, hm, hne, hnode⟩
          rcases List.mem_cons.1 hm with he | hm
          · rw [Prod.mk.injEq] at he
            exact absurd ⟨he.1 ▸ hne, he.1⟩ hi
          · exact ⟨p, hm, hne, hnode⟩
    · intro nodeId p m hm hne hnode
      rw [lookup_addSlot b hfirst] at hnode
      split at hnode
      · next he =>
        rw [he.2] at hm
        rw [← hone first path p List.mem_cons_self (List.mem_cons_of_mem _ hm) he.1]
        exact (Option.some.inj hnode).symm
      · exact hold nodeId p m (List.mem_cons_of_mem _ hm) hne hnode

/-- Where the dictionaries of a scene's nodes come from. -/
structure SceneDicts (root : Int) (slots : List (Int × ScenePath)) (b : SceneBuild N) : Prop where
  existing : ∀ path, path ∈ b.existing ↔ ∃ nodeId, nodeId ≠ 0 ∧ (nodeId, path) ∈ slots
  dead : ∀ path, path ∈ b.dead ↔ (0, path) ∈ slots
  dead_node : ∀ path node, b.dead.get? path = some node → node = .created root path

theorem SceneDicts.addSlot {root : Int} {slots : List (Int × ScenePath)} {b : SceneBuild N}
    (h : SceneDicts root slots b) (nodeId : Int) (path : ScenePath) :
    SceneDicts root (slots ++ [(nodeId, path)]) (w.addSlot nodeId path (.created root path) b) := by
  rw [BatchWorld.addSlot]
  by_cases hzero : nodeId ≠ 0
  · rw [if_pos hzero]
    refine ⟨fun p => ?_, fun p => ?_, h.dead_node⟩
    · simp only [Dict.mem_set, h.existing p, List.mem_append, List.mem_singleton, Prod.mk.injEq]
      constructor
      · rintro (rfl | ⟨i, hi, hm⟩)
        · exact ⟨nodeId, hzero, .inr ⟨rfl, rfl⟩⟩
        · exact ⟨i, hi, .inl hm⟩
      · rintro ⟨i, hi, hm | ⟨_, hp⟩⟩
        · exact .inr ⟨i, hi, hm⟩
        · exact .inl hp
    · simp only [h.dead p, List.mem_append, List.mem_singleton, Prod.mk.injEq]
      exact ⟨.inl, fun hm => hm.elim id (fun he => absurd he.1.symm hzero)⟩
  · rw [if_neg hzero]
    rw [ne_eq, not_not] at hzero
    refine ⟨fun p => ?_, fun p => ?_, fun p node hget => ?_⟩
    · simp only [h.existing p, List.mem_append, List.mem_singleton, Prod.mk.injEq]
      constructor
      · rintro ⟨i, hi, hm⟩
        exact ⟨i, hi, .inl hm⟩
      · rintro ⟨i, hi, hm | ⟨he, _⟩⟩
        · exact ⟨i, hi, hm⟩
        · exact absurd (he.trans hzero) hi
    · simp only [Dict.mem_set, h.dead p, List.mem_append, List.mem_singleton, Prod.mk.injEq, hzero,
        true_and]
      exact or_comm
    · rw [Dict.get?_set] at hget
      split at hget
      · next he =>
        rw [he]
        exact (Option.some.inj hget).symm
      · exact h.dead_node p node hget

theorem sceneDicts_foldl {root : Int} {done : List (Int × ScenePath)} {b : SceneBuild N}
    (h : SceneDicts root done b) (slots : List (Int × ScenePath)) :
    SceneDicts root (done ++ slots)
      (slots.foldl (fun b slot => w.addSlot slot.1 slot.2 (.created root slot.2) b) b) := by
  induction slots generalizing done b with
  | nil =>
    rw [List.append_nil]
    exact h
  | cons slot slots ih =>
    have hrest := ih (h.addSlot (w := w) slot.1 slot.2)
    rw [List.append_assoc] at hrest
    exact hrest

/-- What becomes of the tree when nodes are taken out. -/
structure Cut (P : BatchNode N → Prop) (s s' : BatchState N) : Prop where
  rest : s' = { s with tree := s'.tree, queuedForDeletion := s'.queuedForDeletion }
  gone : ∀ node, P node → s'.tree.parent node = none
  same : ∀ node, ¬ P node → s'.tree.parent node = s.tree.parent node
  descends : ∀ level, s.tree.Descends level → s'.tree.Descends level
  queued : ∀ node ∈ s'.queuedForDeletion, node ∈ s.queuedForDeletion ∨ P node

/-- One node is taken out before the others. -/
theorem Cut.detached {P : BatchNode N → Prop} {s s' : BatchState N} {subnode : BatchNode N}
    (h : Cut P { s with
      tree := s.tree.detach subnode
      queuedForDeletion := s.queuedForDeletion ++ [subnode] } s') :
    Cut (fun node => node = subnode ∨ P node) s s' where
  rest := h.rest
  gone node hnode := by
    by_cases hlater : P node
    · exact h.gone node hlater
    · rw [h.same node hlater, hnode.resolve_right hlater]
      exact Forest.parent_detach_self
  same node hnode := by
    rw [not_or] at hnode
    rw [h.same node hnode.2]
    exact Forest.parent_detach_of_ne hnode.1
  descends level hlevel := h.descends level (hlevel.detach subnode)
  queued node hnode := by
    rcases h.queued node hnode with hq | hlater
    · rcases List.mem_append.1 hq with hq | he
      · exact .inl hq
      · exact .inr (.inl (List.mem_singleton.1 he))
    · exact .inr (.inr hlater)

omit [DecidableEq N] in
theorem exists_dead_cons {existing : Dict ScenePath (BatchNode N)} {path : ScenePath}
    {subnode node : BatchNode N} {dead : List (ScenePath × BatchNode N)} :
    (∃ p, (p, node) ∈ (path, subnode) :: dead ∧ p ∉ existing) ↔
      (node = subnode ∧ path ∉ existing) ∨ ∃ p, (p, node) ∈ dead ∧ p ∉ existing := by
  simp only [List.mem_cons, Prod.mk.injEq, or_and_right, exists_or, and_assoc, exists_eq_left]

theorem cut_removeDead (existing : Dict ScenePath (BatchNode N))
    (dead : List (ScenePath × BatchNode N)) (s : BatchState N) :
    Cut (fun node => ∃ path, (path, node) ∈ dead ∧ path ∉ existing) s
      (removeDead existing dead s) := by
  induction dead generalizing s with
  | nil =>
    refine ⟨rfl, ?_, fun _ _ => rfl, fun _ h => h, fun _ h => .inl h⟩
    rintro node ⟨path, hm, _⟩
    cases hm
  | cons entry dead ih =>
    obtain ⟨path, subnode⟩ := entry
    simp only [exists_dead_cons]
    rw [removeDead]
    by_cases hthere : path ∈ existing
    · simp only [hthere, not_true_eq_false, and_false, false_or, ↓reduceIte]
      exact ih s
    · simp only [hthere, not_false_eq_true, and_true, ↓reduceIte]
      exact (ih _).detached

/-- What an entry needs to be built without a conflict. -/
structure Buildable (w : BatchWorld N) (r : Repository (BatchNode N)) (e : AddedNode) : Prop where
  loads : w.load e.uid = some .script ∨ ∃ scene, w.load e.uid = some (.scene scene)
  ids : e.nodeIds ≠ []
  nonneg : ∀ nodeId ∈ e.nodeIds, 0 ≤ nodeId
  root : rootId e ≠ 0
  properties : w.load e.uid = some .script →
    e.propertyKeys = [] ∨ hasPropertiesOf (rootId e) e.propertyKeys = true
  one_node : ∀ nodeId node node', w.Registers e nodeId node → w.Registers e nodeId node' →
    node = node'
  old : ∀ nodeId node node', w.Registers e nodeId node → w.lookup r nodeId = some node' →
    node' = node

/-- What an entry changes. -/
structure Builds (w : BatchWorld N) (e : AddedNode) (s s' : BatchState N) : Prop where
  lookup : ∀ i node, w.lookup s'.repository i = some node ↔
    w.Registers e i node ∨ w.lookup s.repository i = some node
  dead : ∀ node, w.Dead e node → s'.tree.parent node = none
  same : ∀ node, ¬ w.Dead e node → s'.tree.parent node = s.tree.parent node
  descends : ∀ level, s.tree.Descends level → s'.tree.Descends level
  queued : ∀ node ∈ s'.queuedForDeletion, node ∈ s.queuedForDeletion ∨ w.Dead e node
  metaOwner : s'.metaOwner = s.metaOwner.set (lodeOf e) e.owner
  resource : s'.resource = s.resource.set (lodeOf e) e.uid
  idsToLodes : s'.idsToLodes = s.idsToLodes.set (rootId e) (lodeOf e)
  lodeIdToParentIds : s'.lodeIdToParentIds = s.lodeIdToParentIds.set (rootId e) e.parentId
  dominantLodeIds : s'.dominantLodeIds =
    if e.dominant then s.dominantLodeIds ++ [rootId e] else s.dominantLodeIds
  addedChildren : s'.addedChildren = s.addedChildren

omit [DecidableEq N] in
theorem registers_script {e : AddedNode} (hload : w.load e.uid = some .script) {i : Int}
    {node : BatchNode N} : w.Registers e i node ↔ i = rootId e ∧ i ≠ 0 ∧ node = lodeOf e := by
  rw [Registers]
  simp only [Reads, hload]
  constructor
  · rintro ⟨path, ⟨hi, hpath⟩, hne, hnode⟩
    rw [hpath] at hnode
    exact ⟨hi, hne, hnode⟩
  · rintro ⟨hi, hne, hnode⟩
    exact ⟨[], ⟨hi, rfl⟩, hne, hnode⟩

theorem buildEntry_script {e : AddedNode} {s : BatchState N} (h : w.Buildable s.repository e)
    (hload : w.load e.uid = some .script) :
    ∃ s', w.buildEntry e s = some s' ∧ w.Builds e s s' := by
  obtain ⟨nodeId, nodeIds, hids⟩ := List.exists_cons_of_ne_nil h.ids
  have hroot : rootId e = nodeId := by rw [rootId, hids]; rfl
  have hnonneg := h.nonneg nodeId (hids ▸ List.mem_cons_self)
  have hprops : ¬ (e.propertyKeys ≠ [] ∧ hasPropertiesOf nodeId e.propertyKeys = false) := by
    rintro ⟨hne, hnone⟩
    rcases h.properties hload with hnil | hsome
    · exact hne hnil
    · rw [hroot, hnone] at hsome
      cases hsome
  have hbuild : w.buildEntry e s = some (addLode nodeId e { s with
      repository := (s.repository.addObject (.created nodeId []) nodeId).2 }) := by
    rw [buildEntry, hload, hids]
    exact if_neg hprops
  have hreads (i : Int) (path : ScenePath) : w.Reads e i path ↔ i = nodeId ∧ path = [] := by
    rw [Reads, hload, hroot]
  have hdead (node : BatchNode N) : ¬ w.Dead e node := by
    rintro ⟨path, _, hzero, _⟩
    exact h.root (hroot.trans ((hreads 0 path).1 hzero).1.symm)
  have hregisters (i : Int) (node : BatchNode N) :
      w.Registers e i node ↔ i = nodeId ∧ node = .created nodeId [] := by
    rw [registers_script hload, hroot, lodeOf, hroot]
    exact ⟨fun hreg => ⟨hreg.1, hreg.2.2⟩,
      fun hreg => ⟨hreg.1, hreg.1 ▸ hroot ▸ h.root, hreg.2⟩⟩
  refine ⟨_, hbuild, fun i node => ?_, fun node hnode => absurd hnode (hdead node),
    fun _ _ => rfl, fun _ hlevel => hlevel, fun _ hq => .inl hq, ?_, ?_, ?_, ?_, ?_, rfl⟩
  · rw [hregisters]
    change w.lookup (s.repository.addObject (.created nodeId []) nodeId).2 i = some node ↔ _
    rw [lookup_addObject _ (by omega)]
    by_cases hi : i = nodeId
    · rw [if_pos hi, Option.some.injEq]
      constructor
      · exact fun hnode => .inl ⟨hi, hnode.symm⟩
      · rintro (⟨_, hnode⟩ | hnode)
        · exact hnode.symm
        · rw [hi] at hnode
          exact (h.old nodeId _ node ((hregisters nodeId _).2 ⟨rfl, rfl⟩) hnode).symm
    · rw [if_neg hi]
      exact (or_iff_right (fun hnode => hi hnode.1)).symm
  · rw [lodeOf, hroot]
    rfl
  · rw [lodeOf, hroot]
    rfl
  · rw [lodeOf, hroot]
    rfl
  · rw [hroot]
    rfl
  · rw [hroot]
    rfl

omit [DecidableEq N] in
theorem reads_iff {e : AddedNode} {scene : PackedScene}
    (hload : w.load e.uid = some (.scene scene))
    (hbound : ∀ i nodeIdx path, scene.slots[i]? = some (nodeIdx, path) →
      nodeIdx < e.nodeIds.length → scene.has path = true → 0 + i < e.nodeIds.length)
    (i : Int) (path : ScenePath) :
    w.Reads e i path ↔ (i, path) ∈ slotIds scene.has e.nodeIds 0 scene.slots := by
  rw [Reads, hload, mem_slotIds scene.slots 0 hbound]
  simp only [Nat.zero_add]

omit [DecidableEq N] in
theorem SceneDicts.dead_iff {e : AddedNode} {slots : List (Int × ScenePath)} {b : SceneBuild N}
    (h : SceneDicts (rootId e) slots b) (hreads : ∀ i path, w.Reads e i path ↔ (i, path) ∈ slots)
    (node : BatchNode N) :
    (∃ path, (path, node) ∈ b.dead.entries ∧ path ∉ b.existing) ↔ w.Dead e node := by
  constructor
  · rintro ⟨path, hm, hnot⟩
    rw [Dict.mem_entries_iff] at hm
    refine ⟨path, h.dead_node path node hm, ?_, fun i hread => ?_⟩
    · rw [hreads, ← h.dead, Dict.mem_iff_get?]
      exact ⟨node, hm⟩
    · by_contra hne
      exact hnot ((h.existing path).2 ⟨i, hne, (hreads i path).1 hread⟩)
  · rintro ⟨path, hnode, hzero, honly⟩
    obtain ⟨other, hget⟩ := (Dict.mem_iff_get? _).1 ((h.dead path).2 ((hreads 0 path).1 hzero))
    have hother := h.dead_node path other hget
    rw [← hnode] at hother
    refine ⟨path, (Dict.mem_entries_iff _).2 (hother ▸ hget), fun hm => ?_⟩
    obtain ⟨i, hne, hi⟩ := (h.existing path).1 hm
    exact hne (honly i ((hreads i path).2 hi))

theorem Buildable.lookup {e : AddedNode} {slots : List (Int × ScenePath)} {b : SceneBuild N}
    (h : w.Buildable b.repository e) (hreads : ∀ i path, w.Reads e i path ↔ (i, path) ∈ slots)
    (hids : ∀ i path, (i, path) ∈ slots → i ∈ e.nodeIds) (i : Int) (node : BatchNode N) :
    w.lookup (slots.foldl (fun b slot => w.addSlot slot.1 slot.2 (.created (rootId e) slot.2) b)
        b).repository i = some node ↔
      w.Registers e i node ∨ w.lookup b.repository i = some node := by
  have hregisters (i : Int) (node : BatchNode N) : w.Registers e i node ↔
      ∃ path, (i, path) ∈ slots ∧ i ≠ 0 ∧ node = .created (rootId e) path := by
    simp only [Registers, hreads]
  rw [lookup_foldl_addSlot, hregisters]
  · exact fun i path hm => h.nonneg i (hids i path hm)
  · intro i path path' hm hm' hi
    have hsame := h.one_node i _ _ ((hregisters i _).2 ⟨path, hm, hi, rfl⟩)
      ((hregisters i _).2 ⟨path', hm', hi, rfl⟩)
    cases hsame
    rfl
  · intro i path other hm hi hold
    exact h.old i _ other ((hregisters i _).2 ⟨path, hm, hi, rfl⟩) hold

theorem buildEntry_scene {e : AddedNode} {s : BatchState N} {scene : PackedScene}
    (h : w.Buildable s.repository e) (hload : w.load e.uid = some (.scene scene))
    (hin : w.InBounds e) : ∃ s', w.buildEntry e s = some s' ∧ w.Builds e s s' := by
  have hbound (i nodeIdx : Nat) (path : ScenePath) (hi : scene.slots[i]? = some (nodeIdx, path))
      (hlt : nodeIdx < e.nodeIds.length) (hhas : scene.has path = true) :
      0 + i < e.nodeIds.length := by
    rw [Nat.zero_add]
    exact hin scene hload i nodeIdx path hi hlt hhas
  have hreads := reads_iff hload hbound
  obtain ⟨slots, hslots⟩ : ∃ slots, slots = slotIds scene.has e.nodeIds 0 scene.slots := ⟨_, rfl⟩
  have hids (i : Int) (path : ScenePath) (hm : (i, path) ∈ slots) : i ∈ e.nodeIds := by
    obtain ⟨idx, _, _, _, _, hi⟩ := (mem_slotIds scene.slots 0 hbound).1 (hslots ▸ hm)
    exact List.mem_of_getElem? hi
  rw [← hslots] at hreads
  obtain ⟨b, hb⟩ : ∃ b, b = slots.foldl
      (fun b slot => w.addSlot slot.1 slot.2 (.created (rootId e) slot.2) b)
      (⟨s.repository, .empty, .empty⟩ : SceneBuild N) := ⟨_, rfl⟩
  have hdicts : SceneDicts (rootId e) slots b := by
    rw [hb]
    have hempty : SceneDicts (rootId e) [] (⟨s.repository, .empty, .empty⟩ : SceneBuild N) :=
      ⟨fun path => by simp, fun path => by simp, fun path node hget => by cases hget⟩
    exact sceneDicts_foldl hempty slots
  obtain ⟨t, ht⟩ : ∃ t, t =
      removeDead b.existing b.dead.entries { s with repository := b.repository } := ⟨_, rfl⟩
  have hcut := cut_removeDead b.existing b.dead.entries { s with repository := b.repository }
  simp only [hdicts.dead_iff hreads] at hcut
  rw [← ht] at hcut
  have hrepository : t.repository = b.repository := by rw [hcut.rest]
  have hlookup (i : Int) (node : BatchNode N) : w.lookup t.repository i = some node ↔
      w.Registers e i node ∨ w.lookup s.repository i = some node := by
    rw [hrepository, hb]
    exact h.lookup (b := ⟨s.repository, .empty, .empty⟩) hreads hids i node
  have hbuild : w.buildEntry e s = some (addLode (rootId e) e t) := by
    obtain ⟨nodeId, nodeIds, hcons⟩ := List.exists_cons_of_ne_nil h.ids
    have hroot : rootId e = nodeId := by rw [rootId, hcons]; rfl
    rw [buildEntry, hload]
    simp only [hcons]
    rw [← hcons, ← hroot, registerSlots_eq scene.slots 0 _ hbound, ← hslots, ← hb,
      Option.map_some, ← ht]
  refine ⟨_, hbuild, hlookup, hcut.gone, hcut.same, hcut.descends, hcut.queued, ?_, ?_, ?_, ?_, ?_,
    ?_⟩
  · rw [lodeOf, addLode, hcut.rest]
  · rw [lodeOf, addLode, hcut.rest]
  · rw [lodeOf, addLode, hcut.rest]
  · rw [addLode, hcut.rest]
  · rw [addLode, hcut.rest]
  · rw [addLode, hcut.rest]

/-- Where ids are read that there are not, the batch is not added at all. -/
theorem buildEntries_none {e : AddedNode} {added : List AddedNode} (he : e ∈ added)
    (hin : ¬ w.InBounds e) (s : BatchState N) : w.buildEntries added s = none := by
  have hentry (s : BatchState N) : w.buildEntry e s = none := by
    simp only [InBounds, not_forall, Nat.not_lt] at hin
    obtain ⟨scene, hload, idx, nodeIdx, path, hslot, hlt, hhas, hout⟩ := hin
    rw [← Nat.zero_add idx] at hout
    rw [buildEntry, hload]
    cases hids : e.nodeIds with
    | nil => rfl
    | cons nodeId nodeIds =>
      rw [hids] at hlt hout
      simp only [registerSlots_none scene.slots 0 _ ⟨idx, nodeIdx, path, hslot, hlt, hhas, hout⟩,
        Option.map_none]
  induction added generalizing s with
  | nil => cases he
  | cons first added ih =>
    rw [buildEntries]
    rcases List.mem_cons.1 he with rfl | he
    · rw [hentry s, Option.bind_none]
    · cases w.buildEntry first s with
      | none => rfl
      | some s' => exact ih he s'

/-- What holds while a batch is built, once some of its entries have been. -/
structure Built (w : BatchWorld N) (r : Repository (BatchNode N)) (F : Forest N)
    (done : List AddedNode) (s : BatchState N) : Prop where
  lookup : ∀ i node, w.lookup s.repository i = some node ↔ w.Stands r done i node
  dead : ∀ node, (∃ e ∈ done, w.Dead e node) → s.tree.parent node = none
  same : ∀ node, (¬ ∃ e ∈ done, w.Dead e node) → s.tree.parent node = bornParent F node
  descends : ∀ level, (bornTree F).Descends level → s.tree.Descends level
  queued : ∀ node ∈ s.queuedForDeletion, ∃ e ∈ done, w.Dead e node
  metaOwner : ∀ e ∈ done, s.metaOwner.get? (lodeOf e) = some e.owner
  resource : ∀ e ∈ done, s.resource.get? (lodeOf e) = some e.uid
  lodes : ∀ e ∈ done, s.idsToLodes.get? (rootId e) = some (lodeOf e)
  keys : s.idsToLodes.keys = done.map rootId
  parents : ∀ e ∈ done, s.lodeIdToParentIds.get? (rootId e) = some e.parentId
  dominant : s.dominantLodeIds = (done.filter fun e => e.dominant).map rootId
  addedChildren : s.addedChildren = []

theorem built_start (w : BatchWorld N) (r : Repository (BatchNode N)) (F : Forest N) :
    w.Built r F [] (start r F) := by
  refine ⟨fun i node => ?_, ?_, fun _ _ => rfl, fun _ h => h, ?_, ?_, ?_, ?_, rfl, ?_, rfl, rfl⟩
  · refine (or_iff_right ?_).symm
    rintro ⟨e, he, _⟩
    cases he
  · rintro node ⟨e, he, _⟩
    cases he
  · intro node hnode
    cases hnode
  · intro e he
    cases he
  · intro e he
    cases he
  · intro e he
    cases he
  · intro e he
    cases he

omit [DecidableEq N] in
theorem stands_append {done : List AddedNode} {e : AddedNode} {i : Int} {node : BatchNode N} :
    w.Stands r (done ++ [e]) i node ↔ w.Registers e i node ∨ w.Stands r done i node := by
  constructor
  · rintro (⟨e', he, hreg⟩ | hold)
    · rcases List.mem_append.1 he with he | he
      · exact .inr (.inl ⟨e', he, hreg⟩)
      · rw [List.mem_singleton.1 he] at hreg
        exact .inl hreg
    · exact .inr (.inr hold)
  · rintro (hreg | ⟨e', he, hreg⟩ | hold)
    · exact .inl ⟨e, List.mem_append_right _ (List.mem_singleton_self e), hreg⟩
    · exact .inl ⟨e', List.mem_append_left _ he, hreg⟩
    · exact .inr hold

omit [DecidableEq N] in
theorem exists_dead_append {done : List AddedNode} {e : AddedNode} {node : BatchNode N} :
    (∃ e' ∈ done ++ [e], w.Dead e' node) ↔ w.Dead e node ∨ ∃ e' ∈ done, w.Dead e' node := by
  simp only [List.mem_append, List.mem_singleton, or_and_right, exists_or, exists_eq_left]
  exact or_comm

theorem Built.buildable {done rest : List AddedNode} {e : AddedNode} {s : BatchState N}
    (h : w.Built r F done s) (hbatch : w.Batch r (done ++ e :: rest)) :
    w.Buildable s.repository e := by
  have he : e ∈ done ++ e :: rest := List.mem_append_right _ List.mem_cons_self
  refine ⟨hbatch.loads e he, (hbatch.ids e he).1, (hbatch.ids e he).2, hbatch.roots e he,
    hbatch.properties e he, hbatch.one_node e he e he, fun i node node' hreg hold => ?_⟩
  rcases (h.lookup i node').1 hold with ⟨e', he', hreg'⟩ | hold'
  · exact hbatch.one_node e' (List.mem_append_left _ he') e he i node' node hreg' hreg
  · rw [hbatch.new e he _ _ hreg] at hold'
    cases hold'

theorem stored_append {K V : Type} [DecidableEq K] {d : Dict K V} {key : AddedNode → K}
    {value : AddedNode → V} {done : List AddedNode} {e : AddedNode}
    (h : ∀ e' ∈ done, d.get? (key e') = some (value e')) (hne : ∀ e' ∈ done, key e' ≠ key e) :
    ∀ e' ∈ done ++ [e], (d.set (key e) (value e)).get? (key e') = some (value e') := by
  intro e' he'
  rcases List.mem_append.1 he' with he' | he'
  · rw [Dict.get?_set_ne _ (hne e' he')]
    exact h e' he'
  · rw [List.mem_singleton.1 he', Dict.get?_set_self]

omit [DecidableEq N] in
theorem lodeOf_ne {e e' : AddedNode} (hne : rootId e ≠ rootId e') :
    (lodeOf e : BatchNode N) ≠ lodeOf e' := fun he => hne (BatchNode.created.inj he).1

theorem Built.append {done : List AddedNode} {e : AddedNode} {s s' : BatchState N}
    (h : w.Built r F done s) (hb : w.Builds e s s') (hne : ∀ e' ∈ done, rootId e' ≠ rootId e) :
    w.Built r F (done ++ [e]) s' where
  lookup i node := by rw [hb.lookup, h.lookup, stands_append]
  dead node hdead := by
    by_cases hlast : w.Dead e node
    · exact hb.dead node hlast
    · rw [hb.same node hlast]
      exact h.dead node ((exists_dead_append.1 hdead).resolve_left hlast)
  same node hdead := by
    rw [exists_dead_append, not_or] at hdead
    rw [hb.same node hdead.1]
    exact h.same node hdead.2
  descends level hl := hb.descends level (h.descends level hl)
  queued node hnode := by
    rw [exists_dead_append]
    rcases hb.queued node hnode with hq | hdead
    · exact .inr (h.queued node hq)
    · exact .inl hdead
  metaOwner := by
    rw [hb.metaOwner]
    exact stored_append h.metaOwner fun e' he' => lodeOf_ne (hne e' he')
  resource := by
    rw [hb.resource]
    exact stored_append h.resource fun e' he' => lodeOf_ne (hne e' he')
  lodes := by
    rw [hb.idsToLodes]
    exact stored_append h.lodes hne
  keys := by
    have hkey : rootId e ∉ s.idsToLodes := by
      rw [← Dict.mem_keys, h.keys, List.mem_map]
      rintro ⟨e', he', heq⟩
      exact hne e' he' heq
    rw [Dict.keys, hb.idsToLodes, Dict.entries_set_of_not_mem _ hkey, List.map_append,
      List.map_append, ← h.keys]
    rfl
  parents := by
    rw [hb.lodeIdToParentIds]
    exact stored_append h.parents hne
  dominant := by
    rw [hb.dominantLodeIds, h.dominant, List.filter_append, List.map_append, List.filter_singleton]
    cases e.dominant with
    | true => rfl
    | false => exact (List.append_nil _).symm
  addedChildren := hb.addedChildren.trans h.addedChildren

theorem Built.step {done rest : List AddedNode} {e : AddedNode} {s : BatchState N}
    (h : w.Built r F done s) (hbatch : w.Batch r (done ++ e :: rest)) (hin : w.InBounds e) :
    ∃ s', w.buildEntry e s = some s' ∧ w.Built r F (done ++ [e]) s' := by
  have he : e ∈ done ++ e :: rest := List.mem_append_right _ List.mem_cons_self
  have hne (e' : AddedNode) (he' : e' ∈ done) : rootId e' ≠ rootId e := by
    have hdistinct := hbatch.distinct
    rw [List.map_append, List.map_cons, List.nodup_append] at hdistinct
    exact hdistinct.2.2 _ (List.mem_map_of_mem he') _ List.mem_cons_self
  have hbuildable := h.buildable hbatch
  rcases hbatch.loads e he with hload | ⟨scene, hload⟩
  · obtain ⟨s', hs', hb⟩ := buildEntry_script hbuildable hload
    exact ⟨s', hs', h.append hb hne⟩
  · obtain ⟨s', hs', hb⟩ := buildEntry_scene hbuildable hload hin
    exact ⟨s', hs', h.append hb hne⟩

theorem Built.entries {done added : List AddedNode} {s : BatchState N}
    (h : w.Built r F done s) (hbatch : w.Batch r (done ++ added))
    (hin : ∀ e ∈ added, w.InBounds e) :
    ∃ s', w.buildEntries added s = some s' ∧ w.Built r F (done ++ added) s' := by
  induction added generalizing done s with
  | nil =>
    rw [List.append_nil]
    exact ⟨s, rfl, h⟩
  | cons e added ih =>
    obtain ⟨s', hs', hbuilt⟩ := h.step hbatch (hin e List.mem_cons_self)
    have happend : done ++ e :: added = done ++ [e] ++ added := by
      rw [List.append_assoc]
      rfl
    rw [happend] at hbatch ⊢
    rw [buildEntries, hs', Option.bind_some]
    exact ih hbuilt hbatch (fun e' he' => hin e' (List.mem_cons_of_mem _ he'))

omit [DecidableEq N] in
theorem Batch.registers_root {added : List AddedNode} {e : AddedNode} (h : w.Batch r added)
    (he : e ∈ added) : w.Registers e (rootId e) (lodeOf e) := by
  refine ⟨[], ?_, h.roots e he, rfl⟩
  obtain ⟨nodeId, nodeIds, hids⟩ := List.exists_cons_of_ne_nil (h.ids e he).1
  rcases h.loads e he with hload | ⟨scene, hload⟩
  · rw [Reads, hload]
    exact ⟨rfl, rfl⟩
  · rw [Reads, hload]
    obtain ⟨paths, rest, hstates⟩ := scene.root_first
    refine ⟨0, 0, ?_, ?_, scene.has_root, ?_⟩
    · rw [PackedScene.slots, hstates]
      rfl
    · rw [hids]
      exact Nat.succ_pos _
    · rw [rootId, hids]
      rfl

omit [DecidableEq N] in
theorem Batch.eq_of_rootId {added : List AddedNode} {e e' : AddedNode} (h : w.Batch r added)
    (he : e ∈ added) (he' : e' ∈ added) (heq : rootId e = rootId e') : e = e' :=
  List.inj_on_of_nodup_map h.distinct he he' heq

omit [DecidableEq N] in
theorem Batch.not_dead {added : List AddedNode} {e' : AddedNode} (h : w.Batch r added)
    (he' : e' ∈ added) (e : AddedNode) : ¬ w.Dead e' (lodeOf e) := by
  rintro ⟨path, hnode, _, honly⟩
  obtain ⟨_, hpath⟩ := BatchNode.created.inj hnode
  obtain ⟨path', hread, hne, hnode'⟩ := h.registers_root he'
  obtain ⟨_, hpath'⟩ := BatchNode.created.inj hnode'
  rw [← hpath'] at hread
  rw [← hpath] at honly
  exact hne (honly _ hread)

/-- The parent that an id is looked up as, among the roots first. -/
def parentOf (w : BatchWorld N) (s : BatchState N) (parentId : Int) : Option (BatchNode N) :=
  match s.idsToLodes.get? parentId with
  | some parentLode => some parentLode
  | none => w.lookup s.repository parentId

theorem Built.parentOf_iff {added : List AddedNode} {s : BatchState N}
    (h : w.Built r F added s) (hbatch : w.Batch r added) (i : Int) (node : BatchNode N) :
    w.parentOf s i = some node ↔ w.Stands r added i node := by
  rw [parentOf]
  cases hget : s.idsToLodes.get? i with
  | none => exact h.lookup i node
  | some lode =>
    have hkey : i ∈ s.idsToLodes.keys := (Dict.mem_iff_get? _).2 ⟨lode, hget⟩
    rw [h.keys, List.mem_map] at hkey
    obtain ⟨e, he, rfl⟩ := hkey
    have hroot := hbatch.registers_root he
    rw [h.lodes e he, Option.some.injEq] at hget
    simp only [Option.some.injEq, ← hget]
    constructor
    · intro hnode
      exact .inl ⟨e, he, hnode ▸ hroot⟩
    · rintro (⟨e', he', hreg⟩ | hold)
      · exact hbatch.one_node e he e' he' _ _ _ hroot hreg
      · rw [hbatch.new e he _ _ hroot] at hold
        cases hold

theorem orderLode_eq {e : AddedNode} {s : BatchState N}
    (order : Dict (BatchNode N) (BatchNode N))
    (hlode : s.idsToLodes.get? (rootId e) = some (lodeOf e))
    (hparent : s.lodeIdToParentIds.get? (rootId e) = some e.parentId) :
    ∃ repository, (∀ i, w.lookup repository i = w.lookup s.repository i) ∧
      w.orderLode (order, s) (rootId e) =
        match w.parentOf s e.parentId with
        | some parent => (order.set (lodeOf e) parent, { s with repository := repository })
        | none => (order, { s with
          repository := repository
          queuedForDeletion := s.queuedForDeletion ++ [lodeOf e] }) := by
  simp only [orderLode, hlode, hparent, parentOf]
  cases hget : s.idsToLodes.get? e.parentId with
  | some parentLode => exact ⟨s.repository, fun _ => rfl, rfl⟩
  | none =>
    refine ⟨(s.repository.getObject w.isValid e.parentId).2, fun i => ?_, ?_⟩
    · exact s.repository.getObject_getObject w.isValid e.parentId i
    · simp only [tryGetParent, lookup]
      cases (s.repository.getObject w.isValid e.parentId).1 with
      | some parent => rfl
      | none => rfl

theorem foldl_orderLode {added : List AddedNode} {s : BatchState N}
    (order : Dict (BatchNode N) (BatchNode N))
    (hlodes : ∀ e ∈ added, s.idsToLodes.get? (rootId e) = some (lodeOf e))
    (hparents : ∀ e ∈ added, s.lodeIdToParentIds.get? (rootId e) = some e.parentId)
    (hdistinct : (added.map rootId).Nodup) (hnew : ∀ e ∈ added, lodeOf e ∉ order) :
    ∃ order' repository, (added.map rootId).foldl w.orderLode (order, s) =
        (order', { s with
          repository := repository
          queuedForDeletion := s.queuedForDeletion ++
            (added.filter fun e => (w.parentOf s e.parentId).isNone).map lodeOf }) ∧
      order'.entries = order.entries ++ added.filterMap fun e =>
        (w.parentOf s e.parentId).map fun parent => (lodeOf e, parent) := by
  induction added generalizing s order with
  | nil =>
    refine ⟨order, s.repository, ?_, (List.append_nil _).symm⟩
    simp only [List.filter_nil, List.map_nil, List.append_nil, List.foldl_nil]
  | cons e added ih =>
    obtain ⟨repository, hsame, hstep⟩ := orderLode_eq (w := w) order
      (hlodes e List.mem_cons_self) (hparents e List.mem_cons_self)
    rw [List.map_cons, List.nodup_cons] at hdistinct
    have hrest (e' : AddedNode) (he' : e' ∈ added) : e' ∈ e :: added :=
      List.mem_cons_of_mem _ he'
    have hlater (order₁ : Dict (BatchNode N) (BatchNode N)) (queued : List (BatchNode N))
        (hkey : ∀ e' ∈ added, lodeOf e' ∉ order₁) :
        ∃ order' repository', (added.map rootId).foldl w.orderLode (order₁, { s with
            repository := repository
            queuedForDeletion := queued }) = (order', { s with
              repository := repository'
              queuedForDeletion := queued ++
                (added.filter fun e => (w.parentOf s e.parentId).isNone).map lodeOf }) ∧
          order'.entries = order₁.entries ++ added.filterMap fun e =>
            (w.parentOf s e.parentId).map fun parent => (lodeOf e, parent) := by
      have hof (i : Int) : w.parentOf { s with
          repository := repository
          queuedForDeletion := queued } i = w.parentOf s i := by
        simp only [parentOf, hsame]
      obtain ⟨order', repository', hfold, hentries⟩ := ih order₁
        (s := { s with
          repository := repository
          queuedForDeletion := queued })
        (fun e' he' => hlodes e' (hrest e' he')) (fun e' he' => hparents e' (hrest e' he'))
        hdistinct.2 hkey
      simp only [hof] at hfold hentries
      exact ⟨order', repository', hfold, hentries⟩
    rw [List.map_cons, List.foldl_cons, hstep]
    cases hparent : w.parentOf s e.parentId with
    | some parent =>
      have hkey (e' : AddedNode) (he' : e' ∈ added) :
          lodeOf e' ∉ order.set (lodeOf e) parent := by
        rw [Dict.mem_set, not_or]
        refine ⟨fun heq => hdistinct.1 ?_, hnew e' (hrest e' he')⟩
        rw [← (BatchNode.created.inj heq).1]
        exact List.mem_map_of_mem he'
      obtain ⟨order', repository', hfold, hentries⟩ := hlater _ s.queuedForDeletion hkey
      refine ⟨order', repository', ?_, ?_⟩
      · rw [hfold, List.filter_cons, hparent]
        rfl
      · rw [hentries, Dict.entries_set_of_not_mem _ (hnew e List.mem_cons_self),
          List.filterMap_cons, hparent, List.append_assoc]
        rfl
    | none =>
      obtain ⟨order', repository', hfold, hentries⟩ := hlater order
        (s.queuedForDeletion ++ [lodeOf e]) (fun e' he' => hnew e' (hrest e' he'))
      refine ⟨order', repository', ?_, ?_⟩
      · rw [hfold, List.filter_cons, hparent, List.append_assoc]
        rfl
      · rw [hentries, List.filterMap_cons, hparent]
        rfl

/-- Roots are added below nodes of a lower level, each where it belongs, and nothing else moves. -/
theorem addLodes_spec {level : BatchNode N → Nat} {lodes : List (BatchNode N × BatchNode N)}
    {s : BatchState N} (hdescends : s.tree.Descends level)
    (hlevel : ∀ c ∈ lodes, level c.2 < level c.1)
    (hfree : ∀ c ∈ lodes, s.tree.parent c.1 = none) (hnodup : (lodes.map Prod.fst).Nodup) :
    (addLodes lodes s).addedChildren = s.addedChildren ++ lodes ∧
      (addLodes lodes s).queuedForDeletion = s.queuedForDeletion ∧
      (∀ c ∈ lodes, (addLodes lodes s).tree.parent c.1 = some c.2) ∧
      ∀ node ∉ lodes.map Prod.fst, (addLodes lodes s).tree.parent node = s.tree.parent node := by
  induction lodes generalizing s with
  | nil =>
    refine ⟨(List.append_nil _).symm, rfl, ?_, fun _ _ => rfl⟩
    intro c hc
    cases hc
  | cons first lodes ih =>
    obtain ⟨lode, parent⟩ := first
    rw [List.map_cons, List.nodup_cons] at hnodup
    have hlower : level parent < level lode := hlevel (lode, parent) List.mem_cons_self
    have hpath : lode ∉ s.tree.path parent := by
      intro hm
      have hle := hdescends.path hm
      omega
    have hfirst : s.tree.parent lode = none := hfree (lode, parent) List.mem_cons_self
    have hadd : addChild lode parent s = { s with
        tree := s.tree.move lode parent hpath
        addedChildren := s.addedChildren ++ [(lode, parent)] } := by
      rw [addChild, if_neg (not_not_intro hfirst), dif_neg hpath]
    have hother (c : BatchNode N × BatchNode N) (hc : c ∈ lodes) : c.1 ≠ lode := by
      intro he
      rw [← he] at hnodup
      exact hnodup.1 (List.mem_map.2 ⟨c, hc, rfl⟩)
    obtain ⟨hchildren, hqueued, hparents, hsame⟩ := ih
      (s := { s with
        tree := s.tree.move lode parent hpath
        addedChildren := s.addedChildren ++ [(lode, parent)] })
      (hdescends.move hlower.le hpath) (fun c hc => hlevel c (List.mem_cons_of_mem _ hc))
      (fun c hc => (Forest.parent_move_of_ne hpath (hother c hc)).trans
        (hfree c (List.mem_cons_of_mem _ hc))) hnodup.2
    rw [addLodes, hadd]
    refine ⟨?_, hqueued, fun c hc => ?_, fun node hnode => ?_⟩
    · rw [hchildren, List.append_assoc]
      rfl
    · rcases List.mem_cons.1 hc with he | hc
      · rw [he, hsame lode hnodup.1]
        exact if_pos rfl
      · exact hparents c hc
    · rw [List.map_cons, List.mem_cons, not_or] at hnode
      rw [hsame node hnode.2]
      exact Forest.parent_move_of_ne hpath hnode.1

/-- The order in which the entries are added. -/
def dominantFirst (added : List AddedNode) : List AddedNode :=
  added.filter (fun e => e.dominant) ++ added.filter fun e => !e.dominant

theorem mem_dominantFirst {added : List AddedNode} {e : AddedNode} :
    e ∈ dominantFirst added ↔ e ∈ added := by
  rw [dominantFirst, List.mem_append, List.mem_filter, List.mem_filter, ← and_or_left]
  cases e.dominant with
  | true => simp
  | false => simp

theorem dominantFirst_perm (added : List AddedNode) : (dominantFirst added).Perm added :=
  List.filter_append_perm (fun e : AddedNode => e.dominant) added

theorem Built.lodeIdOrder {added : List AddedNode} {s : BatchState N} (h : w.Built r F added s)
    (hbatch : w.Batch r added) : lodeIdOrder s = (dominantFirst added).map rootId := by
  rw [BatchWorld.lodeIdOrder, h.dominant, h.keys, dominantFirst, List.map_append, List.filter_map]
  congr 2
  apply List.filter_congr
  intro e he
  rw [Function.comp_apply, decide_not]
  congr 1
  rw [Bool.eq_iff_iff, decide_eq_true_eq, List.mem_map]
  constructor
  · rintro ⟨e', he', heq⟩
    rw [List.mem_filter] at he'
    rw [← hbatch.eq_of_rootId he'.1 he heq]
    exact he'.2
  · intro hdominant
    exact ⟨e, List.mem_filter.2 ⟨he, hdominant⟩, rfl⟩

/-- By how far a node is below the others: new nodes by their entries' ranks. -/
def level (rank : Int → Nat) : BatchNode N → Nat
  | .existing _ => 0
  | .created rootId _ => rank rootId + 1

omit [DecidableEq N] in
theorem descends_bornTree (F : Forest N) (rank : Int → Nat) :
    (bornTree F).Descends (level rank) := by
  intro a b hp
  cases a with
  | existing node =>
    obtain ⟨parent, _, rfl⟩ := Option.map_eq_some_iff.1 hp
    exact Nat.le_refl _
  | created rootId path =>
    cases path with
    | nil => cases hp
    | cons name path =>
      cases hp
      exact Nat.le_refl _

omit [DecidableEq N] in
theorem level_lt_of_stands {added : List AddedNode} (hbatch : w.Batch r added)
    {rank : Int → Nat} (hrank : ∀ e ∈ added, ∀ e' ∈ added, ∀ node,
      w.Registers e' e.parentId node → rank (rootId e') < rank (rootId e))
    {e : AddedNode} (he : e ∈ added) {node : BatchNode N}
    (h : w.Stands r added e.parentId node) :
    level rank node < level rank (lodeOf e : BatchNode N) := by
  rcases h with ⟨e', he', hreg⟩ | hold
  · have hlt := hrank e he e' he' node hreg
    obtain ⟨path, _, _, rfl⟩ := hreg
    exact Nat.succ_lt_succ hlt
  · obtain ⟨n, rfl⟩ := hbatch.existing _ _ (Repository.getObject_of_some hold).2
    exact Nat.succ_pos _

theorem filter_key_eq {α β : Type} [DecidableEq α] {l : List (α × β)} {a : α} {b : β}
    (hnodup : (l.map Prod.fst).Nodup) (h : (a, b) ∈ l) :
    l.filter (fun c => c.1 = a) = [(a, b)] := by
  induction l with
  | nil => cases h
  | cons c l ih =>
    rw [List.map_cons, List.nodup_cons] at hnodup
    rw [List.filter_cons]
    rcases List.mem_cons.1 h with he | hm
    · rw [← he] at hnodup ⊢
      have hnone : l.filter (fun c => c.1 = a) = [] := by
        rw [List.filter_eq_nil_iff]
        intro c hc heq
        rw [decide_eq_true_eq] at heq
        exact hnodup.1 (List.mem_map.2 ⟨c, hc, heq⟩)
      rw [if_pos (decide_eq_true rfl), hnone]
    · have hne : c.1 ≠ a := by
        intro he
        rw [he] at hnodup
        exact hnodup.1 (List.mem_map.2 ⟨(a, b), hm, rfl⟩)
      rw [if_neg (by simpa using hne), ih hnodup.2 hm]

/-- The tree after a batch: roots hang where their parents are known, nodes without ids are cut
off, and everything else is where it was. -/
structure Settled (w : BatchWorld N) (r : Repository (BatchNode N)) (F : Forest N)
    (added : List AddedNode) (s : BatchState N) : Prop where
  hangs : ∀ e ∈ added, ∀ node, w.Stands r added e.parentId node →
    s.tree.parent (lodeOf e) = some node
  dead : ∀ node, (∃ e ∈ added, w.Dead e node) → s.tree.parent node = none
  same : ∀ node, (∀ e ∈ added, ∀ parent, w.Stands r added e.parentId parent →
    node ≠ lodeOf e) → (¬ ∃ e ∈ added, w.Dead e node) → s.tree.parent node = bornParent F node

/-- What holds before the roots are added, in an order. -/
structure Ordered (w : BatchWorld N) (r : Repository (BatchNode N)) (F : Forest N)
    (added : List AddedNode) (order : List (BatchNode N × BatchNode N)) (s : BatchState N) :
    Prop where
  entry : ∀ c, c ∈ order ↔ ∃ e ∈ added, w.Stands r added e.parentId c.2 ∧ c.1 = lodeOf e
  nodup : (order.map Prod.fst).Nodup
  dominant_first : ∃ first later, order = first ++ later ∧
    (∀ c ∈ first, ∃ e ∈ added, e.dominant = true ∧ c.1 = lodeOf e) ∧
      ∀ c ∈ later, ∃ e ∈ added, e.dominant = false ∧ c.1 = lodeOf e
  free : ∀ e, s.tree.parent (lodeOf e) = none
  dead : ∀ node, (∃ e ∈ added, w.Dead e node) → s.tree.parent node = none
  same : ∀ node, (¬ ∃ e ∈ added, w.Dead e node) → s.tree.parent node = bornParent F node
  descends : ∀ level, (bornTree F).Descends level → s.tree.Descends level
  queued : ∀ e ∈ added, lodeOf e ∈ s.queuedForDeletion ↔
    ∀ node, ¬ w.Stands r added e.parentId node
  addedChildren : s.addedChildren = []

omit [DecidableEq N] in
theorem parted_by_dominance (added : List AddedNode) (f : AddedNode → Option (BatchNode N)) :
    ∃ first later : List (BatchNode N × BatchNode N), (dominantFirst added).filterMap
        (fun e => (f e).map fun parent => (lodeOf e, parent)) = first ++ later ∧
      (∀ c ∈ first, ∃ e ∈ added, e.dominant = true ∧ c.1 = lodeOf e) ∧
        ∀ c ∈ later, ∃ e ∈ added, e.dominant = false ∧ c.1 = lodeOf e := by
  rw [dominantFirst, List.filterMap_append]
  refine ⟨_, _, rfl, fun c hc => ?_, fun c hc => ?_⟩
  · obtain ⟨e, he, hmap⟩ := List.mem_filterMap.1 hc
    obtain ⟨parent, _, rfl⟩ := Option.map_eq_some_iff.1 hmap
    exact ⟨e, (List.mem_filter.1 he).1, (List.mem_filter.1 he).2, rfl⟩
  · obtain ⟨e, he, hmap⟩ := List.mem_filterMap.1 hc
    obtain ⟨parent, _, rfl⟩ := Option.map_eq_some_iff.1 hmap
    refine ⟨e, (List.mem_filter.1 he).1, ?_, rfl⟩
    simpa using (List.mem_filter.1 he).2

theorem exists_ordered {added : List AddedNode} (hbatch : w.Batch r added)
    (hin : ∀ e ∈ added, w.InBounds e) :
    ∃ order s, w.updateVisibility added (start r F) = some (addLodes order s) ∧
      w.Ordered r F added order s := by
  obtain ⟨t, ht, hbuilt⟩ := (w.built_start r F).entries hbatch hin
  rw [List.nil_append] at hbuilt
  have hof := hbuilt.parentOf_iff hbatch
  have hmem (e : AddedNode) : e ∈ dominantFirst added ↔ e ∈ added := mem_dominantFirst
  have hroots : ((dominantFirst added).map rootId).Nodup :=
    ((dominantFirst_perm added).map rootId).nodup_iff.2 hbatch.distinct
  obtain ⟨order, repository, hfold, hentries⟩ := foldl_orderLode (w := w) (s := t)
    Dict.empty (fun e he => hbuilt.lodes e ((hmem e).1 he))
    (fun e he => hbuilt.parents e ((hmem e).1 he)) hroots (fun e _ => Dict.not_mem_empty)
  have hnil : (Dict.empty : Dict (BatchNode N) (BatchNode N)).entries = [] := rfl
  rw [hnil, List.nil_append] at hentries
  have hupdate : w.updateVisibility added (start r F) = some (addLodes order.entries { t with
      repository := repository
      queuedForDeletion := t.queuedForDeletion ++ ((dominantFirst added).filter
        fun e => (w.parentOf t e.parentId).isNone).map lodeOf }) := by
    rw [updateVisibility, ht, Option.map_some, hbuilt.lodeIdOrder hbatch, hfold]
  refine ⟨_, _, hupdate, fun c => ?_, order.nodup, ?_, fun e => ?_, hbuilt.dead, hbuilt.same,
    hbuilt.descends, fun e he => ?_, hbuilt.addedChildren⟩
  · rw [hentries, List.mem_filterMap]
    constructor
    · rintro ⟨e, he, hmap⟩
      obtain ⟨parent, hparent, rfl⟩ := Option.map_eq_some_iff.1 hmap
      exact ⟨e, (hmem e).1 he, (hof _ _).1 hparent, rfl⟩
    · rintro ⟨e, he, hstands, hlode⟩
      refine ⟨e, (hmem e).2 he, ?_⟩
      rw [(hof _ _).2 hstands, Option.map_some, ← hlode]
  · rw [hentries]
    exact parted_by_dominance added _
  · refine hbuilt.same _ ?_
    rintro ⟨e', he', hdead⟩
    exact hbatch.not_dead he' e hdead
  · have hnone : (w.parentOf t e.parentId).isNone = true ↔
        ∀ node, ¬ w.Stands r added e.parentId node := by
      rw [Option.isNone_iff_eq_none, Option.eq_none_iff_forall_ne_some]
      simp only [ne_eq, hof]
    rw [← hnone, List.mem_append, List.mem_map]
    constructor
    · rintro (hq | ⟨e', he', heq⟩)
      · obtain ⟨e', he', hdead⟩ := hbuilt.queued _ hq
        exact absurd hdead (hbatch.not_dead he' e)
      · rw [List.mem_filter, hmem] at he'
        rw [← hbatch.eq_of_rootId he'.1 he (BatchNode.created.inj heq).1]
        exact he'.2
    · intro hisNone
      exact .inr ⟨e, List.mem_filter.2 ⟨(hmem e).2 he, hisNone⟩, rfl⟩

omit [DecidableEq N] in
theorem Ordered.mem_keys {added : List AddedNode} {order : List (BatchNode N × BatchNode N)}
    {s : BatchState N} (h : w.Ordered r F added order s) (hbatch : w.Batch r added)
    {e : AddedNode} (he : e ∈ added) :
    lodeOf e ∈ order.map Prod.fst ↔ ∃ node, w.Stands r added e.parentId node := by
  constructor
  · intro hm
    obtain ⟨c, hc, hlode⟩ := List.mem_map.1 hm
    obtain ⟨e', he', hstands, hlode'⟩ := (h.entry c).1 hc
    rw [hlode] at hlode'
    rw [← hbatch.eq_of_rootId he he' (BatchNode.created.inj hlode').1] at hstands
    exact ⟨_, hstands⟩
  · rintro ⟨node, hstands⟩
    exact List.mem_map.2 ⟨(lodeOf e, node), (h.entry _).2 ⟨e, he, hstands, rfl⟩, rfl⟩

/-- What adding the roots does to a batch. -/
theorem Ordered.addLodes {added : List AddedNode} {order : List (BatchNode N × BatchNode N)}
    {s : BatchState N} (h : w.Ordered r F added order s) (hbatch : w.Batch r added) :
    (addLodes order s).addedChildren = order ∧
      (addLodes order s).queuedForDeletion = s.queuedForDeletion ∧
      (∀ c ∈ order, (addLodes order s).tree.parent c.1 = some c.2) ∧
      ∀ node ∉ order.map Prod.fst, (addLodes order s).tree.parent node = s.tree.parent node := by
  obtain ⟨rank, hrank⟩ := hbatch.acyclic
  have hlevel (c : BatchNode N × BatchNode N) (hc : c ∈ order) :
      level rank c.2 < level rank c.1 := by
    obtain ⟨e, he, hstands, hlode⟩ := (h.entry c).1 hc
    rw [hlode]
    exact level_lt_of_stands hbatch hrank he hstands
  have hfree (c : BatchNode N × BatchNode N) (hc : c ∈ order) : s.tree.parent c.1 = none := by
    obtain ⟨e, _, _, hlode⟩ := (h.entry c).1 hc
    rw [hlode]
    exact h.free e
  have hspec := addLodes_spec (h.descends _ (descends_bornTree F rank)) hlevel hfree h.nodup
  rw [h.addedChildren, List.nil_append] at hspec
  exact hspec

theorem Ordered.hangs {added : List AddedNode} {order : List (BatchNode N × BatchNode N)}
    {s : BatchState N} (h : w.Ordered r F added order s) (hbatch : w.Batch r added) :
    w.Hangs r added (BatchWorld.addLodes order s) := by
  obtain ⟨hchildren, hqueued, hparents, hsame⟩ := h.addLodes hbatch
  refine ⟨fun e he node hstands => ?_, fun e he hno => ⟨?_, ?_, ?_⟩, ?_⟩
  · have hmem : (lodeOf e, node) ∈ order := (h.entry _).2 ⟨e, he, hstands, rfl⟩
    rw [hchildren, hqueued, h.queued e he]
    exact ⟨hparents (lodeOf e, node) hmem, filter_key_eq h.nodup hmem,
      fun hno => hno node hstands⟩
  · rw [hsame, h.free e]
    rw [h.mem_keys hbatch he]
    exact fun ⟨node, hstands⟩ => hno node hstands
  · rw [hchildren]
    intro c hc hlode
    obtain ⟨node, hstands⟩ := (h.mem_keys hbatch he).1 (List.mem_map.2 ⟨c, hc, hlode⟩)
    exact hno node hstands
  · rw [hqueued, h.queued e he]
    exact hno
  · rw [hchildren]
    exact h.dominant_first

theorem Ordered.settled {added : List AddedNode} {order : List (BatchNode N × BatchNode N)}
    {s : BatchState N} (h : w.Ordered r F added order s) (hbatch : w.Batch r added) :
    w.Settled r F added (BatchWorld.addLodes order s) := by
  obtain ⟨_, _, hparents, hsame⟩ := h.addLodes hbatch
  refine ⟨fun e he node hstands => ?_, ?_, ?_⟩
  · exact hparents (lodeOf e, node) ((h.entry _).2 ⟨e, he, hstands, rfl⟩)
  · rintro node ⟨e, he, hdead⟩
    rw [hsame]
    · exact h.dead node ⟨e, he, hdead⟩
    · intro hm
      obtain ⟨c, hc, hlode⟩ := List.mem_map.1 hm
      obtain ⟨e', _, _, hlode'⟩ := (h.entry c).1 hc
      rw [← hlode, hlode'] at hdead
      exact hbatch.not_dead he e' hdead
  · intro node hfar halive
    rw [hsame]
    · exact h.same node halive
    · intro hm
      obtain ⟨c, hc, hlode⟩ := List.mem_map.1 hm
      obtain ⟨e', he', hstands, hlode'⟩ := (h.entry c).1 hc
      exact hfar e' he' _ hstands (hlode.symm.trans hlode')

omit [DecidableEq N] in
theorem stands_perm {added added' : List AddedNode} (hperm : added'.Perm added) {i : Int}
    {node : BatchNode N} : w.Stands r added' i node ↔ w.Stands r added i node := by
  simp only [Stands, hperm.mem_iff]

omit [DecidableEq N] in
theorem Batch.perm {added added' : List AddedNode} (h : w.Batch r added)
    (hperm : added'.Perm added) : w.Batch r added' := by
  have hmem (e : AddedNode) (he : e ∈ added') : e ∈ added := hperm.mem_iff.1 he
  obtain ⟨rank, hrank⟩ := h.acyclic
  refine ⟨h.existing, fun e he => h.loads e (hmem e he), fun e he => h.ids e (hmem e he),
    fun e he => h.roots e (hmem e he), fun e he => h.properties e (hmem e he),
    (hperm.map rootId).nodup_iff.2 h.distinct,
    fun e he e' he' => h.one_node e (hmem e he) e' (hmem e' he'),
    fun e he => h.one_id e (hmem e he), fun e he => h.new e (hmem e he),
    rank, fun e he e' he' => hrank e (hmem e he) e' (hmem e' he')⟩

omit [DecidableEq N] in
/-- The tree does not depend on the order of the entries. -/
theorem Settled.unique {added added' : List AddedNode} {s s' : BatchState N}
    (h : w.Settled r F added s) (h' : w.Settled r F added' s') (hperm : added'.Perm added)
    (node : BatchNode N) : s'.tree.parent node = s.tree.parent node := by
  by_cases hroot : ∃ e ∈ added, ∃ parent, w.Stands r added e.parentId parent ∧ node = lodeOf e
  · obtain ⟨e, he, parent, hstands, rfl⟩ := hroot
    rw [h.hangs e he parent hstands,
      h'.hangs e (hperm.mem_iff.2 he) parent ((stands_perm hperm).2 hstands)]
  have hfar (e : AddedNode) (he : e ∈ added) (parent : BatchNode N)
      (hstands : w.Stands r added e.parentId parent) : node ≠ lodeOf e :=
    fun hnode => hroot ⟨e, he, parent, hstands, hnode⟩
  by_cases hdead : ∃ e ∈ added, w.Dead e node
  · obtain ⟨e, he, hgone⟩ := hdead
    rw [h.dead node ⟨e, he, hgone⟩, h'.dead node ⟨e, hperm.mem_iff.2 he, hgone⟩]
  · rw [h.same node hfar hdead, h'.same node]
    · intro e he parent hstands
      exact hfar e (hperm.mem_iff.1 he) parent ((stands_perm hperm).1 hstands)
    · rintro ⟨e, he, hgone⟩
      exact hdead ⟨e, hperm.mem_iff.1 he, hgone⟩

/-- A batch is added as it should be, in any order, unless an entry of a scene has an id read that
it does not have: then nothing of it is added. -/
theorem batch_reconstructs_iff (w : BatchWorld N) (r : Repository (BatchNode N)) (F : Forest N)
    (added : List AddedNode) (hbatch : w.Batch r added) :
    w.Reconstructs r F added ↔ ∀ e ∈ added, w.InBounds e := by
  constructor
  · rintro ⟨s, hs, _⟩ e he
    by_contra hin
    rw [updateVisibility, buildEntries_none he hin] at hs
    cases hs
  · intro hin
    obtain ⟨order, s, hs, hordered⟩ := exists_ordered (F := F) hbatch hin
    refine ⟨_, hs, hordered.hangs hbatch, fun added' hperm => ?_⟩
    have hbatch' := hbatch.perm hperm
    obtain ⟨order', s', hs', hordered'⟩ := exists_ordered (F := F) hbatch'
      (fun e he => hin e (hperm.mem_iff.1 he))
    exact ⟨_, hs', (hordered.settled hbatch).unique (hordered'.settled hbatch') hperm⟩

end BatchWorld

/-- A scene with a state of its own and one that it inherits from, of one node each. -/
def inheritedScene : PackedScene where
  states := [[[]], [[]]]
  has path := path.isEmpty
  root_first := ⟨[], [[[]]], rfl⟩
  has_root := rfl

/-- Uid 1 is a script, and uid 2 is a scene. -/
def batchWorld : BatchWorld Nat where
  isInstanceValid _ := true
  load uid := if uid = 1 then some .script else some (.scene inheritedScene)

/-- The client has a node with the id 0. -/
def batchRepository : Repository (BatchNode Nat) :=
  (Repository.new.addObject (.existing 0) 0).2

namespace BatchWorld

theorem getObject_batchRepository {id : Int} (h : id ≠ 0) :
    (batchRepository.getObject batchWorld.isValid id).1 = none := by
  rw [Repository.getObject_fst]
  change ((Dict.empty.set 0 (BatchNode.existing 0)).get? id).filter _ = none
  rw [Dict.get?_set, if_neg h]
  rfl

theorem get?_batchRepository {id : Int} {node : BatchNode Nat}
    (h : batchRepository.idToObject.get? id = some node) : node = .existing 0 := by
  change (Dict.empty.set 0 (BatchNode.existing 0)).get? id = some node at h
  rw [Dict.get?_set] at h
  split at h
  · exact (Option.some.inj h).symm
  · cases h

/-- The first entry belongs below the second one, which is dominant. -/
def lateParent : List AddedNode :=
  [⟨6, 1, 1, [], [], [5], false⟩, ⟨0, 1, 1, [], [], [6], true⟩]

theorem batch_lateParent : batchWorld.Batch batchRepository lateParent := by
  have hload (e : AddedNode) (he : e ∈ lateParent) : batchWorld.load e.uid = some .script := by
    rcases List.mem_cons.1 he with rfl | he
    · rfl
    · rw [List.mem_singleton.1 he]
      rfl
  have hroots (e : AddedNode) (he : e ∈ lateParent) :
      rootId e = 5 ∧ e.parentId = 6 ∨ rootId e = 6 ∧ e.parentId = 0 := by
    rcases List.mem_cons.1 he with rfl | he
    · exact .inl ⟨rfl, rfl⟩
    · rw [List.mem_singleton.1 he]
      exact .inr ⟨rfl, rfl⟩
  refine ⟨?_, fun e he => .inl (hload e he), ?_, ?_, ?_, by decide, ?_, ?_, ?_,
    fun id => (7 - id).toNat, ?_⟩
  · exact fun id node h => ⟨0, get?_batchRepository h⟩
  · intro e he
    rcases List.mem_cons.1 he with rfl | he
    · decide
    · rw [List.mem_singleton.1 he]
      decide
  · intro e he
    have := hroots e he
    omega
  · intro e he _
    rcases List.mem_cons.1 he with rfl | he
    · exact .inl rfl
    · rw [List.mem_singleton.1 he]
      exact .inl rfl
  · intro e he e' he' id node node' hreg hreg'
    obtain ⟨hid, _, rfl⟩ := (registers_script (hload e he)).1 hreg
    obtain ⟨hid', _, rfl⟩ := (registers_script (hload e' he')).1 hreg'
    rw [lodeOf, lodeOf, ← hid, ← hid']
  · intro e he id id' node hreg hreg'
    rw [((registers_script (hload e he)).1 hreg).1, ((registers_script (hload e he)).1 hreg').1]
  · intro e he id node hreg
    exact getObject_batchRepository ((registers_script (hload e he)).1 hreg).2.1
  · intro e he e' he' node hreg
    obtain ⟨hid, hne, _⟩ := (registers_script (hload e' he')).1 hreg
    have hroot := hroots e he
    have hroot' := hroots e' he'
    change (7 - rootId e').toNat < (7 - rootId e).toNat
    omega

theorem batch_reconstructs_late_parent :
    batchWorld.Reconstructs batchRepository Forest.discrete lateParent ↔
      ∀ e ∈ lateParent, batchWorld.InBounds e :=
  batch_reconstructs_iff batchWorld batchRepository Forest.discrete lateParent batch_lateParent

/-- An entry of the scene with an id for the root only. -/
def shortEntry : AddedNode := ⟨0, 1, 2, [], [], [5], false⟩

theorem reads_shortEntry {id : Int} {path : ScenePath} (h : batchWorld.Reads shortEntry id path) :
    id = 5 ∧ path = [] := by
  obtain ⟨idx, nodeIdx, hslot, _, _, hid⟩ := h
  cases idx with
  | zero =>
    cases hid
    cases hslot
    exact ⟨rfl, rfl⟩
  | succ idx => cases hid

theorem registers_shortEntry {id : Int} {node : BatchNode Nat}
    (h : batchWorld.Registers shortEntry id node) : id = 5 ∧ node = lodeOf shortEntry := by
  obtain ⟨path, hread, _, hnode⟩ := h
  obtain ⟨hid, hpath⟩ := reads_shortEntry hread
  rw [hpath] at hnode
  exact ⟨hid, hnode⟩

theorem batch_shortEntry : batchWorld.Batch batchRepository [shortEntry] := by
  have heq (e : AddedNode) (he : e ∈ [shortEntry]) : e = shortEntry := List.mem_singleton.1 he
  refine ⟨?_, ?_, ?_, ?_, ?_, by decide, ?_, ?_, ?_, fun _ => 0, ?_⟩
  · exact fun id node h => ⟨0, get?_batchRepository h⟩
  · intro e he
    rw [heq e he]
    exact .inr ⟨inheritedScene, rfl⟩
  · intro e he
    rw [heq e he]
    decide
  · intro e he
    rw [heq e he]
    decide
  · intro e he hload
    rw [heq e he]
    exact .inl rfl
  · intro e he e' he' id node node' hreg hreg'
    rw [heq e he] at hreg
    rw [heq e' he'] at hreg'
    rw [(registers_shortEntry hreg).2, (registers_shortEntry hreg').2]
  · intro e he id id' node hreg hreg'
    rw [heq e he] at hreg hreg'
    rw [(registers_shortEntry hreg).1, (registers_shortEntry hreg').1]
  · intro e he id node hreg
    rw [heq e he] at hreg
    rw [(registers_shortEntry hreg).1]
    exact getObject_batchRepository (by decide)
  · intro e he e' he' node hreg
    rw [heq e he, heq e' he'] at hreg
    cases (registers_shortEntry hreg).1

/-- The entry's parent is known, and nothing is added. -/
theorem short_ids_abort :
    ¬ ∀ (w : BatchWorld Nat) (r : Repository (BatchNode Nat)) (F : Forest Nat)
      (added : List AddedNode), w.Batch r added → w.Reconstructs r F added := by
  intro h
  obtain ⟨s, hs, _⟩ :=
    h batchWorld batchRepository Forest.discrete [shortEntry] batch_shortEntry
  cases hs

end BatchWorld

end Godaemon
