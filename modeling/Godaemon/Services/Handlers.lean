import Godaemon.Services.WriteAuthority

namespace Godaemon
set_option autoImplicit true

/-- A peer with its scripts, the observers of its nodes, and the engine as far as its handlers use
it. The scene tree of the engine has a root of its own, above the MultiplayerRoot. -/
structure HandlerPeer (S N : Type) where
  data : ReplicationData S
  script : N → Option S
  isInstanceValid : N → Bool
  root : N
  multiplayerRoot : N
  localPeer : Int
  observers : N → List Int
  toArray : Variant → Option (List Variant)
  tweenFits : Variant → Variant → Bool

/-- The repository and the nodes of a peer, the signals that nodes have emitted and the properties
that have been forwarded. -/
structure HandlerState (w : HandlerPeer S N) where
  repository : Repository N
  tree : Forest N
  queuedForDeletion : List N
  owner : N → Option Int
  fields : FieldState N
  ownerUpdated : List N
  forwarded : List (Int × String × List Variant)

/-- The messages about a node by its id. -/
inductive HandlerMessage where
  | nodeReparent (nodeId parentId : Int)
  | setNodeOwner (bytes : List UInt8)
  | signalReplicate (nodeId idx : Int) (args : List Variant)
  | receiveProperties (nodeId idx : Int) (value : Variant)
  | removed (nodeIds : List Int)

/-- Why a handler stops: null is used in place of a node or a config, or a value is not what it
has to be. -/
inductive Fault where
  | null
  | value
  deriving DecidableEq

/-- The node id and the peer of a message about an owner. -/
def readNodeOwner (bytes : List UInt8) : Int × Int :=
  let (nodeId, stream) := (PackedByteStream.new.setupRead bytes).readUnsigned maxBytes
  let (peer, _) := stream.readU32
  (nodeId, peer)

namespace HandlerState

variable {S N : Type} [DecidableEq N] {w : HandlerPeer S N}

/-- The engine hangs a node elsewhere, but not a root, nor a node below itself. What would go below
one of its own nodes has been cut off by then. -/
def reparent (node parent : N) (F : Forest N) : Forest N :=
  if F.parent node = none ∨ parent = node then F
  else if h : node ∈ F.path parent then F.detach node
  else F.move node parent h

def getObject (id : Int) (s : HandlerState w) : Option N × HandlerState w :=
  ((s.repository.getObject w.isInstanceValid id).1,
    { s with repository := (s.repository.getObject w.isInstanceValid id).2 })

/-- The owner of a node, if the way up from a node in the tree leads to one. -/
def getNodeOwner (node : N) (s : HandlerState w) : Option Int :=
  if w.root ∈ s.tree.path node then
    s.tree.nearest
      (fun n => if n = w.multiplayerRoot ∨ (s.owner n).isSome then some ((s.owner n).getD 1)
        else none) node
  else some ((s.owner node).getD 1)

def canWeRecv (c : ReplicationConfigBase) (node : N) (s : HandlerState w) : Option Bool :=
  if w.localPeer = 1 then some (c.getRecvFilterFlag .server)
  else (s.getNodeOwner node).map fun nodeOwner => c.canTheyRecv nodeOwner w.localPeer

/-- A node is taken out of the tree, and freed when the frame ends. -/
def removeChild (node : N) (s : HandlerState w) : HandlerState w × Option Fault :=
  if s.tree.parent node = none then (s, some .null)
  else ({ s with
    tree := s.tree.detach node
    queuedForDeletion := s.queuedForDeletion ++ [node] }, none)

def nodeReparent (nodeId parentId : Int) (s : HandlerState w) : HandlerState w × Option Fault :=
  let (node, s) := s.getObject nodeId
  let (parent, s) := s.getObject parentId
  match node with
  | none => (s, none)
  | some node =>
    if s.tree.parent node = parent then (s, none)
    else
      match parent with
      | none => s.removeChild node
      | some parent => ({ s with tree := reparent node parent s.tree }, none)

/-- The id is tested where the node should be. -/
def setNodeOwner (bytes : List UInt8) (s : HandlerState w) : HandlerState w × Option Fault :=
  let (nodeId, peer) := readNodeOwner bytes
  let (node, s) := s.getObject nodeId
  if nodeId = 0 then (s, none)
  else
    match node with
    | none => (s, some .null)
    | some node =>
      ({ s with
        owner := Function.update s.owner node (some peer)
        ownerUpdated := s.ownerUpdated ++ [node] }, none)

/-- There is a case for each number of arguments up to 8, and an assertion on 9. What listens to
the signal is left out. -/
def emitSignal (node : N) (c : ReplicationSignalConfig) (args : List Variant)
    (s : HandlerState w) : HandlerState w × Option Fault :=
  let fields := s.fields.setSignalLoopBlock node c true
  if args.length = 9 then ({ s with fields := fields }, some .value)
  else
    let fields := if args.length ≤ 8 then
      { fields with effects := fields.effects ++ [.emit node c.name args] } else fields
    ({ s with fields := fields.setSignalLoopBlock node c false }, none)

/-- The config is used whether or not there is one of this index. -/
def signalReplicate (nodeId idx : Int) (args : List Variant) (s : HandlerState w) :
    HandlerState w × Option Fault :=
  let (node, s) := s.getObject nodeId
  match node with
  | none => (s, none)
  | some node =>
    match w.data.freshConfig signalField (w.script node) idx with
    | none => (s, some .null)
    | some c =>
      match s.canWeRecv c.toReplicationConfigBase node with
      | none => (s, some .null)
      | some false => (s, none)
      | some true => s.emitSignal node c args

def applyProperty (node : N) (c : ReplicationPropertyConfig) (value : Variant)
    (s : HandlerState w) : HandlerState w × Bool :=
  let (fields, goesOn) := s.fields.applyProperty w.toArray w.tweenFits node c value
  ({ s with fields := fields }, goesOn)

/-- The peers that a server forwards a property to, unless it meets null on the way. -/
def forwardPeers (remotePeer : Int) (node : N) (c : ReplicationPropertyConfig)
    (s : HandlerState w) : List Int → Option (List Int)
  | [] => some []
  | peer :: peers =>
    if peer = remotePeer then forwardPeers remotePeer node c s peers
    else if c.getRobns then
      (s.getNodeOwner node).bind fun nodeOwner =>
        if peer = nodeOwner then forwardPeers remotePeer node c s peers
        else (forwardPeers remotePeer node c s peers).map (peer :: ·)
    else (forwardPeers remotePeer node c s peers).map (peer :: ·)

def forward (remotePeer : Int) (node : N) (c : ReplicationPropertyConfig) (args : List Variant)
    (s : HandlerState w) : HandlerState w × Option Fault :=
  if w.localPeer = 1 then
    let rpc := getReceiveRpc true (if c.sync ≠ .smooth then c.reliable else false)
    match s.forwardPeers remotePeer node c (w.observers node) with
    | none => (s, some .null)
    | some peers =>
      ({ s with forwarded := s.forwarded ++ peers.map (fun p => (p, rpc.name, args)) }, none)
  else (s, none)

def receiveProperties (remotePeer nodeId idx : Int) (value : Variant) (s : HandlerState w) :
    HandlerState w × Option Fault :=
  let (node, s) := s.getObject nodeId
  match node with
  | none => (s, none)
  | some node =>
    if w.script node = none then (s, none)
    else
      match w.data.freshConfig propertyField (w.script node) idx with
      | none => (s, none)
      | some c =>
        if c.sync = .once then (s, none)
        else
          match s.canWeRecv c.toReplicationConfigBase node with
          | none => (s, some .null)
          | some recv =>
            match if recv then s.applyProperty node c value else (s, true) with
            | (s, false) => (s, some .value)
            | (s, true) => s.forward remotePeer node c [.int nodeId, .int idx, value]

/-- The body of the loop over the removed nodes of an update. -/
def removeNode (nodeId : Int) (s : HandlerState w) : HandlerState w × Option Fault :=
  let (node, s) := s.getObject nodeId
  match node with
  | none => (s, none)
  | some node => if w.root ∉ s.tree.path node then (s, none) else s.removeChild node

def removeNodes : List Int → HandlerState w → HandlerState w × Option Fault
  | [], s => (s, none)
  | nodeId :: nodeIds, s =>
    match s.removeNode nodeId with
    | (s, none) => removeNodes nodeIds s
    | (s, some fault) => (s, some fault)

def handle (remotePeer : Int) (m : HandlerMessage) (s : HandlerState w) :
    HandlerState w × Option Fault :=
  match m with
  | .nodeReparent nodeId parentId => s.nodeReparent nodeId parentId
  | .setNodeOwner bytes => s.setNodeOwner bytes
  | .signalReplicate nodeId idx args => s.signalReplicate nodeId idx args
  | .receiveProperties nodeId idx value => s.receiveProperties remotePeer nodeId idx value
  | .removed nodeIds => s.removeNodes nodeIds

/-- The node that an id stands for. -/
def lookup (s : HandlerState w) (id : Int) : Option N :=
  (s.repository.getObject w.isInstanceValid id).1

/-- The node and its field that a node id and an index stand for. -/
def fieldAt (k : FieldKind C) (nodeId idx : Int) (s : HandlerState w) : Option (N × C) :=
  (s.lookup nodeId).bind fun node =>
    (w.data.freshConfig k (w.script node) idx).map fun c => (node, c)

/-- Nodes above the MultiplayerRoot have no ids. -/
structure Rooted (s : HandlerState w) : Prop where
  parent_root : s.tree.parent w.root = none
  root_unregistered : ∀ id, s.repository.idToObject.get? id ≠ some w.root
  below : ∀ id node, s.repository.idToObject.get? id = some node → w.root ∈ s.tree.path node →
    w.multiplayerRoot ∈ s.tree.path node

/-- Nothing has changed. A lookup may have dropped the id of a node that the engine has freed, which
stands for nothing before and after. -/
structure Unchanged (s s' : HandlerState w) : Prop where
  rest : s' = { s with repository := s'.repository }
  objectToId : s'.repository.objectToId = s.repository.objectToId
  currentId : s'.repository.currentId = s.repository.currentId
  lookup : ∀ id, s'.lookup id = s.lookup id

/-- The id that a message is about is known, and its index is one of the node's script. -/
def Addressed (s : HandlerState w) : HandlerMessage → Prop
  | .nodeReparent nodeId _ => (s.lookup nodeId).isSome
  | .setNodeOwner bytes => (s.lookup (readNodeOwner bytes).1).isSome
  | .signalReplicate nodeId idx _ => (s.fieldAt signalField nodeId idx).isSome
  | .receiveProperties nodeId idx _ => (s.fieldAt propertyField nodeId idx).isSome
  | .removed nodeIds => ∃ id ∈ nodeIds, (s.lookup id).isSome

/-- What is needed of a message besides ids and indices: the engine can hang the node below the
other one, there are no more arguments than a signal can have, the value is of the type of the
property. -/
def Fits (s : HandlerState w) : HandlerMessage → Prop
  | .nodeReparent nodeId parentId => ∀ node parent, s.lookup nodeId = some node →
      s.lookup parentId = some parent →
        s.tree.parent node ≠ none ∧ node ∉ s.tree.path parent
  | .signalReplicate _ _ args => args.length ≤ 8
  | .receiveProperties nodeId idx value => ∀ node c,
      s.fieldAt propertyField nodeId idx = some (node, c) →
        if c.sync = .request then
          (s.fields.properties node c.name).isArray = true → (w.toArray value).isSome = true
        else s.fields.tweens w.tweenFits node c value = true
  | _ => True

/-- The property of a node has a value, or is on its way there. -/
def Takes (node : N) (c : ReplicationPropertyConfig) (value : Variant) (s s' : HandlerState w) :
    Prop :=
  if c.sync = .request then
    if (s.fields.properties node c.name).isArray then
      ∃ elements, w.toArray value = some elements ∧
        s'.fields.properties node c.name = .array elements
    else s'.fields.properties node c.name = value
  else s'.fields.propertyInterpolationCache.get2? node c = some value

/-- What a server forwards a property as: to every observer that it does not come from, but not to
the owner if the property says so. -/
def forwards (remotePeer : Int) (node : N) (c : ReplicationPropertyConfig) (args : List Variant)
    (s : HandlerState w) : List (Int × String × List Variant) :=
  if w.localPeer = 1 then
    ((w.observers node).filter fun p =>
        p ≠ remotePeer ∧ ¬ (c.getRobns = true ∧ s.getNodeOwner node = some p)).map fun p =>
      (p, (getReceiveRpc true (if c.sync ≠ .smooth then c.reliable else false)).name, args)
  else []

/-- The message has been carried out: the node hangs where its parent is, or is taken out of the
tree with what it would hang below; its owner is set; it has emitted the signal if the peer may
receive it; its property, unless that is synced once only, has the value if the peer may receive
it, and has been forwarded; the nodes are out of the tree, with what is below them and nothing
else. -/
def TakesEffect (remotePeer : Int) (s s' : HandlerState w) : HandlerMessage → Prop
  | .nodeReparent nodeId parentId => ∀ node, s.lookup nodeId = some node →
      s'.tree.parent node = s.lookup parentId ∧
        (∀ n, n ≠ node → s'.tree.parent n = s.tree.parent n) ∧
          (s.lookup parentId = none → s.tree.parent node ≠ none → node ∈ s'.queuedForDeletion)
  | .setNodeOwner bytes => ∀ node, s.lookup (readNodeOwner bytes).1 = some node →
      s'.owner = Function.update s.owner node (some (readNodeOwner bytes).2) ∧
        s'.ownerUpdated = s.ownerUpdated ++ [node]
  | .signalReplicate nodeId idx args => ∀ node c,
      s.fieldAt signalField nodeId idx = some (node, c) →
        ∃ recv, s.canWeRecv c.toReplicationConfigBase node = some recv ∧
          s'.fields.effects =
            s.fields.effects ++ if recv then [.emit node c.name args] else []
  | .receiveProperties nodeId idx value => ∀ node c,
      s.fieldAt propertyField nodeId idx = some (node, c) → c.sync ≠ .once →
        ∃ recv, s.canWeRecv c.toReplicationConfigBase node = some recv ∧
          (recv = true → Takes node c value s s') ∧
            s'.forwarded =
              s.forwarded ++ s.forwards remotePeer node c [.int nodeId, .int idx, value]
  | .removed nodeIds =>
      (∀ n, w.root ∈ s'.tree.path n ↔ w.root ∈ s.tree.path n ∧
        ∀ id ∈ nodeIds, ∀ node, s.lookup id = some node → node ∉ s.tree.path n) ∧
      ∀ id ∈ nodeIds, ∀ node, s.lookup id = some node → w.root ∈ s.tree.path node →
        ∃ above ∈ s.tree.path node, above ∈ s'.queuedForDeletion

/-- A message is tolerated: its handler uses no null, does nothing if the message is not about
anything that the peer knows, and otherwise carries it out. -/
def Tolerates (remotePeer : Int) (m : HandlerMessage) (s : HandlerState w) : Prop :=
  (s.handle remotePeer m).2 ≠ some .null ∧
    (¬ s.Addressed m → s.Unchanged (s.handle remotePeer m).1) ∧
      (s.Addressed m → s.Fits m → s.TakesEffect remotePeer (s.handle remotePeer m).1 m)

/-- A change of owner is for another id than 0 if the peer has the node, and for id 0 if not. The
node of a signal has a signal of the index. -/
def Guarded (s : HandlerState w) : HandlerMessage → Prop
  | .setNodeOwner bytes =>
      (s.lookup (readNodeOwner bytes).1).isSome ↔ (readNodeOwner bytes).1 ≠ 0
  | .signalReplicate nodeId idx _ =>
      s.lookup nodeId = none ∨ (s.fieldAt signalField nodeId idx).isSome
  | _ => True

variable {s s' : HandlerState w} {node : N}

section

omit [DecidableEq N]

theorem Unchanged.refl (s : HandlerState w) : s.Unchanged s := ⟨rfl, rfl, rfl, fun _ => rfl⟩

theorem Unchanged.trans {s'' : HandlerState w} (h : s.Unchanged s') (h' : s'.Unchanged s'') :
    s.Unchanged s'' := by
  refine ⟨?_, h'.objectToId.trans h.objectToId, h'.currentId.trans h.currentId,
    fun id => (h'.lookup id).trans (h.lookup id)⟩
  rw [h'.rest, h.rest]

theorem lookup_getObject (id i : Int) (s : HandlerState w) :
    (s.getObject id).2.lookup i = s.lookup i :=
  s.repository.getObject_getObject w.isInstanceValid id i

theorem unchanged_getObject (id : Int) (s : HandlerState w) : s.Unchanged (s.getObject id).2 := by
  refine ⟨rfl, ?_, ?_, fun i => lookup_getObject id i s⟩
  · simp only [getObject, Repository.getObject]
    split
    · rfl
    · split
      · rfl
      · rfl
  · simp only [getObject, Repository.getObject]
    split
    · rfl
    · split
      · rfl
      · rfl

theorem get?_of_lookup {id : Int} (h : s.lookup id = some node) :
    s.repository.idToObject.get? id = some node :=
  (Repository.getObject_of_some h).2

theorem get?_getObject {id i : Int} (h : (s.getObject id).2.repository.idToObject.get? i =
    some node) : s.repository.idToObject.get? i = some node := by
  simp only [getObject, Repository.getObject] at h
  split at h
  · exact h
  · split at h
    · exact h
    · rw [Dict.get?_erase] at h
      split at h
      · cases h
      · exact h

theorem Rooted.getObject (h : s.Rooted) (id : Int) : (s.getObject id).2.Rooted :=
  ⟨h.parent_root, fun i hi => h.root_unregistered i (get?_getObject hi),
    fun i n hi => h.below i n (get?_getObject hi)⟩

theorem Rooted.ne_root {id : Int} (h : s.Rooted) (hid : s.lookup id = some node) :
    node ≠ w.root := by
  intro he
  rw [he] at hid
  exact h.root_unregistered id (get?_of_lookup hid)

end

theorem Rooted.getNodeOwner {id : Int} (h : s.Rooted) (hid : s.lookup id = some node) :
    ∃ nodeOwner, s.getNodeOwner node = some nodeOwner := by
  rw [HandlerState.getNodeOwner]
  split
  · next htree =>
    have hbelow := h.below id node (get?_of_lookup hid) htree
    cases hnearest : s.tree.nearest _ node with
    | some nodeOwner => exact ⟨nodeOwner, rfl⟩
    | none =>
      have hnone := List.findSome?_eq_none_iff.1 hnearest _ hbelow
      rw [if_pos (.inl rfl)] at hnone
      cases hnone
  · exact ⟨_, rfl⟩

theorem Rooted.canWeRecv {id : Int} (h : s.Rooted) (hid : s.lookup id = some node)
    (c : ReplicationConfigBase) : ∃ recv, s.canWeRecv c node = some recv := by
  obtain ⟨nodeOwner, howner⟩ := h.getNodeOwner hid
  rw [HandlerState.canWeRecv, howner]
  split
  · exact ⟨_, rfl⟩
  · exact ⟨_, rfl⟩

variable {remotePeer nodeId parentId idx : Int}

theorem no_fault : (none : Option Fault) ≠ some .null := (Option.some_ne_none _).symm

omit [DecidableEq N] in
theorem Unchanged.tree (h : s.Unchanged s') : s'.tree = s.tree := by rw [h.rest]

omit [DecidableEq N] in
theorem Unchanged.fields (h : s.Unchanged s') : s'.fields = s.fields := by rw [h.rest]

theorem reparent_eq_move {F : Forest N} {parent : N} (hparent : F.parent node ≠ none)
    (hpath : node ∉ F.path parent) : reparent node parent F = F.move node parent hpath := by
  have hne : ¬ (F.parent node = none ∨ parent = node) := by
    rintro (hnone | he)
    · exact hparent hnone
    · rw [he] at hpath
      exact hpath (F.self_mem_path node)
  rw [reparent, if_neg hne, dif_neg hpath]

theorem removeChild_eq (hparent : s.tree.parent node ≠ none) :
    s.removeChild node = ({ s with
      tree := s.tree.detach node
      queuedForDeletion := s.queuedForDeletion ++ [node] }, none) := by
  rw [removeChild, if_neg hparent]

theorem nodeReparent_eq (nodeId parentId : Int) (s : HandlerState w) :
    let s₂ := ((s.getObject nodeId).2.getObject parentId).2
    s.nodeReparent nodeId parentId =
      match s.lookup nodeId with
      | none => (s₂, none)
      | some node =>
        if s.tree.parent node = s.lookup parentId then (s₂, none)
        else
          match s.lookup parentId with
          | none => s₂.removeChild node
          | some parent => ({ s₂ with tree := reparent node parent s.tree }, none) := by
  rw [← lookup_getObject nodeId parentId s]
  rfl

/-- A node goes where its parent is. Where the parent is unknown and the node has none, there is
nothing to take it out of. -/
theorem tolerates_nodeReparent (remotePeer nodeId parentId : Int) (s : HandlerState w) :
    s.Tolerates remotePeer (.nodeReparent nodeId parentId) := by
  obtain ⟨s₂, hs₂⟩ : ∃ s₂, s₂ = ((s.getObject nodeId).2.getObject parentId).2 := ⟨_, rfl⟩
  have hsame : s.Unchanged s₂ := by
    rw [hs₂]
    exact (unchanged_getObject nodeId s).trans (unchanged_getObject parentId _)
  have heq := nodeReparent_eq nodeId parentId s
  rw [← hs₂] at heq
  rw [Tolerates, Addressed, handle, heq]
  cases hnode : s.lookup nodeId with
  | none =>
    exact ⟨no_fault, fun _ => hsame, fun h => absurd h Bool.false_ne_true⟩
  | some node =>
    rw [Option.isSome_some]
    simp only [not_true_eq_false, false_implies, true_and, forall_const]
    by_cases hstays : s.tree.parent node = s.lookup parentId
    · rw [if_pos hstays]
      refine ⟨no_fault, fun _ n hn => ?_⟩
      rw [hnode, Option.some.injEq] at hn
      rw [← hn, hsame.tree]
      refine ⟨hstays, fun n _ => rfl, fun hnone hsome => ?_⟩
      rw [hstays] at hsome
      exact absurd hnone hsome
    · rw [if_neg hstays]
      cases hknown : s.lookup parentId with
      | none =>
        have hsome : s₂.tree.parent node ≠ none := by
          rw [hsame.tree, ← hknown]
          exact hstays
        simp only [removeChild_eq hsome]
        refine ⟨no_fault, fun _ n hn => ?_⟩
        rw [hnode, Option.some.injEq] at hn
        rw [← hn, hknown]
        refine ⟨Forest.parent_detach_self, fun m hm => ?_, fun _ _ => ?_⟩
        · change (s₂.tree.detach node).parent m = _
          rw [Forest.parent_detach_of_ne hm, hsame.tree]
        · exact List.mem_append_right _ (List.mem_singleton_self node)
      | some parent =>
        refine ⟨no_fault, fun hfits n hn => ?_⟩
        rw [hnode, Option.some.injEq] at hn
        rw [← hn, hknown]
        obtain ⟨hsome, hpath⟩ := hfits node parent hnode hknown
        simp only [reparent_eq_move hsome hpath]
        refine ⟨if_pos rfl, fun m hm => Forest.parent_move_of_ne hpath hm, fun hnone => ?_⟩
        cases hnone

/-- Where the id is 0, a change of owner is dropped; where it is not, a node is needed. -/
theorem tolerates_setNodeOwner (remotePeer : Int) (bytes : List UInt8) (s : HandlerState w) :
    s.Tolerates remotePeer (.setNodeOwner bytes) ↔ s.Guarded (.setNodeOwner bytes) := by
  obtain ⟨s₁, hs₁⟩ : ∃ s₁, s₁ = (s.getObject (readNodeOwner bytes).1).2 := ⟨_, rfl⟩
  have hsame : s.Unchanged s₁ := by
    rw [hs₁]
    exact unchanged_getObject _ s
  have heq : s.handle remotePeer (.setNodeOwner bytes) =
      if (readNodeOwner bytes).1 = 0 then (s₁, none)
      else
        match s.lookup (readNodeOwner bytes).1 with
        | none => (s₁, some .null)
        | some node =>
          ({ s₁ with
            owner := Function.update s₁.owner node (some (readNodeOwner bytes).2)
            ownerUpdated := s₁.ownerUpdated ++ [node] }, none) := by
    rw [hs₁]
    rfl
  rw [Tolerates, Addressed, Guarded, heq]
  by_cases hzero : (readNodeOwner bytes).1 = 0
  · rw [if_pos hzero]
    cases hnode : s.lookup (readNodeOwner bytes).1 with
    | none =>
      refine iff_of_true ⟨no_fault, fun _ => hsame, fun h => ?_⟩ ?_
      · exact absurd h Bool.false_ne_true
      · exact iff_of_false Bool.false_ne_true (fun hne => hne hzero)
    | some node =>
      refine iff_of_false (fun h => ?_) (fun h => h.1 rfl hzero)
      have hupdated := (h.2.2 rfl trivial node hnode).2
      rw [hsame.rest] at hupdated
      exact List.cons_ne_nil _ _ (List.self_eq_append_right.1 hupdated)
  · rw [if_neg hzero]
    cases hnode : s.lookup (readNodeOwner bytes).1 with
    | none =>
      exact iff_of_false (fun h => h.1 rfl) (fun h => absurd (h.2 hzero) Bool.false_ne_true)
    | some node =>
      refine iff_of_true ⟨no_fault, fun h => absurd rfl h, fun _ _ n hn => ?_⟩
        (iff_of_true rfl hzero)
      rw [hnode, Option.some.injEq] at hn
      rw [← hn, hsame.rest]
      exact ⟨rfl, rfl⟩

theorem emitSignal_spec (s : HandlerState w) (node : N) (c : ReplicationSignalConfig)
    (args : List Variant) : (s.emitSignal node c args).2 ≠ some .null ∧
      (args.length ≤ 8 → (s.emitSignal node c args).1.fields.effects =
        s.fields.effects ++ [.emit node c.name args]) := by
  have hblock := (FieldWorld.setSignalLoopBlock_spec s.fields node c true).1
  rw [emitSignal]
  by_cases hnine : args.length = 9
  · simp only [if_pos hnine]
    refine ⟨fun h => ?_, fun hle => ?_⟩
    · cases h
    · omega
  · simp only [if_neg hnine]
    refine ⟨no_fault, fun hle => ?_⟩
    rw [(FieldWorld.setSignalLoopBlock_spec _ node c false).1, if_pos hle, ← hblock]

theorem tolerates_signalReplicate (h : s.Rooted) (remotePeer nodeId idx : Int)
    (args : List Variant) : s.Tolerates remotePeer (.signalReplicate nodeId idx args) ↔
      s.Guarded (.signalReplicate nodeId idx args) := by
  obtain ⟨s₁, hs₁⟩ : ∃ s₁, s₁ = (s.getObject nodeId).2 := ⟨_, rfl⟩
  have hsame : s.Unchanged s₁ := by
    rw [hs₁]
    exact unchanged_getObject _ s
  have heq : s.handle remotePeer (.signalReplicate nodeId idx args) =
      match s.lookup nodeId with
      | none => (s₁, none)
      | some node =>
        match w.data.freshConfig signalField (w.script node) idx with
        | none => (s₁, some .null)
        | some c =>
          match s.canWeRecv c.toReplicationConfigBase node with
          | none => (s₁, some .null)
          | some false => (s₁, none)
          | some true => s₁.emitSignal node c args := by
    rw [hs₁]
    rfl
  rw [Tolerates, Addressed, Guarded, heq, fieldAt]
  cases hnode : s.lookup nodeId with
  | none =>
    refine iff_of_true ⟨no_fault, fun _ => hsame, fun h => ?_⟩ (.inl rfl)
    exact absurd h Bool.false_ne_true
  | some node =>
    simp only [Option.bind_some]
    cases hconfig : w.data.freshConfig signalField (w.script node) idx with
    | none =>
      refine iff_of_false (fun h => h.1 rfl) ?_
      rintro (h | h)
      · cases h
      · exact absurd h Bool.false_ne_true
    | some c =>
      obtain ⟨recv, hrecv⟩ := h.canWeRecv hnode c.toReplicationConfigBase
      have hfield (n : N) (d : ReplicationSignalConfig)
          (hf : s.fieldAt signalField nodeId idx = some (n, d)) : n = node ∧ d = c := by
        rw [fieldAt, hnode, Option.bind_some, hconfig] at hf
        cases hf
        exact ⟨rfl, rfl⟩
      refine iff_of_true ?_ (.inr rfl)
      simp only [hrecv]
      cases recv with
      | false =>
        refine ⟨no_fault, fun hnot => absurd rfl hnot, fun _ _ n d hf => ?_⟩
        obtain ⟨rfl, rfl⟩ := hfield n d hf
        refine ⟨false, hrecv, ?_⟩
        rw [hsame.rest, if_neg Bool.false_ne_true, List.append_nil]
      | true =>
        obtain ⟨hfault, hemit⟩ := emitSignal_spec s₁ node c args
        refine ⟨hfault, fun hnot => absurd rfl hnot, fun _ hfits n d hf => ?_⟩
        obtain ⟨rfl, rfl⟩ := hfield n d hf
        refine ⟨true, hrecv, ?_⟩
        simp only [hemit hfits, hsame.fields, ↓reduceIte]

theorem propertyInterpolationCache_setConfigCache (fields : FieldState N) (node : N)
    (c : ReplicationPropertyConfig) (value : Variant) :
    (fields.setConfigCache node c value).propertyInterpolationCache =
      fields.propertyInterpolationCache := by
  rw [FieldState.setConfigCache]
  split
  · rfl
  · rfl

theorem applyProperty_takes {c : ReplicationPropertyConfig} {value : Variant}
    (hfits : if c.sync = .request then
      (s.fields.properties node c.name).isArray = true → (w.toArray value).isSome = true
      else s.fields.tweens w.tweenFits node c value = true) :
    (s.applyProperty node c value).2 = true ∧
      Takes node c value s (s.applyProperty node c value).1 := by
  rw [applyProperty, FieldState.applyProperty, Takes]
  by_cases hsync : c.sync = .request
  · rw [if_pos hsync] at hfits
    rw [if_pos hsync, if_pos hsync, Variant.assign]
    by_cases harray : (s.fields.properties node c.name).isArray = true
    · obtain ⟨elements, helements⟩ := Option.isSome_iff_exists.1 (hfits harray)
      rw [if_pos harray, if_pos harray, helements]
      refine ⟨rfl, elements, rfl, ?_⟩
      simp only [FieldState.setProperty, Function.update_self]
    · rw [if_neg harray, if_neg harray]
      refine ⟨rfl, ?_⟩
      simp only [FieldState.setProperty, Function.update_self]
  · rw [if_neg hsync] at hfits
    rw [if_neg hsync, if_neg hsync]
    refine ⟨rfl, ?_⟩
    simp only [propertyInterpolationCache_setConfigCache, FieldState.startPropertyInterpolation,
      if_pos hfits, Dict.get2?_set2, and_self, ↓reduceIte]

theorem applyProperty_eq (s : HandlerState w) (node : N) (c : ReplicationPropertyConfig)
    (value : Variant) : ∃ fields goesOn,
      s.applyProperty node c value = ({ s with fields := fields }, goesOn) :=
  ⟨_, _, rfl⟩

theorem forwardPeers_eq {c : ReplicationPropertyConfig} {nodeOwner : Int}
    (howner : s.getNodeOwner node = some nodeOwner) (peers : List Int) :
    s.forwardPeers remotePeer node c peers = some (peers.filter fun p =>
      p ≠ remotePeer ∧ ¬ (c.getRobns = true ∧ s.getNodeOwner node = some p)) := by
  induction peers with
  | nil => rfl
  | cons peer peers ih =>
    rw [forwardPeers, List.filter_cons]
    by_cases hremote : peer = remotePeer
    · simp [hremote, ih]
    · rw [if_neg hremote, howner, Option.bind_some]
      by_cases hrobns : c.getRobns = true
      · by_cases hsame : peer = nodeOwner
        · simp [hrobns, hsame, howner, ih]
        · simp [hrobns, hsame, hremote, ih, Ne.symm hsame, howner]
      · simp [hrobns, hremote, ih]

theorem forward_eq {nodeOwner : Int} (remotePeer : Int) (c : ReplicationPropertyConfig)
    (howner : s.getNodeOwner node = some nodeOwner) (args : List Variant) :
    s.forward remotePeer node c args =
      ({ s with forwarded := s.forwarded ++ s.forwards remotePeer node c args }, none) := by
  rw [forward, forwards]
  split
  · rw [forwardPeers_eq howner]
  · rw [List.append_nil]

omit [DecidableEq N] in
theorem fieldAt_eq {k : FieldKind C} (hnode : s.lookup nodeId = some node) :
    s.fieldAt k nodeId idx =
      (w.data.freshConfig k (w.script node) idx).map fun c => (node, c) := by
  rw [fieldAt, hnode, Option.bind_some]

/-- `receiveProperties` from the config on. -/
def receiveValue (remotePeer : Int) (node : N) (c : ReplicationPropertyConfig) (value : Variant)
    (args : List Variant) (s : HandlerState w) : HandlerState w × Option Fault :=
  match s.canWeRecv c.toReplicationConfigBase node with
  | none => (s, some .null)
  | some recv =>
    match if recv then s.applyProperty node c value else (s, true) with
    | (s, false) => (s, some .value)
    | (s, true) => s.forward remotePeer node c args

theorem receiveValue_spec (h : s.Rooted) (hnode : s.lookup nodeId = some node) (remotePeer : Int)
    (c : ReplicationPropertyConfig) (value : Variant) (args : List Variant) :
    (s.receiveValue remotePeer node c value args).2 ≠ some .null ∧
      ((if c.sync = .request then
          (s.fields.properties node c.name).isArray = true → (w.toArray value).isSome = true
        else s.fields.tweens w.tweenFits node c value = true) →
        ∃ recv, s.canWeRecv c.toReplicationConfigBase node = some recv ∧
          (recv = true → Takes node c value s (s.receiveValue remotePeer node c value args).1) ∧
            (s.receiveValue remotePeer node c value args).1.forwarded =
              s.forwarded ++ s.forwards remotePeer node c args) := by
  obtain ⟨recv, hrecv⟩ := h.canWeRecv hnode c.toReplicationConfigBase
  obtain ⟨nodeOwner, howner⟩ := h.getNodeOwner hnode
  -- what is taken in changes neither the owners nor the tree
  have hforward (fields : FieldState N) :=
    forward_eq (s := { s with fields := fields }) remotePeer c howner args
  rw [receiveValue, hrecv]
  cases recv with
  | false =>
    simp only [Bool.false_eq_true, ↓reduceIte, hforward s.fields]
    exact ⟨no_fault, fun _ => ⟨false, rfl, fun hfalse => absurd hfalse Bool.false_ne_true, trivial⟩⟩
  | true =>
    obtain ⟨fields, goesOn, happly⟩ := applyProperty_eq s node c value
    simp only [↓reduceIte, happly]
    constructor
    · cases goesOn with
      | false => exact fun hvalue => by cases hvalue
      | true =>
        simp only [hforward fields]
        exact no_fault
    · intro hfits
      obtain ⟨hgoesOn, htakes⟩ := applyProperty_takes hfits
      rw [happly] at hgoesOn htakes
      cases hgoesOn
      simp only [hforward fields]
      exact ⟨true, rfl, fun _ => htakes, rfl⟩

theorem tolerates_receiveProperties (h : s.Rooted) (remotePeer nodeId idx : Int)
    (value : Variant) : s.Tolerates remotePeer (.receiveProperties nodeId idx value) := by
  obtain ⟨s₁, hs₁⟩ : ∃ s₁, s₁ = (s.getObject nodeId).2 := ⟨_, rfl⟩
  have hsame : s.Unchanged s₁ := by
    rw [hs₁]
    exact unchanged_getObject _ s
  have heq : s.handle remotePeer (.receiveProperties nodeId idx value) =
      match s.lookup nodeId with
      | none => (s₁, none)
      | some node =>
        if w.script node = none then (s₁, none)
        else
          match w.data.freshConfig propertyField (w.script node) idx with
          | none => (s₁, none)
          | some c =>
            if c.sync = .once then (s₁, none)
            else s₁.receiveValue remotePeer node c value [.int nodeId, .int idx, value] := by
    rw [hs₁]
    rfl
  rw [Tolerates, Addressed, heq]
  cases hnode : s.lookup nodeId with
  | none =>
    refine ⟨no_fault, fun _ => hsame, fun h => ?_⟩
    rw [fieldAt, hnode] at h
    exact absurd h Bool.false_ne_true
  | some node =>
    rw [fieldAt_eq hnode]
    by_cases hscript : w.script node = none
    · have hnone : w.data.freshConfig propertyField (w.script node) idx = none := by
        rw [hscript]
        rfl
      simp only [if_pos hscript, hnone]
      exact ⟨no_fault, fun _ => hsame, fun h => absurd h Bool.false_ne_true⟩
    simp only [if_neg hscript]
    cases hconfig : w.data.freshConfig propertyField (w.script node) idx with
    | none => exact ⟨no_fault, fun _ => hsame, fun h => absurd h Bool.false_ne_true⟩
    | some c =>
      have hfield (n : N) (d : ReplicationPropertyConfig)
          (hf : s.fieldAt propertyField nodeId idx = some (n, d)) : n = node ∧ d = c := by
        rw [fieldAt_eq hnode, hconfig] at hf
        cases hf
        exact ⟨rfl, rfl⟩
      by_cases honce : c.sync = .once
      · simp only [if_pos honce]
        refine ⟨no_fault, fun hnot => absurd rfl hnot, fun _ _ n d hf hd => ?_⟩
        rw [(hfield n d hf).2] at hd
        exact absurd honce hd
      have hnode₁ : s₁.lookup nodeId = some node := (hsame.lookup nodeId).trans hnode
      have hrooted : s₁.Rooted := hs₁ ▸ h.getObject nodeId
      obtain ⟨hfault, htaken⟩ := receiveValue_spec hrooted hnode₁ remotePeer c value
        [.int nodeId, .int idx, value]
      simp only [if_neg honce]
      refine ⟨hfault, fun hnot => absurd rfl hnot, fun _ hfits n d hf _ => ?_⟩
      have hfits' := hfits n d hf
      obtain ⟨rfl, rfl⟩ := hfield n d hf
      rw [hs₁] at htaken ⊢
      exact htaken hfits'

omit [DecidableEq N] in
theorem Rooted.root_mem_path {n : N} (h : s.Rooted) (hn : w.root ∈ s.tree.path n)
    (hnode : node ∈ s.tree.path n) : w.root ∈ s.tree.path node := by
  rcases Forest.mem_path_total hn hnode with habove | hroot
  · exact habove
  · rw [Forest.path_of_root h.parent_root, List.mem_singleton] at hroot
    rw [hroot]
    exact s.tree.self_mem_path w.root

theorem Rooted.detach (h : s.Rooted) (node : N) (queued : List N) :
    ({ s with tree := s.tree.detach node, queuedForDeletion := queued } :
      HandlerState w).Rooted := by
  apply Rooted.mk
  · change (if w.root = node then none else s.tree.parent w.root) = none
    rw [h.parent_root, ite_self]
  · exact h.root_unregistered
  · intro id n hid hn
    change w.root ∈ (s.tree.detach node).path n at hn
    change w.multiplayerRoot ∈ (s.tree.detach node).path n
    by_cases hnode : node ∈ s.tree.path n
    · rw [Forest.mem_path_detach hnode] at hn
      rw [Forest.path_of_root h.parent_root, List.mem_singleton] at hn
      have hbelow := h.below id n hid hn.1
      rw [Forest.mem_path_detach hnode, hn.2]
      exact ⟨hbelow, h.root_mem_path hn.1 hbelow⟩
    · rw [Forest.path_detach_of_not_mem hnode] at hn ⊢
      exact h.below id n hid hn

/-- What the loop over the removed nodes does in one round. -/
structure Removed (id : Int) (s s' : HandlerState w) : Prop where
  rooted : s'.Rooted
  lookup : ∀ i, s'.lookup i = s.lookup i
  unchanged : s.lookup id = none → s.Unchanged s'
  in_tree : ∀ n, w.root ∈ s'.tree.path n ↔ w.root ∈ s.tree.path n ∧
    ∀ node, s.lookup id = some node → node ∉ s.tree.path n
  path : ∀ n, w.root ∈ s'.tree.path n → s'.tree.path n = s.tree.path n
  queued : ∀ node, s.lookup id = some node → w.root ∈ s.tree.path node →
    node ∈ s'.queuedForDeletion
  kept : ∀ n ∈ s.queuedForDeletion, n ∈ s'.queuedForDeletion

omit [DecidableEq N] in
theorem Removed.of_unchanged {id : Int} (h : s.Rooted) (hrooted : s'.Rooted)
    (hsame : s.Unchanged s')
    (hout : ∀ node, s.lookup id = some node → w.root ∉ s.tree.path node) : Removed id s s' where
  rooted := hrooted
  lookup := hsame.lookup
  unchanged _ := hsame
  in_tree n := by
    rw [hsame.tree]
    constructor
    · intro hn
      exact ⟨hn, fun node hnode hmem => hout node hnode (h.root_mem_path hn hmem)⟩
    · exact fun hn => hn.1
  path n _ := by rw [hsame.tree]
  queued node hnode hin := absurd hin (hout node hnode)
  kept n hn := by
    rw [hsame.rest]
    exact hn

theorem Rooted.not_below {id : Int} {n : N} (h : s.Rooted) (hnode : s.lookup id = some node)
    (hn : w.root ∈ (s.tree.detach node).path n) : node ∉ s.tree.path n := by
  intro hmem
  rw [Forest.mem_path_detach hmem, Forest.path_of_root h.parent_root, List.mem_singleton] at hn
  exact h.ne_root hnode hn.2

theorem Removed.of_detached {id : Int} (h : s.Rooted) (hnode : s.lookup id = some node) :
    Removed id s { s with
      tree := s.tree.detach node
      queuedForDeletion := s.queuedForDeletion ++ [node] } where
  rooted := h.detach node _
  lookup _ := rfl
  unchanged hnone := by
    rw [hnode] at hnone
    cases hnone
  in_tree n := by
    simp only [hnode, Option.some.injEq, forall_eq']
    constructor
    · intro hn
      have hnot := h.not_below hnode hn
      rw [Forest.path_detach_of_not_mem hnot] at hn
      exact ⟨hn, hnot⟩
    · intro hn
      rw [Forest.path_detach_of_not_mem hn.2]
      exact hn.1
  path n hn := Forest.path_detach_of_not_mem (h.not_below hnode hn)
  queued m hm _ := by
    rw [hnode, Option.some.injEq] at hm
    rw [← hm]
    exact List.mem_append_right _ (List.mem_singleton_self node)
  kept n hn := List.mem_append_left _ hn

omit [DecidableEq N] in
theorem Removed.of_getObject {id : Int} (h : Removed id (s.getObject id).2 s') :
    Removed id s s' where
  rooted := h.rooted
  lookup i := (h.lookup i).trans (lookup_getObject id i s)
  unchanged hnone :=
    (unchanged_getObject id s).trans (h.unchanged ((lookup_getObject id id s).trans hnone))
  in_tree n := by
    have hin := h.in_tree n
    rw [lookup_getObject] at hin
    exact hin
  path := h.path
  queued node hnode := h.queued node ((lookup_getObject id id s).trans hnode)
  kept := h.kept

theorem Rooted.removeNode (h : s.Rooted) (id : Int) :
    (s.removeNode id).2 = none ∧ Removed id s (s.removeNode id).1 := by
  have hrooted := h.getObject id
  have hsame := unchanged_getObject id s
  have heq : s.removeNode id =
      match s.lookup id with
      | none => ((s.getObject id).2, none)
      | some node => if w.root ∉ s.tree.path node then ((s.getObject id).2, none)
        else (s.getObject id).2.removeChild node := rfl
  rw [heq]
  cases hnode : s.lookup id with
  | none =>
    refine ⟨rfl, .of_unchanged h hrooted hsame fun node hsome => ?_⟩
    rw [hnode] at hsome
    cases hsome
  | some node =>
    by_cases htree : w.root ∈ s.tree.path node
    · have hparent : (s.getObject id).2.tree.parent node ≠ none := by
        intro hnone
        have hpath : s.tree.path node = [node] := Forest.path_of_root hnone
        rw [hpath, List.mem_singleton] at htree
        exact h.ne_root hnode htree.symm
      simp only [if_neg (not_not_intro htree), removeChild_eq hparent]
      have hnode' := (lookup_getObject id id s).trans hnode
      exact ⟨trivial, (Removed.of_detached hrooted hnode').of_getObject⟩
    · simp only [if_pos htree]
      refine ⟨trivial, .of_unchanged h hrooted hsame fun m hm => ?_⟩
      rw [hnode, Option.some.injEq] at hm
      rw [← hm]
      exact htree

/-- What the whole loop does. -/
structure AllRemoved (ids : List Int) (s s' : HandlerState w) : Prop where
  rooted : s'.Rooted
  unchanged : (∀ id ∈ ids, s.lookup id = none) → s.Unchanged s'
  in_tree : ∀ n, w.root ∈ s'.tree.path n ↔ w.root ∈ s.tree.path n ∧
    ∀ id ∈ ids, ∀ node, s.lookup id = some node → node ∉ s.tree.path n
  queued : ∀ id ∈ ids, ∀ node, s.lookup id = some node → w.root ∈ s.tree.path node →
    ∃ above ∈ s.tree.path node, above ∈ s'.queuedForDeletion
  kept : ∀ n ∈ s.queuedForDeletion, n ∈ s'.queuedForDeletion

omit [DecidableEq N] in
/-- A node that is there still when its turn comes is queued by then, and one that is not has been
cut off with a node above it. -/
theorem Removed.cons {s'' : HandlerState w} {id : Int} {ids : List Int} (h : s.Rooted)
    (hfirst : Removed id s s') (hrest : AllRemoved ids s' s'') :
    AllRemoved (id :: ids) s s'' where
  rooted := hrest.rooted
  unchanged hall := by
    apply (hfirst.unchanged (hall id List.mem_cons_self)).trans
    apply hrest.unchanged
    intro i hi
    rw [hfirst.lookup]
    exact hall i (List.mem_cons_of_mem _ hi)
  in_tree n := by
    rw [hrest.in_tree, List.forall_mem_cons]
    constructor
    · rintro ⟨hn, hlater⟩
      obtain ⟨hn', hcut⟩ := (hfirst.in_tree n).1 hn
      refine ⟨hn', hcut, fun i hi node hnode => ?_⟩
      rw [← hfirst.path n hn]
      exact hlater i hi node ((hfirst.lookup i).trans hnode)
    · rintro ⟨hn, hcut, hlater⟩
      have hin := (hfirst.in_tree n).2 ⟨hn, hcut⟩
      refine ⟨hin, fun i hi node hnode => ?_⟩
      rw [hfirst.path n hin]
      exact hlater i hi node ((hfirst.lookup i).symm.trans hnode)
  queued i hi node hnode hin := by
    by_cases hstill : w.root ∈ s'.tree.path node
    · rcases List.mem_cons.1 hi with he | hi
      · rw [he] at hnode
        exact ⟨node, s.tree.self_mem_path node, hrest.kept node (hfirst.queued node hnode hin)⟩
      · obtain ⟨above, habove, hmem⟩ :=
          hrest.queued i hi node ((hfirst.lookup i).trans hnode) hstill
        rw [hfirst.path node hstill] at habove
        exact ⟨above, habove, hmem⟩
    · rw [hfirst.in_tree, not_and] at hstill
      obtain ⟨above, hlookup, habove⟩ : ∃ above, s.lookup id = some above ∧
          above ∈ s.tree.path node := by
        by_contra hno
        exact hstill hin (fun above hlookup habove => hno ⟨above, hlookup, habove⟩)
      have hqueued := hfirst.queued above hlookup (h.root_mem_path hin habove)
      exact ⟨above, habove, hrest.kept above hqueued⟩
  kept n hn := hrest.kept n (hfirst.kept n hn)

theorem Rooted.removeNodes (h : s.Rooted) (ids : List Int) :
    (s.removeNodes ids).2 = none ∧ AllRemoved ids s (s.removeNodes ids).1 := by
  induction ids generalizing s with
  | nil =>
    refine ⟨rfl, h, fun _ => .refl s, fun n => ?_, ?_, fun n hn => hn⟩
    · simp only [HandlerState.removeNodes, List.not_mem_nil, false_implies, implies_true, and_true]
    · intro id hid
      cases hid
  | cons first ids ih =>
    obtain ⟨hnone, hstep⟩ := h.removeNode first
    have heq : s.removeNodes (first :: ids) = (s.removeNode first).1.removeNodes ids := by
      rw [HandlerState.removeNodes]
      split
      · next hpair => rw [hpair]
      · next hpair =>
        rw [hpair] at hnone
        cases hnone
    obtain ⟨hfault, hrest⟩ := ih hstep.rooted
    rw [heq]
    exact ⟨hfault, hstep.cons h hrest⟩

theorem tolerates_removed (h : s.Rooted) (remotePeer : Int) (ids : List Int) :
    s.Tolerates remotePeer (.removed ids) := by
  obtain ⟨hfault, hall⟩ := h.removeNodes ids
  refine ⟨?_, fun hnot => hall.unchanged fun id hid => ?_, fun _ _ => ⟨hall.in_tree, hall.queued⟩⟩
  · change (s.removeNodes ids).2 ≠ _
    rw [hfault]
    exact no_fault
  · cases hnode : s.lookup id with
    | none => rfl
    | some node => exact absurd ⟨id, hid, by rw [hnode]; rfl⟩ hnot

omit [DecidableEq N] in
theorem Rooted.of_subset (h : s.Rooted) (htree : s'.tree = s.tree)
    (hids : ∀ id n, s'.repository.idToObject.get? id = some n →
      s.repository.idToObject.get? id = some n) : s'.Rooted := by
  apply Rooted.mk
  · rw [htree]
    exact h.parent_root
  · exact fun id hroot => h.root_unregistered id (hids id _ hroot)
  · intro id n hid hn
    rw [htree] at hn ⊢
    exact h.below id n (hids id n hid) hn

theorem Rooted.reparent {parent : N} (h : s.Rooted) (hnode : s.lookup nodeId = some node)
    (hparent : s.lookup parentId = some parent) :
    ({ s with tree := reparent node parent s.tree } : HandlerState w).Rooted := by
  rw [HandlerState.reparent]
  split
  · exact h
  split
  · exact h.detach node s.queuedForDeletion
  next hpath =>
  apply Rooted.mk
  · change (if w.root = node then some parent else s.tree.parent w.root) = none
    rw [if_neg (h.ne_root hnode).symm]
    exact h.parent_root
  · exact h.root_unregistered
  · intro id n hid hn
    change w.root ∈ (s.tree.move node parent hpath).path n at hn
    change w.multiplayerRoot ∈ (s.tree.move node parent hpath).path n
    by_cases hmem : node ∈ s.tree.path n
    · rw [Forest.mem_path_move hmem] at hn ⊢
      rcases hn with ⟨_, habove⟩ | hn
      · rw [Forest.path_of_root h.parent_root, List.mem_singleton] at habove
        exact absurd habove (h.ne_root hnode)
      · exact .inr (h.below parentId parent (get?_of_lookup hparent) hn)
    · rw [Forest.path_move_of_not_mem hmem] at hn ⊢
      exact h.below id n hid hn

theorem Rooted.nodeReparent (h : s.Rooted) (nodeId parentId : Int) :
    (s.nodeReparent nodeId parentId).1.Rooted := by
  have hids (id : Int) (n : N)
      (hid : ((s.getObject nodeId).2.getObject parentId).2.repository.idToObject.get? id =
        some n) : s.repository.idToObject.get? id = some n :=
    get?_getObject (get?_getObject hid)
  rw [nodeReparent_eq]
  cases hnode : s.lookup nodeId with
  | none => exact h.of_subset rfl hids
  | some node =>
    simp only
    split
    · exact h.of_subset rfl hids
    · cases hparent : s.lookup parentId with
      | none =>
        simp only [removeChild]
        split
        · exact h.of_subset rfl hids
        · exact (h.detach node []).of_subset rfl hids
      | some parent => exact (h.reparent hnode hparent).of_subset rfl hids

theorem Rooted.setNodeOwner (h : s.Rooted) (bytes : List UInt8) :
    (s.setNodeOwner bytes).1.Rooted := by
  have hrooted := h.getObject (readNodeOwner bytes).1
  simp only [HandlerState.setNodeOwner]
  split
  · exact hrooted
  · split
    · exact hrooted
    · exact hrooted.of_subset rfl (fun _ _ hid => hid)

theorem Rooted.signalReplicate (h : s.Rooted) (nodeId idx : Int) (args : List Variant) :
    (s.signalReplicate nodeId idx args).1.Rooted := by
  have hrooted := h.getObject nodeId
  have hemit (node : N) (c : ReplicationSignalConfig) :
      ((s.getObject nodeId).2.emitSignal node c args).1.Rooted := by
    simp only [emitSignal]
    split
    · exact hrooted.of_subset rfl (fun _ _ hid => hid)
    · exact hrooted.of_subset rfl (fun _ _ hid => hid)
  simp only [HandlerState.signalReplicate]
  split
  · exact hrooted
  split
  · exact hrooted
  split
  · exact hrooted
  · exact hrooted
  · exact hemit _ _

theorem Rooted.forward (h : s.Rooted) (remotePeer : Int) (node : N)
    (c : ReplicationPropertyConfig) (args : List Variant) :
    (s.forward remotePeer node c args).1.Rooted := by
  rw [HandlerState.forward]
  split
  · simp only
    split
    · exact h
    · exact h.of_subset rfl (fun _ _ hid => hid)
  · exact h

theorem Rooted.applyProperty (h : s.Rooted) (node : N) (c : ReplicationPropertyConfig)
    (value : Variant) : (s.applyProperty node c value).1.Rooted := by
  obtain ⟨fields, goesOn, happly⟩ := applyProperty_eq s node c value
  rw [happly]
  exact h.of_subset rfl (fun _ _ hid => hid)

theorem Rooted.receiveProperties (h : s.Rooted) (remotePeer nodeId idx : Int) (value : Variant) :
    (s.receiveProperties remotePeer nodeId idx value).1.Rooted := by
  have hrooted := h.getObject nodeId
  simp only [HandlerState.receiveProperties]
  split
  · exact hrooted
  split
  · exact hrooted
  split
  · exact hrooted
  split
  · exact hrooted
  split
  · exact hrooted
  · next node _ _ _ c _ _ _ recv _ =>
    have happlied : (if recv then (s.getObject nodeId).2.applyProperty node c value
        else ((s.getObject nodeId).2, true)).1.Rooted := by
      split
      · exact hrooted.applyProperty node c value
      · exact hrooted
    split
    · next happly =>
      rw [happly] at happlied
      exact happlied
    · next happly =>
      rw [happly] at happlied
      exact happlied.forward _ _ _ _

theorem Rooted.handle (h : s.Rooted) (remotePeer : Int) (m : HandlerMessage) :
    (s.handle remotePeer m).1.Rooted := by
  cases m with
  | nodeReparent nodeId parentId => exact h.nodeReparent nodeId parentId
  | setNodeOwner bytes => exact h.setNodeOwner bytes
  | signalReplicate nodeId idx args => exact h.signalReplicate nodeId idx args
  | receiveProperties nodeId idx value => exact h.receiveProperties remotePeer nodeId idx value
  | removed ids => exact (h.removeNodes ids).2.rooted

/-- The messages are handled one after the other, whoever sends them. -/
def run (messages : List (Int × HandlerMessage)) (s : HandlerState w) : HandlerState w :=
  messages.foldl (fun s m => (s.handle m.1 m.2).1) s

theorem Rooted.run (h : s.Rooted) (messages : List (Int × HandlerMessage)) :
    (s.run messages).Rooted := by
  induction messages generalizing s with
  | nil => exact h
  | cons m messages ih => exact ih (h.handle m.1 m.2)

theorem tolerates_of_rooted (h : s.Rooted) (remotePeer : Int) (m : HandlerMessage) :
    s.Tolerates remotePeer m ↔ s.Guarded m := by
  cases m with
  | nodeReparent nodeId parentId =>
    exact iff_of_true (tolerates_nodeReparent remotePeer nodeId parentId s) trivial
  | setNodeOwner bytes => exact tolerates_setNodeOwner remotePeer bytes s
  | signalReplicate nodeId idx args => exact tolerates_signalReplicate h remotePeer nodeId idx args
  | receiveProperties nodeId idx value =>
    exact iff_of_true (tolerates_receiveProperties h remotePeer nodeId idx value) trivial
  | removed ids => exact iff_of_true (tolerates_removed h remotePeer ids) trivial

/-- After any messages the handlers tolerate all others but those about an owner or a signal whose
guard misses: an owner is set for the ids of known nodes but not for the id 0, and null is used for
unknown ids; so it is for a signal that the script of a known node does not have. -/
theorem handlers_tolerate_iff (w : HandlerPeer S N) (s : HandlerState w) (h : s.Rooted)
    (messages : List (Int × HandlerMessage)) (remotePeer : Int) (m : HandlerMessage) :
    (s.run messages).Tolerates remotePeer m ↔ (s.run messages).Guarded m :=
  tolerates_of_rooted (h.run messages) remotePeer m

end HandlerState

/-- Client 2, whose MultiplayerRoot is node 1 below the engine's root, node 0. -/
def handlerPeer : HandlerPeer Unit Nat where
  data := ⟨.discrete, fun _ => none⟩
  script _ := none
  isInstanceValid _ := true
  root := 0
  multiplayerRoot := 1
  localPeer := 2
  observers _ := []
  toArray _ := none
  tweenFits _ _ := true

/-- The MultiplayerRoot has the id 0. -/
def handlerState : HandlerState handlerPeer where
  repository := (Repository.new.addObject 1).2
  tree := Forest.discrete.move 1 0 (by decide)
  queuedForDeletion := []
  owner _ := none
  fields := ⟨.empty, .start, fun _ _ => .null, .empty, .empty, .empty, [], []⟩
  ownerUpdated := []
  forwarded := []

namespace HandlerState

theorem rooted_handlerState : handlerState.Rooted := by
  have hone (id : Int) (node : Nat)
      (hid : handlerState.repository.idToObject.get? id = some node) : node = 1 := by
    change (Dict.empty.set 0 1).get? id = some node at hid
    rw [Dict.get?_set] at hid
    split at hid
    · exact (Option.some.inj hid).symm
    · cases hid
  apply Rooted.mk
  · rfl
  · intro id hid
    cases hone id _ hid
  · intro id node hid _
    rw [hone id node hid]
    exact Forest.self_mem_path _

/-- The id 7 is nobody's. -/
theorem handlers_tolerate_unknown :
    (handlerState.run [(1, .removed [7])]).Tolerates 1 (.nodeReparent 7 0) ↔
      (handlerState.run [(1, .removed [7])]).Guarded (.nodeReparent 7 0) :=
  handlers_tolerate_iff handlerPeer handlerState rooted_handlerState [(1, .removed [7])] 1
    (.nodeReparent 7 0)

/-- A new owner of node 7 arrives where there is none. -/
theorem unknown_node_owner :
    ¬ ∀ (w : HandlerPeer Unit Nat) (s : HandlerState w) (remotePeer : Int) (m : HandlerMessage),
      s.Rooted → s.Tolerates remotePeer m := by
  intro h
  have htolerates := h handlerPeer handlerState 1 (.setNodeOwner [7, 0, 0, 0, 2, 0, 0, 0])
    rooted_handlerState
  exact htolerates.1 (by decide)

end HandlerState

end Godaemon
