import Godaemon.Services.RpcVisibility

namespace Godaemon
set_option autoImplicit true

def clReceiveReliableProperties : ReplicationMethodConfig where
  instanceId := 1
  name := "_cl_receive_reliable_properties"
  sendFilter := 1
  recvFilter := 6

def clReceiveUnreliableProperties : ReplicationMethodConfig where
  instanceId := 2
  name := "_cl_receive_unreliable_properties"
  sendFilter := 1
  recvFilter := 6
  reliable := false

def svReceiveReliableProperties : ReplicationMethodConfig where
  instanceId := 3
  name := "_sv_receive_reliable_properties"
  sendFilter := 6
  recvFilter := 1

def svReceiveUnreliableProperties : ReplicationMethodConfig where
  instanceId := 4
  name := "_sv_receive_unreliable_properties"
  sendFilter := 6
  recvFilter := 1
  reliable := false

/-- The replication of SyncService in the stored data. -/
def syncServiceReplication : ScriptReplication where
  methodConfig := [clReceiveReliableProperties, clReceiveUnreliableProperties,
    svReceiveReliableProperties, svReceiveUnreliableProperties]

def signalReplicateReliable : ReplicationMethodConfig where
  instanceId := 6
  name := "_signal_replicate_reliable"
  sendFilter := 7
  recvFilter := 7

def signalReplicateUnreliable : ReplicationMethodConfig where
  instanceId := 7
  name := "_signal_replicate_unreliable"
  sendFilter := 7
  recvFilter := 7
  reliable := false

/-- The replication of ReplicationService in the stored data. -/
def replicationServiceReplication : ScriptReplication where
  methodConfig := [
    { instanceId := 5, name := "__node_reparent", sendFilter := 1, recvFilter := 7 },
    signalReplicateReliable,
    signalReplicateUnreliable,
    { instanceId := 8, name := "_request_replication", sendFilter := 1, recvFilter := 7 },
    { instanceId := 9, name := "_receive_client_replication_ids", sendFilter := 1,
      recvFilter := 7 },
    { instanceId := 10, name := "_set_node_owner", sendFilter := 1, recvFilter := 6 },
    { instanceId := 11, name := "update_visibility", sendFilter := 1, recvFilter := 6 },
    { instanceId := 12, name := "_ask_missing_id", sendFilter := 1, recvFilter := 7 }]

/-- A node runs a script with this replication, and peers can call its methods. -/
structure RpcWorld.RunsService (world : RpcWorld S N) [DecidableEq N] (tree : ServerTree S N)
    (isInstanceValid : N → Bool) (node : N) (sr : ScriptReplication) : Prop where
  scripts : world.data.getAllScriptReplications (tree.script node) = [sr]
  alive : isInstanceValid node = true
  not_queued : world.isQueuedForDeletion node = false
  has_method : ∀ c ∈ sr.methodConfig, world.hasMethod node c.name = true

/-- The server's SyncService and ReplicationService, and the engine as far as they use it:
the conversions of arguments, and the types that a tween can go between. -/
structure FieldWorld (S N : Type) [DecidableEq N] where
  world : RpcWorld S N
  tree : ServerTree S N
  isInstanceValid : N → Bool
  syncService : N
  replicationService : N
  runs_sync : world.RunsService tree isInstanceValid syncService syncServiceReplication
  runs_replication :
    world.RunsService tree isInstanceValid replicationService replicationServiceReplication
  toInt : Variant → Option Int
  toArray : Variant → Option (List Variant)
  tweenFits : Variant → Variant → Bool
  /-- The nodes whose signals the ReplicationService listens to. -/
  listens : N → ReplicationSignalConfig → Bool

/-- What is done to a node's fields. -/
inductive FieldEffect (N : Type) where
  | set (node : N) (property : String) (value : Variant)
  | interpolate (node : N) (property : String) (value : Variant)
  | emit (node : N) (signal : String) (args : List Variant)

/-- The state of the server that replicated fields depend on, the effects on the fields so far
and the packets sent. The interpolation cache holds where each running tween goes. -/
structure FieldState (N : Type) where
  ratelimits : Ratelimits N
  services : ReplicationService N
  properties : N → String → Variant
  configCache : Dict N (Dict ReplicationPropertyConfig Variant)
  propertyInterpolationCache : Dict N (Dict ReplicationPropertyConfig Variant)
  signalLoopBlock : Dict N (Dict ReplicationSignalConfig Nat)
  effects : List (FieldEffect N)
  commands : List Command

/-- What a peer asks of the two services. -/
inductive FieldMessage where
  | properties (nodeId idx : Int) (value : Variant)
  | signal (nodeId idx : Int) (args : List Variant)

def Variant.isArray : Variant → Bool
  | .array _ => true
  | _ => false

/-- What a property becomes when a value comes for it, and whether the script goes on. `assign`
empties an array before it fails on what is no array. -/
def Variant.assign (toArray : Variant → Option (List Variant)) (current value : Variant) :
    Variant × Bool :=
  if current.isArray then
    match toArray value with
    | some elements => (.array elements, true)
    | none => (.array [], false)
  else (value, true)

/-- The engine's type numbers of floats and of Vector3. -/
def Variant.isAngle : Variant → Bool
  | .other type _ => type = 3 || type = 9
  | _ => false

/-- The method that takes in properties, on the server's side or on the clients'. -/
def getReceiveRpc (server reliable : Bool) : ReplicationMethodConfig :=
  if server then
    if reliable then clReceiveReliableProperties else clReceiveUnreliableProperties
  else
    if reliable then svReceiveReliableProperties else svReceiveUnreliableProperties

namespace FieldState

variable {N : Type} [DecidableEq N] (s : FieldState N)

def setProperty (node : N) (property : String) (value : Variant) : FieldState N :=
  { s with
    properties := Function.update s.properties node
      (Function.update (s.properties node) property value)
    effects := s.effects ++ [.set node property value] }

/-- Only tracked nodes have an entry. -/
def setConfigCache (node : N) (c : ReplicationPropertyConfig) (value : Variant) : FieldState N :=
  match s.configCache.get? node with
  | some cache => { s with configCache := s.configCache.set node (cache.set c value) }
  | none => s

def endPropertyInterpolation (node : N) (c : ReplicationPropertyConfig) : FieldState N :=
  match s.propertyInterpolationCache.get? node with
  | some cache =>
    { s with
      propertyInterpolationCache := s.propertyInterpolationCache.set node (cache.erase c) }
  | none => s

/-- Can a tween go to this value? -/
def tweens (tweenFits : Variant → Variant → Bool) (node : N) (c : ReplicationPropertyConfig)
    (value : Variant) : Bool :=
  if c.getAngularLerp then value.isAngle else tweenFits (s.properties node c.name) value

/-- A tween takes the place of the one that is running. It fails to start on a value of a wrong
type, a failed assertion ending the function. -/
def startPropertyInterpolation (tweenFits : Variant → Variant → Bool) (node : N)
    (c : ReplicationPropertyConfig) (value : Variant) : FieldState N :=
  let t := s.endPropertyInterpolation node c
  if s.tweens tweenFits node c value then { t with
    propertyInterpolationCache := t.propertyInterpolationCache.set2 node c value
    effects := t.effects ++ [.interpolate node c.name value] }
  else t

/-- The part of `_receive_properties` that takes a value in, and whether the script goes on. -/
def applyProperty (toArray : Variant → Option (List Variant)) (tweenFits : Variant → Variant → Bool)
    (node : N) (c : ReplicationPropertyConfig) (value : Variant) : FieldState N × Bool :=
  if c.sync = .request then
    let (result, goesOn) := (s.properties node c.name).assign toArray value
    (s.setProperty node c.name result, goesOn)
  else ((s.startPropertyInterpolation tweenFits node c value).setConfigCache node c value, true)

def setSignalLoopBlock (node : N) (c : ReplicationSignalConfig) (block : Bool) : FieldState N :=
  let blocks := s.signalLoopBlock.getD node .empty
  let count := blocks.getD c 0
  if block then
    { s with signalLoopBlock := s.signalLoopBlock.set node (blocks.set c (count + 1)) }
  else if c ∉ blocks then s
  else if count > 1 then
    { s with signalLoopBlock := s.signalLoopBlock.set node (blocks.set c (count - 1)) }
  else if (blocks.erase c).size = 0 then
    { s with signalLoopBlock := s.signalLoopBlock.erase node }
  else { s with signalLoopBlock := s.signalLoopBlock.set node (blocks.erase c) }

def isSignalLoopBlocked (node : N) (c : ReplicationSignalConfig) : Bool :=
  (s.signalLoopBlock.get2? node c).isSome

end FieldState

namespace FieldWorld

variable {S N : Type} [DecidableEq N] (w : FieldWorld S N)

def api (s : FieldState N) : RpcApi S N (ReplicationService N) :=
  w.world.serverApi w.tree w.isInstanceValid s.services.peers

def rpcState (s : FieldState N) : RpcState N (ReplicationService N) :=
  .idle w.tree.repository s.ratelimits s.services

def owner (node : N) : Int := w.tree.getNodeOwner w.world.owner node

/-- An RPC by a service. None of the methods that they send is called locally. -/
def send (peer : Int) (object : N) (method : String) (args : List Variant) (s : FieldState N) :
    FieldState N :=
  let rpc := ((w.api s).outboundRpc peer object method args (w.rpcState s)).2
  { s with
    ratelimits := rpc.peerConfigRatelimits
    services := rpc.services
    commands := s.commands ++ rpc.commands }

/-- The loops of the senders: an RPC to each peer of a list that a test lets through. -/
def sendEach (passes : Int → Bool) (rpc : ReplicationMethodConfig) (args : List Variant)
    (peers : List Int) (s : FieldState N) : FieldState N :=
  (peers.filter passes).foldl (fun s p => w.send p w.syncService rpc.name args s) s

/-- The field that a message is about. A node without a script has no fields. -/
def fieldAt (k : FieldKind C) (nodeId idx : Int) : Option (N × C) :=
  match (w.tree.repository.getObject w.isInstanceValid nodeId).1 with
  | none => none
  | some node => (w.world.data.freshConfig k (w.tree.script node) idx).map (fun c => (node, c))

/-- The server takes a property in. -/
def applyProperty (node : N) (c : ReplicationPropertyConfig) (value : Variant)
    (s : FieldState N) : FieldState N × Bool :=
  if !c.canTheyRecv (w.owner node) 1 then (s, true)
  else s.applyProperty w.toArray w.tweenFits node c value

/-- Send a property on to those observers that it does not come from and that may have it. -/
def forwardProperty (remotePeer : Int) (node : N) (c : ReplicationPropertyConfig)
    (args : List Variant) : List Int → FieldState N → FieldState N
  | [], s => s
  | peer :: peers, s =>
    if peer = remotePeer ∨ c.getRobns = true ∧ peer = w.owner node then
      forwardProperty remotePeer node c args peers s
    else
      let rpc := getReceiveRpc true (if c.sync ≠ .smooth then c.reliable else false)
      forwardProperty remotePeer node c args peers (w.send peer w.syncService rpc.name args s)

def receiveProperties (remotePeer nodeId idx : Int) (value : Variant) (s : FieldState N) :
    FieldState N :=
  match w.fieldAt propertyField nodeId idx with
  | none => s
  | some (node, c) =>
    if c.sync = .once then s
    else
      match w.applyProperty node c value s with
      | (s, false) => s
      | (s, true) =>
        let (peers, services) := s.services.getObservingPeers w.tree node
        w.forwardProperty remotePeer node c [.int nodeId, .int idx, value] peers
          { s with services := services }

/-- The ReplicationService's listener on a signal. -/
def onSignalEmit (node : N) (c : ReplicationSignalConfig) (args : List Variant)
    (s : FieldState N) : FieldState N :=
  if s.isSignalLoopBlocked node c then s
  else if c.argCount ≥ 9 then s
  else
    let args := (List.range c.argCount).map (fun i => args.getD i .null)
    let idx := w.world.data.freshIdx signalField (w.tree.script node) c
    if idx = -1 then s
    else
      let (peers, services) := s.services.getObservingPeers w.tree node
      let rpc := if c.reliable then signalReplicateReliable else signalReplicateUnreliable
      (peers.filter (fun p => c.canTheyRecv (w.owner node) p)).foldl
        (fun s p => w.send p w.replicationService rpc.name
          [.int (w.tree.repository.getId node), .int idx, .array args] s)
        { s with services := services }

def emitSignal (node : N) (c : ReplicationSignalConfig) (args : List Variant)
    (s : FieldState N) : FieldState N :=
  let s := { s with
    effects := s.effects ++ [.emit node c.name args] }
  if w.listens node c then w.onSignalEmit node c args s else s

/-- The source has a case for each number of arguments up to 8, and asserts on 9. -/
def signalReplicate (nodeId idx : Int) (args : List Variant) (s : FieldState N) :
    FieldState N :=
  match w.fieldAt signalField nodeId idx with
  | none => s
  | some (node, c) =>
    if !c.canTheyRecv (w.owner node) 1 then s
    else
      let s := s.setSignalLoopBlock node c true
      if args.length = 9 then s
      else
        let s := if args.length ≤ 8 then w.emitSignal node c args s else s
        s.setSignalLoopBlock node c false

/-- What a call of a service's method asks for, once its arguments have the declared types. -/
def message (object : N) (method : String) (args : List Variant) : Option FieldMessage :=
  match args with
  | [nodeId, idx, value] =>
    if object = w.syncService then
      if method ∈ syncServiceReplication.methodConfig.map (fun c => c.name) then
        (w.toInt nodeId).bind fun nodeId => (w.toInt idx).map fun idx =>
          .properties nodeId idx value
      else none
    else if object = w.replicationService then
      if method ∈ [signalReplicateReliable.name, signalReplicateUnreliable.name] then
        (w.toInt nodeId).bind fun nodeId => (w.toInt idx).bind fun idx =>
          (w.toArray value).map fun args => .signal nodeId idx args
      else none
    else none
  | _ => none

def handle (remotePeer : Int) (m : FieldMessage) (s : FieldState N) : FieldState N :=
  match m with
  | .properties nodeId idx value => w.receiveProperties remotePeer nodeId idx value s
  | .signal nodeId idx args => w.signalReplicate nodeId idx args s

def runCall (s : FieldState N) (call : RpcCall N) : FieldState N :=
  match w.message call.object call.method call.args with
  | none => s
  | some m => w.handle call.remoteSender m s

/-- The server takes in a packet, and the two services do what it calls. -/
def recv (client : Int) (bytes : List UInt8) (s : FieldState N) : FieldState N :=
  let rpc := (w.api s).inboundRpc client bytes (w.rpcState s)
  rpc.calls.foldl w.runCall { s with
    ratelimits := rpc.peerConfigRatelimits
    services := rpc.services
    commands := s.commands ++ rpc.commands }

end FieldWorld

end Godaemon
