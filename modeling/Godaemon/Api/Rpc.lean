import Godaemon.Api.RpcPacket
import Godaemon.Replication.WireIndex
import Godaemon.Tree
import Godaemon.Util.RateLimiter

namespace Godaemon
set_option autoImplicit true

/-- A method that the RPC layer has run, and the peer that it ran it for. -/
structure RpcCall (N : Type) where
  object : N
  method : String
  args : List Variant
  remoteSender : Int

/-- A packet handed to the transport, with its command byte at the end. -/
structure Command where
  peer : Int
  bytes : List UInt8
  transferMode : TransferMode
  channel : Int
  deriving DecidableEq

inductive NetCommand where
  | raw
  | rpc
  deriving DecidableEq

def NetCommand.byte : NetCommand → UInt8
  | .raw => 0
  | .rpc => 1

/-- The results of a send. -/
inductive Error where
  | ok
  | cantResolve
  | busy
  | bug
  | unconfigured
  | unavailable
  deriving DecidableEq

/-- The functions that services install. They act on the state `σ` of the services. -/
structure RpcHooks (N σ : Type) where
  channelModifiers : List (Int → N → TransferMode → σ → Int × σ) := []
  targetPeerModifiers :
    List (Int → List Int → N → String → List Variant → σ → List Int × σ) := []
  outboundFilters : List (Int → Int → N → String → List Variant → σ → Bool × σ) := []
  inboundFilters : List (Int → Int → N → String → List Variant → σ → Bool × σ) := []

/-- What the RPC layer of a peer sees around it while it handles one packet or one call. All
objects are nodes. -/
structure RpcApi (S N σ : Type) where
  uniqueId : Int
  peers : List Int
  tree : SceneTree S N
  owner : N → Option Int
  data : ReplicationData S
  codec : VariantCodec
  hasMethod : N → String → Bool
  isInstanceValid : N → Bool
  isQueuedForDeletion : N → Bool
  objectChannels : N → Option Int
  time : ℚ
  hooks : RpcHooks N σ

abbrev Ratelimits (N : Type) := Dict Int (Dict N (Dict ReplicationMethodConfig RateLimiter))

/-- The state of the RPC layer, and what it has done: the methods it has run and the packets it
has sent. -/
structure RpcState (N σ : Type) where
  repository : Repository N
  peerConfigRatelimits : Ratelimits N
  services : σ
  remoteSender : Int
  srsOverride : Int
  calls : List (RpcCall N)
  commands : List Command

namespace RpcState

/-- The state between packets. -/
def idle (repository : Repository N) (peerConfigRatelimits : Ratelimits N) (services : σ) :
    RpcState N σ :=
  ⟨repository, peerConfigRatelimits, services, 0, 0, [], []⟩

def call (s : RpcState N σ) (object : N) (method : String) (args : List Variant) :
    RpcState N σ :=
  { s with calls := s.calls ++ [⟨object, method, args, s.remoteSender⟩] }

def sendCommand (s : RpcState N σ) (command : NetCommand) (bytes : List UInt8) (id : Int)
    (mode : TransferMode) (channel : Int) : RpcState N σ :=
  { s with commands := s.commands ++ [⟨id, bytes ++ [command.byte], mode, channel⟩] }

end RpcState

namespace RpcApi

variable {S N σ : Type} [DecidableEq N] (api : RpcApi S N σ)

def isServer : Bool := api.uniqueId = 1

def isClient : Bool := api.uniqueId ≠ 1

def getNodeOwner (object : N) : Int := api.tree.getNodeOwner api.owner object

/-- All filters must let a packet through; the first one that does not ends the test. -/
def runFilters (fromPeer toPeer : Int) (object : N) (method : String) (args : List Variant) :
    List (Int → Int → N → String → List Variant → σ → Bool × σ) → σ → Bool × σ
  | [], services => (true, services)
  | filter :: filters, services =>
    match filter fromPeer toPeer object method args services with
    | (true, services) => runFilters fromPeer toPeer object method args filters services
    | (false, services) => (false, services)

def modifyTargets (fromPeer : Int) (object : N) (method : String) (args : List Variant) :
    List (Int → List Int → N → String → List Variant → σ → List Int × σ) → List Int → σ →
      List Int × σ
  | [], targetPeers, services => (targetPeers, services)
  | modifier :: modifiers, targetPeers, services =>
    let (targetPeers, services) := modifier fromPeer targetPeers object method args services
    modifyTargets fromPeer object method args modifiers targetPeers services

def modifyChannel (object : N) (mode : TransferMode) :
    List (Int → N → TransferMode → σ → Int × σ) → Int → σ → Int × σ
  | [], channel, services => (channel, services)
  | modifier :: modifiers, channel, services =>
    let (channel, services) := modifier channel object mode services
    modifyChannel object mode modifiers channel services

/-- Who an RPC with this target is for. Only the server resolves broadcasts, and leaves out the
peers that may not receive. -/
def targetPeers (peer : Int) (object : N) (config : ReplicationMethodConfig) : List Int :=
  if api.isServer then
    let targetPeers :=
      if peer ≤ 0 then (if peer < 0 then api.peers.erase (-peer) else api.peers) else [peer]
    targetPeers.filter (fun p => config.canTheyRecv (api.getNodeOwner object) p)
  else [peer]

/-- Send a packet to each target but the sender. -/
def sendRpcs (fromPeer : Int) (object : N) (method : String) (methodIdx : Int)
    (args : List Variant) (mode : TransferMode) (channel : Int) :
    List Int → RpcState N σ → RpcState N σ
  | [], s => s
  | toPeer :: targets, s =>
    if toPeer = fromPeer then
      sendRpcs fromPeer object method methodIdx args mode channel targets s
    else
      let (passed, services) :=
        runFilters fromPeer toPeer object method args api.hooks.outboundFilters s.services
      let s := { s with services := services }
      if !passed then sendRpcs fromPeer object method methodIdx args mode channel targets s
      else
        let bytes := compressRpc api.codec api.isServer fromPeer toPeer
          (s.repository.getId object) methodIdx args
        if bytes = [] then
          sendRpcs fromPeer object method methodIdx args mode channel targets s
        else
          sendRpcs fromPeer object method methodIdx args mode channel targets
            (s.sendCommand .rpc bytes (if api.isClient then 1 else toPeer) mode channel)

/-- The call on the sending side, unless the server is only forwarding. -/
def callLocal (object : N) (config : ReplicationMethodConfig) (args : List Variant)
    (s : RpcState N σ) : RpcState N σ :=
  if config.getCallLocal && (api.isClient || s.srsOverride = 0) then
    { { s with remoteSender := api.uniqueId }.call object config.name args with
      remoteSender := 0 }
  else s

/-- The method and the index that an RPC on an object is sent with, or why it is not sent. -/
def resolveRpc (object : N) (method : String) (s : RpcState N σ) :
    Except Error (ReplicationMethodConfig × Int) :=
  if !api.isInstanceValid object then .error .cantResolve
  else if s.repository.getId object = -1 then .error .cantResolve
  else if api.isQueuedForDeletion object then .error .busy
  else
    match api.tree.script object with
    | none => .error .bug
    | some script =>
      match api.data.objectToConfig methodField (some script) method with
      | none => .error .unconfigured
      | some config =>
        if !config.canTheySend (api.getNodeOwner object) api.uniqueId && !api.isServer then
          .error .unconfigured
        else
          let methodIdx := api.data.freshIdx methodField (some script) config
          if methodIdx ≥ maxRpcMethods ∨ methodIdx = -1 then .error .unconfigured
          else if !api.hasMethod object method then .error .unavailable
          else .ok (config, methodIdx)

def outboundRpc (peer : Int) (object : N) (method : String) (args : List Variant)
    (s : RpcState N σ) : Error × RpcState N σ :=
  match api.resolveRpc object method s with
  | .error error => (error, s)
  | .ok (config, methodIdx) =>
    let fromPeer := if s.srsOverride ≠ 0 then s.srsOverride else api.uniqueId
    let mode := config.getTransferMode
    let (channel, services) := modifyChannel object mode api.hooks.channelModifiers
      ((api.objectChannels object).getD 0) s.services
    let (targetPeers, services) := modifyTargets fromPeer object method args
      api.hooks.targetPeerModifiers (api.targetPeers peer object config) services
    let s := api.sendRpcs fromPeer object method methodIdx args mode channel targetPeers
      { s with services := services }
    (.ok, api.callLocal object config args s)

/-- Has the peer room for another call of the method on the object? The call is counted. -/
def checkRpcRatelimit (peer : Int) (object : N) (config : ReplicationMethodConfig)
    (s : RpcState N σ) : Bool × RpcState N σ :=
  if |config.ratelimit| < 1 / 100000 then (true, s)
  else
    let objects := s.peerConfigRatelimits.getD peer .empty
    let configs := objects.getD object .empty
    let rl := configs.getD config { count := 1, duration := config.ratelimit }
    let (result, rl) := rl.check api.time peer
    (result, { s with
      peerConfigRatelimits :=
        s.peerConfigRatelimits.set peer (objects.set object (configs.set config rl)) })

/-- Send a call that a client broadcasts on to every other peer but the skipped one. -/
def forwardRpc (fromPeer skipPeer : Int) (object : N) (config : ReplicationMethodConfig)
    (args : List Variant) : List Int → RpcState N σ → RpcState N σ
  | [], s => s
  | p :: peers, s =>
    if p = skipPeer ∨ p = 1 ∨ p = fromPeer then
      forwardRpc fromPeer skipPeer object config args peers s
    else
      let (passed, services) :=
        if skipPeer > 0 then
          runFilters fromPeer p object config.name args api.hooks.inboundFilters s.services
        else (true, s.services)
      let s := { s with services := services }
      if passed && config.canTheyRecv (api.getNodeOwner object) p then
        forwardRpc fromPeer skipPeer object config args peers
          (api.outboundRpc p object config.name args s).2
      else forwardRpc fromPeer skipPeer object config args peers s

/-- Run an accepted call, or send it on to whom it is for. -/
def routeRpc (id fromPeer toPeer : Int) (object : N) (config : ReplicationMethodConfig)
    (args : List Variant) (s : RpcState N σ) : RpcState N σ :=
  if toPeer = 1 then
    if config.getRecvFilterFlag .server then s.call object config.name args else s
  else if id = 1 then s.call object config.name args
  else if toPeer > 0 then
    if config.canTheyRecv (api.getNodeOwner object) toPeer then
      { (api.outboundRpc toPeer object config.name args { s with srsOverride := fromPeer }).2 with
        srsOverride := 0 }
    else s
  else
    let skipPeer := -toPeer
    let s :=
      if skipPeer ≠ 1 ∧ config.getRecvFilterFlag .server = true then s.call object config.name args
      else s
    { api.forwardRpc fromPeer skipPeer object config args api.peers
        { s with srsOverride := fromPeer } with
      srsOverride := 0 }

/-- The method of an object that an index stands for. -/
def methodAt (object : N) (methodIdx : Int) : Option ReplicationMethodConfig :=
  match api.tree.script object with
  | none => none
  | some script =>
    match api.data.freshConfig methodField (some script) methodIdx with
    | none => none
    | some config => if api.hasMethod object config.name then some config else none

/-- What a packet calls: the fields of the packet, the object, and the config of the method. -/
def findRpc (id : Int) (bytes : List UInt8) (s : RpcState N σ) :
    Option (RpcData × N × ReplicationMethodConfig) × RpcState N σ :=
  match decompressRpc api.codec api.isClient id bytes with
  | none => (none, s)
  | some data =>
    let (object, repository) := s.repository.getObject api.isInstanceValid data.objectId
    let s := { s with repository := repository }
    match object with
    | none => (none, s)
    | some object =>
      match api.methodAt object data.methodIdx with
      | none => (none, s)
      | some config => (some (data, object, config), s)

def inboundRpc (id : Int) (bytes : List UInt8) (s : RpcState N σ) : RpcState N σ :=
  match api.findRpc id bytes s with
  | (none, s) => s
  | (some (data, object, config), s) =>
    if api.isServer && !config.canTheySend (api.getNodeOwner object) data.fromPeer then s
    else
      let (passed, s) := api.checkRpcRatelimit data.fromPeer object config s
      if !passed then s
      else
        let (passed, services) := runFilters data.fromPeer data.toPeer object config.name
          data.args api.hooks.inboundFilters s.services
        let s := { s with services := services }
        if !passed then s
        else
          { api.routeRpc id data.fromPeer data.toPeer object config data.args
              { s with remoteSender := data.fromPeer } with
            remoteSender := 0 }

/-- A packet as it comes from the transport, its last byte being the command. -/
def recvCommand (id : Int) (bytes : List UInt8) (s : RpcState N σ) : RpcState N σ :=
  if bytes.getLast? = some NetCommand.rpc.byte then api.inboundRpc id bytes.dropLast s else s

variable {api} {s s' : RpcState N σ} {id : Int} {data : RpcData}

omit [DecidableEq N] in
theorem findRpc_some (h : api.findRpc id bytes s = (some (data, object, config), s')) :
    s' = s ∧ decompressRpc api.codec api.isClient id bytes = some data ∧
      s.repository.idToObject.get? data.objectId = some object ∧
      api.methodAt object data.methodIdx = some config := by
  simp only [findRpc] at h
  cases hdata : decompressRpc api.codec api.isClient id bytes with
  | none =>
    rw [hdata] at h
    cases h
  | some found =>
    simp only [hdata] at h
    cases hobject : (s.repository.getObject api.isInstanceValid found.objectId).1 with
    | none =>
      rw [hobject] at h
      cases h
    | some n =>
      obtain ⟨hget, hmap⟩ := Repository.getObject_of_some hobject
      simp only [hget] at h
      cases hmethod : api.methodAt n found.methodIdx with
      | none =>
        rw [hmethod] at h
        cases h
      | some c =>
        rw [hmethod] at h
        cases h
        exact ⟨rfl, rfl, hmap, hmethod⟩

omit [DecidableEq N] in
theorem findRpc_of_object (api : RpcApi S N σ) (s : RpcState N σ)
    (hdata : decompressRpc api.codec api.isClient id bytes = some data)
    (hobject : (s.repository.getObject api.isInstanceValid data.objectId).1 = some object) :
    api.findRpc id bytes s =
      ((api.methodAt object data.methodIdx).map (fun config => (data, object, config)), s) := by
  simp only [findRpc, hdata, (Repository.getObject_of_some hobject).1]
  cases api.methodAt object data.methodIdx <;> rfl

theorem checkRpcRatelimit_state (api : RpcApi S N σ) (s : RpcState N σ) (peer : Int) (object : N)
    (config : ReplicationMethodConfig) : ∃ ratelimits,
    (api.checkRpcRatelimit peer object config s).2 =
      { s with peerConfigRatelimits := ratelimits } := by
  simp only [checkRpcRatelimit]
  split
  · exact ⟨_, rfl⟩
  · exact ⟨_, rfl⟩

end RpcApi

/-- One script with one method, which everyone may call and receive. -/
def pingData : ReplicationData Unit where
  scripts := .discrete
  scriptReplicationMap := fun _ =>
    some { methodConfig := [{ instanceId := 0, name := "ping", sendFilter := 7 }] }

end Godaemon
