import Godaemon.Lib.Dict
import Godaemon.Lib.Runs
import Godaemon.Steam.SteamConnection

namespace Godaemon
set_option autoImplicit true

inductive SteamMode where
  | none
  | server
  | client
  deriving DecidableEq

inductive MultiplayerPeer.ConnectionStatus where
  | disconnected
  | connecting
  | connected
  deriving DecidableEq

inductive SteamError where
  | ok
  | unconfigured
  | invalidParameter
  | alreadyInUse
  | cantOpen
  | cantCreate
  | cantConnect
  | bug
  deriving DecidableEq

/-- The states of a connection at Steam. -/
inductive ConnectionState where
  | none
  | connecting
  | findingRoute
  | connected
  | closedByPeer
  | problemDetectedLocally
  | finWait
  | linger
  | dead
  deriving DecidableEq

/-- What Steam posts when a connection changes its state, with Steam's answers to what the callback
asks of it. -/
structure StatusChange where
  handle : SteamHandle
  listenSocket : SteamHandle
  identityRemote : SteamId
  userData : Int
  oldState : ConnectionState
  state : ConnectionState
  closes : Bool
  raw : Nat → Bool

/-- What a change of state comes to. -/
inductive StatusKind where
  | ignored
  | made
  | closed
  deriving DecidableEq

/-- A message that Steam delivers on a connection. -/
structure SteamMessage where
  data : List UInt8
  flags : Nat
  deriving DecidableEq

/-- A packet with its sender, and the peer id that the sender's connection had when it came. -/
structure IncomingPacket extends SteamPacketPeer where
  sender : SteamId
  peerId : SteamPeerId
  deriving DecidableEq

/-- A signal, with the handle of the connection that it is emitted for. -/
inductive PeerSignal where
  | peerConnected (handle : SteamHandle) (peer : SteamPeerId)
  | peerDisconnected (handle : SteamHandle) (peer : SteamPeerId)
  deriving DecidableEq

/-- The ids that `generate_unique_id` makes for clients. -/
def ClientId : Type := { id : SteamPeerId // 1 < id.toNat ∧ id.toNat < 2 ^ 31 }

theorem ClientId.ne_server (id : ClientId) : id.1 ≠ .server := by
  intro he
  have hone := id.2.1
  rw [he] at hone
  exact absurd hone (by decide)

theorem ClientId.ne_unset (id : ClientId) : id.1 ≠ .unset := by
  intro he
  have hlt := id.2.2
  rw [he] at hlt
  exact absurd hlt (by decide)

/-- A peer of a session. Connections are shared between its tables, which hold references to
them. -/
structure SteamMultiplayerPeer where
  /-- The Steam id of the user who runs the program. -/
  user : SteamId
  activeMode : SteamMode
  uniqueId : SteamPeerId
  connectionStatus : MultiplayerPeer.ConnectionStatus
  targetPeer : SteamPeerId
  transferMode : MultiplayerPeer.TransferMode
  noNagle : Bool
  noDelay : Bool
  heap : Nat → SteamConnection
  allocated : Nat
  connectionsBySteamId64 : Dict SteamId Nat
  peerIdToSteamId : Dict SteamPeerId Nat
  loopbackConnectionsBySteamId64 : Dict SteamId Nat
  listenSocket : SteamHandle
  connection : SteamHandle
  isLoopbackClient : Bool
  incomingPackets : List IncomingPacket
  signals : List PeerSignal
  /-- What has been handed over to Steam. -/
  sent : List (SteamHandle × SteamPacketPeer)

namespace SteamMultiplayerPeer

variable (s : SteamMultiplayerPeer)

def fresh (user : SteamId) : SteamMultiplayerPeer where
  user := user
  activeMode := .none
  uniqueId := 0
  connectionStatus := .disconnected
  targetPeer := -1
  transferMode := .reliable
  noNagle := false
  noDelay := false
  heap _ := .new 0 .invalid
  allocated := 0
  connectionsBySteamId64 := .empty
  peerIdToSteamId := .empty
  loopbackConnectionsBySteamId64 := .empty
  listenSocket := .invalid
  connection := .invalid
  isLoopbackClient := false
  incomingPackets := []
  signals := []
  sent := []

def isActive : Bool := s.activeMode ≠ .none

def isServer : Bool := s.uniqueId = .server

def getConnectionByPeer (peer : SteamPeerId) : Option Nat := s.peerIdToSteamId.get? peer

def getPeerIdFromSteam64 (id : SteamId) : SteamPeerId :=
  if id = s.user then s.uniqueId
  else
    match s.connectionsBySteamId64.get? id with
    | some ref => (s.heap ref).peerId
    | none => .unset

def emitSignal (signal : PeerSignal) : SteamMultiplayerPeer :=
  { s with
    signals := s.signals ++ [signal] }

/-- Send on one connection. -/
def sendOn (ref : Nat) (result : List SteamPacketPeer × SteamConnection) :
    SteamMultiplayerPeer :=
  { s with
    heap := Function.update s.heap ref result.2
    sent := s.sent ++ result.1.map (fun packet => ((s.heap ref).handle, packet)) }

/-- Nobody can connect to himself. -/
def addConnection (id : SteamId) (handle : SteamHandle) : Option Nat × SteamMultiplayerPeer :=
  if id = s.user then (none, s)
  else (some s.allocated, { s with
    heap := Function.update s.heap s.allocated (.new id handle)
    allocated := s.allocated + 1
    connectionsBySteamId64 := s.connectionsBySteamId64.set id s.allocated })

def setSteamIdPeer (id : SteamId) (peer : SteamPeerId) : SteamMultiplayerPeer :=
  if id = s.user then s
  else
    match s.connectionsBySteamId64.get? id with
    | none => s
    | some ref =>
      if (s.heap ref).peerId = .unset then { s with
        heap := Function.update s.heap ref { s.heap ref with
          peerId := peer }
        peerIdToSteamId := s.peerIdToSteamId.set peer ref }
      else s

/-- The peer id of the connection in the table. -/
def peerIdOf (id : SteamId) : Option SteamPeerId :=
  (s.connectionsBySteamId64.get? id).map (fun ref => (s.heap ref).peerId)

def processMessage (id : SteamId) (msg : SteamMessage) : SteamMultiplayerPeer :=
  if maxSteamPacketSize < msg.data.length then s
  else { s with
    incomingPackets := s.incomingPackets ++ [{
      data := msg.data
      transferMode := msg.flags
      sender := id
      peerId := (s.peerIdOf id).getD .unset }] }

/-- A message on a connection that has no peer id yet. The host answers with its own id. -/
def processPing (id : SteamId) (msg : SteamMessage) (raw : Nat → Bool) : SteamMultiplayerPeer :=
  if msg.data.length ≠ 4 then s
  else
    match s.connectionsBySteamId64.get? id with
    | none => s -- does not happen: the connection that the message came on is there
    | some ref =>
      let peer := readSetupPeerPayload msg.data
      if peer = .unset then s
      else
        let s := if (s.heap ref).peerId = .unset then s.setSteamIdPeer id peer else s
        let s := if s.isServer then s.sendOn ref ((s.heap ref).sendPeer s.uniqueId raw) else s
        s.emitSignal (.peerConnected (s.heap ref).handle (s.heap ref).peerId)

/-- A message arrives on the connection of an entry, whose key is the id of the sender. -/
def receive (id : SteamId) (msg : SteamMessage) (raw : Nat → Bool) : SteamMultiplayerPeer :=
  if !s.isActive then s
  else if id ∉ s.connectionsBySteamId64 then s
  else if s.getPeerIdFromSteam64 id ≠ .unset then s.processMessage id msg
  else s.processPing id msg raw

def getPacket : SteamMultiplayerPeer :=
  { s with
    incomingPackets := s.incomingPackets.tail }

/-- The peer id of the front packet's sender. The lookup in a constant table fails for a key that
it does not have. -/
def getPacketPeer : Option SteamPeerId :=
  if !s.isActive then some .server
  else
    match s.incomingPackets with
    | [] => some .server
    | packet :: _ => s.peerIdOf packet.sender

def getSteamTransferFlag : Nat :=
  let flags := (if s.noNagle then sendNoNagle else 0) ||| (if s.noDelay then sendNoDelay else 0)
  match s.transferMode with
  | .reliable => sendReliable ||| flags
  | .unreliable => flags
  | .unreliableOrdered => sendReliable ||| flags

/-- Send a packet on every connection of the table. Steam's answers are given for each of them. -/
def sendAll (packet : SteamPacketPeer) (raw : Nat → Nat → Bool) : List Nat →
    SteamMultiplayerPeer → SteamMultiplayerPeer
  | [], s => s
  | ref :: refs, s => sendAll packet raw refs (s.sendOn ref ((s.heap ref).send packet (raw ref)))

/-- The target may be a peer that is to be left out, given as a negative number; sending to it goes
through a missing connection, which fails. -/
def putPacket (buffer : List UInt8) (raw : Nat → Nat → Bool) :
    Option (SteamError × SteamMultiplayerPeer) :=
  if !s.isActive then some (.unconfigured, s)
  else if s.connectionStatus ≠ .connected then some (.unconfigured, s)
  else if s.targetPeer ≠ 0 ∧ s.targetPeer.abs ∉ s.peerIdToSteamId then some (.invalidParameter, s)
  else if s.activeMode = .client ∧ .server ∉ s.peerIdToSteamId then some (.bug, s)
  else
    let packet := SteamPacketPeer.ofBuffer buffer s.getSteamTransferFlag
    if s.targetPeer = 0 then some (.ok, sendAll packet raw s.connectionsBySteamId64.values s)
    else
      (s.getConnectionByPeer s.targetPeer).map
        (fun ref => (.ok, s.sendOn ref ((s.heap ref).send packet (raw ref))))

/-- Closing a peer closes all its connections at Steam. -/
def close : SteamMultiplayerPeer :=
  if !s.isActive then s
  else if s.connectionStatus ≠ .connected then s
  else { s with
    peerIdToSteamId := .empty
    connectionsBySteamId64 := .empty
    loopbackConnectionsBySteamId64 := .empty
    activeMode := .none
    uniqueId := 0
    connectionStatus := .disconnected
    isLoopbackClient := false }

/-- Remove a connection from the tables. -/
def drop (ref : Nat) (peer : SteamPeerId) : SteamMultiplayerPeer :=
  let s := { s with
    connectionsBySteamId64 := s.connectionsBySteamId64.erase (s.heap ref).steamId
    loopbackConnectionsBySteamId64 := s.loopbackConnectionsBySteamId64.erase (s.heap ref).steamId
    peerIdToSteamId := s.peerIdToSteamId.erase peer }
  s.emitSignal (.peerDisconnected (s.heap ref).handle peer)

def clearConnections : SteamMultiplayerPeer :=
  { s with
    connectionsBySteamId64 := .empty
    loopbackConnectionsBySteamId64 := .empty }

def disconnectPeer (peer : SteamPeerId) (force closes : Bool) : SteamMultiplayerPeer :=
  if !s.isActive then s
  else
    match s.getConnectionByPeer peer with
    | none => s
    | some ref =>
      if (s.heap ref).close closes then
        let s := s.drop ref peer
        if force && s.activeMode = .client then s.clearConnections.close else s
      else s

/-- Steam answers with a socket, or refuses. -/
def createHost (port : Int) (socket : SteamHandle) : SteamError × SteamMultiplayerPeer :=
  if s.isActive then (.alreadyInUse, s)
  else if port ≤ 0 then (.cantOpen, s)
  else if socket = .invalid then (.cantCreate, { s with
    listenSocket := socket })
  else (.ok, { s with
    listenSocket := socket
    uniqueId := .server
    activeMode := .server
    connectionStatus := .connected })

def createClient (port : Int) (handle : SteamHandle) (id : ClientId) :
    SteamError × SteamMultiplayerPeer :=
  if s.isActive then (.alreadyInUse, s)
  else if port ≤ 0 then (.cantOpen, s)
  else if handle = .invalid then (.cantConnect, { s with
    connection := handle
    uniqueId := 0 })
  else (.ok, { s with
    connection := handle
    uniqueId := id.1
    activeMode := .client
    connectionStatus := .connecting })

/-- The remote end or Steam has closed a connection. The host looks for it under its Steam id. -/
def connectionClosed (change : StatusChange) : SteamMultiplayerPeer :=
  if !s.isServer then
    let s := if s.connectionStatus = .connected then s.disconnectPeer .server true change.closes
      else s
    if s.isActive then s.close else s
  else
    match s.peerIdOf change.identityRemote with
    | none => s
    | some peer => if peer = .unset then s else s.disconnectPeer peer false change.closes

/-- A connection is there. A client tells its id. -/
def connectionMade (change : StatusChange) : SteamMultiplayerPeer :=
  if s.isServer then (s.addConnection change.identityRemote change.handle).2
  else if s.connectionStatus ≠ .connected then
    let s := { s with
      connectionStatus := .connected }
    match s.addConnection change.identityRemote change.handle with
    | (none, s) => s -- the missing connection is used, which fails
    | (some ref, s) => s.sendOn ref ((s.heap ref).sendPeer s.uniqueId change.raw)
  else s

/-- A new connection on the listen socket is only accepted, which changes nothing here. -/
def statusKind (change : StatusChange) : StatusKind :=
  if s.isLoopbackClient then .ignored
  else if !s.isServer ∧ change.handle ≠ s.connection then .ignored
  else if s.isServer ∧ (change.listenSocket ≠ s.listenSocket ∨ change.listenSocket = .invalid) then
    .ignored
  else if change.userData = 1 then .ignored
  else if change.listenSocket ≠ .invalid ∧ change.oldState = .none ∧ change.state = .connecting then
    .ignored
  else if (change.oldState = .connecting ∨ change.oldState = .findingRoute) ∧
      change.state = .connected then .made
  else if (change.oldState = .connecting ∨ change.oldState = .connected) ∧
      (change.state = .closedByPeer ∨ change.state = .problemDetectedLocally) then .closed
  else .ignored

def networkConnectionStatusChanged (change : StatusChange) : SteamMultiplayerPeer :=
  match s.statusKind change with
  | .ignored => s
  | .made => s.connectionMade change
  | .closed => s.connectionClosed change

end SteamMultiplayerPeer

inductive SteamEvent where
  | createHost (port : Int) (socket : SteamHandle)
  | createClient (port : Int) (handle : SteamHandle) (id : ClientId)
  | close
  | statusChanged (change : StatusChange)
  | receive (id : SteamId) (msg : SteamMessage) (raw : Nat → Bool)
  | getPacket
  | setTargetPeer (peer : SteamPeerId)
  | setTransferMode (mode : MultiplayerPeer.TransferMode)
  | putPacket (buffer : List UInt8) (raw : Nat → Nat → Bool)
  | disconnectPeer (peer : SteamPeerId) (force closes : Bool)

namespace SteamMultiplayerPeer

def step (s : SteamMultiplayerPeer) (event : SteamEvent) : SteamMultiplayerPeer :=
  match event with
  | .createHost port socket => (s.createHost port socket).2
  | .createClient port handle id => (s.createClient port handle id).2
  | .close => s.close
  | .statusChanged change => s.networkConnectionStatusChanged change
  | .receive id msg raw => s.receive id msg raw
  | .getPacket => s.getPacket
  | .setTargetPeer peer => { s with
    targetPeer := peer }
  | .setTransferMode mode => { s with
    transferMode := mode }
  | .putPacket buffer raw => ((s.putPacket buffer raw).map Prod.snd).getD s
  | .disconnectPeer peer force closes => s.disconnectPeer peer force closes

end SteamMultiplayerPeer

end Godaemon
