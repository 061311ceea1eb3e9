import Godaemon.Steam.Parties

namespace Godaemon
set_option autoImplicit true

/-- What is on its way between two peers. Reliable messages keep their order. -/
structure SteamChannel where
  reliable : List SteamMessage
  loose : List SteamMessage

def SteamPacketPeer.message (packet : SteamPacketPeer) : SteamMessage :=
  ⟨packet.data, packet.transferMode⟩

/-- Steam takes packets to be delivered. -/
def SteamChannel.post (channel : SteamChannel) (packets : List SteamPacketPeer) : SteamChannel where
  reliable := channel.reliable ++ (packets.filter SteamPacketPeer.isReliable).map
    SteamPacketPeer.message
  loose := channel.loose ++ (packets.filter (fun packet => !packet.isReliable)).map
    SteamPacketPeer.message

/-- A host and a client, with the handles that Steam gives them for the connection. -/
structure SteamParties where
  hostId : SteamId
  clientId : SteamId
  ne : hostId ≠ clientId
  socket : { handle : SteamHandle // handle ≠ .invalid }
  hostHandle : SteamHandle
  clientHandle : { handle : SteamHandle // handle ≠ .invalid }
  clientPeer : ClientId

/-- The connection of the client is made at the host. -/
def SteamParties.hostChange (w : SteamParties) : StatusChange :=
  ⟨w.hostHandle, w.socket.1, w.clientId, -1, .connecting, .connected, true, fun _ => true⟩

/-- The connection to the host is made at the client. -/
def SteamParties.clientChange (w : SteamParties) (raw : Nat → Bool) : StatusChange :=
  ⟨w.clientHandle.1, .invalid, w.hostId, -1, .findingRoute, .connected, true, raw⟩

structure SteamLink where
  host : SteamMultiplayerPeer
  client : SteamMultiplayerPeer
  toClient : SteamChannel
  toHost : SteamChannel
  /-- How many reliable packets that are queued or on their way were put before `peer_connected`. -/
  early : Nat
  /-- What the host has put reliably since `peer_connected`. -/
  late : List (List UInt8)
  /-- What the client has appended of it. -/
  got : List (List UInt8)

inductive LinkEvent where
  | hostMade
  | clientMade (raw : Nat → Bool)
  | toClient (raw : Nat → Bool)
  | looseToClient (i : Nat) (raw : Nat → Bool)
  | loseToClient (i : Nat)
  | toHost (raw : Nat → Bool)
  | looseToHost (i : Nat) (raw : Nat → Bool)
  | loseToHost (i : Nat)
  | hostPut (settings : SendSettings) (buffer : List UInt8) (raw : Nat → Nat → Bool)
  | clientPut (settings : SendSettings) (buffer : List UInt8) (raw : Nat → Nat → Bool)
  | hostGet
  | clientGet

namespace SteamLink

open SteamMultiplayerPeer

variable (w : SteamParties) (l : SteamLink)

/-- A host that listens, and a client that tries to connect. -/
def start : SteamLink where
  host := ((fresh w.hostId).createHost 1 w.socket.1).2
  client := ((fresh w.clientId).createClient 1 w.clientHandle.1 w.clientPeer).2
  toClient := ⟨[], []⟩
  toHost := ⟨[], []⟩
  early := 0
  late := []
  got := []

/-- The host has done something, and Steam has what it has accepted. -/
def hostTurn (host : SteamMultiplayerPeer) : SteamLink :=
  { l with
    host := host
    toClient := l.toClient.post (host.mail.accepted.drop l.host.mail.accepted.length) }

def clientTurn (client : SteamMultiplayerPeer) : SteamLink :=
  { l with
    client := client
    toHost := l.toHost.post (client.mail.accepted.drop l.client.mail.accepted.length) }

def hostMade : SteamLink :=
  if w.clientId ∈ l.host.connectionsBySteamId64 then l
  else l.hostTurn (l.host.connectionMade w.hostChange)

def clientMade (raw : Nat → Bool) : SteamLink :=
  if w.hostId ∈ l.client.connectionsBySteamId64 then l
  else l.clientTurn (l.client.connectionMade (w.clientChange raw))

/-- The client receives a message. -/
def clientReceives (msg : SteamMessage) (raw : Nat → Bool) : SteamLink :=
  l.clientTurn (l.client.receive w.hostId msg raw)

def hostReceives (msg : SteamMessage) (raw : Nat → Bool) : SteamLink :=
  l.hostTurn (l.host.receive w.clientId msg raw)

/-- The next reliable message comes to the client. The early ones come first. -/
def toClientStep (raw : Nat → Bool) : SteamLink :=
  match l.toClient.reliable with
  | [] => l
  | msg :: msgs =>
    if w.hostId ∉ l.client.connectionsBySteamId64 then l
    else
      let t := { l with toClient := { l.toClient with reliable := msgs } }
      let t := t.clientReceives w msg raw
      if 0 < l.early then { t with early := l.early - 1 }
      else { t with
        got := l.got ++ (t.client.incomingPackets.drop l.client.incomingPackets.length).map
          (fun packet => packet.data) }

def looseToClient (i : Nat) (raw : Nat → Bool) : SteamLink :=
  match l.toClient.loose[i]? with
  | none => l
  | some msg =>
    if w.hostId ∉ l.client.connectionsBySteamId64 then l
    else
      let t := { l with toClient := { l.toClient with loose := l.toClient.loose.eraseIdx i } }
      t.clientReceives w msg raw

def toHostStep (raw : Nat → Bool) : SteamLink :=
  match l.toHost.reliable with
  | [] => l
  | msg :: msgs =>
    if w.clientId ∉ l.host.connectionsBySteamId64 then l
    else
      let t := { l with toHost := { l.toHost with reliable := msgs } }
      t.hostReceives w msg raw

def looseToHost (i : Nat) (raw : Nat → Bool) : SteamLink :=
  match l.toHost.loose[i]? with
  | none => l
  | some msg =>
    if w.clientId ∉ l.host.connectionsBySteamId64 then l
    else
      let t := { l with toHost := { l.toHost with loose := l.toHost.loose.eraseIdx i } }
      t.hostReceives w msg raw

/-- The host puts a packet, which counts as late once it has emitted `peer_connected`. -/
def hostPut (settings : SendSettings) (buffer : List UInt8) (raw : Nat → Nat → Bool) : SteamLink :=
  let t := l.hostTurn (l.host.putWith settings buffer raw)
  let host := l.host.configure settings
  if host.putTargets = [] then t
  else if l.host.HasPeer w.clientId then { t with
    late := l.late ++ if host.getSteamTransferFlag &&& sendReliable ≠ 0 then [buffer] else [] }
  else { t with
    early := l.early + if (l.host.packetWith settings buffer).isReliable then 1 else 0 }

def clientPut (settings : SendSettings) (buffer : List UInt8) (raw : Nat → Nat → Bool) :
    SteamLink :=
  l.clientTurn (l.client.putWith settings buffer raw)

/-- Messages that are not reliable may be overtaken or lost. -/
def step (l : SteamLink) (event : LinkEvent) : SteamLink :=
  match event with
  | .hostMade => l.hostMade w
  | .clientMade raw => l.clientMade w raw
  | .toClient raw => l.toClientStep w raw
  | .looseToClient i raw => l.looseToClient w i raw
  | .loseToClient i => { l with
    toClient := { l.toClient with loose := l.toClient.loose.eraseIdx i } }
  | .toHost raw => l.toHostStep w raw
  | .looseToHost i raw => l.looseToHost w i raw
  | .loseToHost i => { l with
    toHost := { l.toHost with loose := l.toHost.loose.eraseIdx i } }
  | .hostPut settings buffer raw => l.hostPut w settings buffer raw
  | .clientPut settings buffer raw => l.clientPut settings buffer raw
  | .hostGet => { l with host := l.host.getPacket }
  | .clientGet => { l with client := l.client.getPacket }

/-- The reliable packets of the host that have not come to the client. -/
def undelivered : List (List UInt8) :=
  l.toClient.reliable.map (fun msg => msg.data) ++
    (l.host.mail.queued.filter SteamPacketPeer.isReliable).map (fun packet => packet.data)

variable {l} {host : SteamMultiplayerPeer}

theorem hostTurn_of_mail (h : host.mail = l.host.mail) :
    (l.hostTurn host).toClient = l.toClient := by
  simp only [hostTurn, h, List.drop_length, SteamChannel.post, List.filter_nil, List.map_nil,
    List.append_nil]

theorem undelivered_of_mail (h : host.mail = l.host.mail) :
    (l.hostTurn host).undelivered = l.undelivered := by
  rw [undelivered, hostTurn_of_mail h]
  simp only [hostTurn, h, undelivered]

theorem undelivered_of_send {packet : SteamPacketPeer} {raw : Nat → Bool}
    (h : host.mail = l.host.mail.send packet raw) : (l.hostTurn host).undelivered =
      l.undelivered ++ if packet.isReliable then [packet.data] else [] := by
  have hreliable := SteamConnection.reliable_sendPending raw (l.host.mail.queued ++ [packet])
  obtain ⟨result, hresult⟩ : ∃ result, result =
      SteamConnection.sendPending raw (l.host.mail.queued ++ [packet]) := ⟨_, rfl⟩
  have hqueued : host.mail.queued = result.2 := by rw [h, hresult]; rfl
  have haccepted : host.mail.accepted.drop l.host.mail.accepted.length = result.1 := by
    rw [h, hresult]
    exact SteamMail.send_accepted
  rw [← hresult] at hreliable
  have hdata (packets : List SteamPacketPeer) :
      (packets.map SteamPacketPeer.message).map (fun msg => msg.data) =
        packets.map (fun packet => packet.data) := List.map_map
  calc (l.hostTurn host).undelivered
      = (l.toClient.reliable ++ (result.1.filter SteamPacketPeer.isReliable).map
            SteamPacketPeer.message).map (fun msg => msg.data) ++
          (result.2.filter SteamPacketPeer.isReliable).map (fun packet => packet.data) := by
        simp only [undelivered, hostTurn, SteamChannel.post, haccepted, hqueued]
    _ = l.toClient.reliable.map (fun msg => msg.data) ++
          (result.1.filter SteamPacketPeer.isReliable ++
            result.2.filter SteamPacketPeer.isReliable).map (fun packet => packet.data) := by
        rw [List.map_append, hdata, List.append_assoc, List.map_append]
    _ = l.undelivered ++ if packet.isReliable then [packet.data] else [] := by
        rw [hreliable, undelivered, List.filter_append, List.map_append, List.append_assoc,
          List.filter_singleton]
        cases packet.isReliable with
        | true => rfl
        | false => rfl

theorem sized_of_send {n : Nat} {packet : SteamPacketPeer} {raw : Nat → Bool}
    (h : host.mail = l.host.mail.send packet raw)
    (hold : ∀ msg ∈ l.toClient.reliable, msg.data.length ≤ n)
    (hqueued : ∀ p ∈ l.host.mail.queued, p.data.length ≤ n) (hpacket : packet.data.length ≤ n) :
    ∀ msg ∈ (l.hostTurn host).toClient.reliable, msg.data.length ≤ n := by
  intro msg hmsg
  simp only [hostTurn, h, SteamMail.send_accepted, SteamChannel.post, List.mem_append,
    List.mem_map, List.mem_filter] at hmsg
  cases hmsg with
  | inl hmsg => exact hold msg hmsg
  | inr hmsg =>
    obtain ⟨p, ⟨hp, _⟩, rfl⟩ := hmsg
    have hmem := SteamConnection.mem_of_accepted hp
    rw [List.mem_append, List.mem_singleton] at hmem
    cases hmem with
    | inl hp => exact hqueued p hp
    | inr hp => exact hp ▸ hpacket

end SteamLink

end Godaemon
