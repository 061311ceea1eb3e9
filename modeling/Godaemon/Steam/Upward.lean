import Godaemon.Steam.Handshake

namespace Godaemon
set_option autoImplicit true

/-- A link, with what the client has put reliably and what the host has appended of it. -/
structure UpLink where
  link : SteamLink
  put : List (List UInt8)
  got : List IncomingPacket

def SteamChannel.messages (channel : SteamChannel) : List SteamMessage :=
  channel.reliable ++ channel.loose

/-- What reads as a setup message of the host. -/
def TellsServer (data : List UInt8) : Prop :=
  data.length = 4 ∧ readSetupPeerPayload data = .server

namespace SteamLink

open SteamMultiplayerPeer

variable (w : SteamParties) (l : SteamLink)

/-- The link as the client sees it. -/
def mirror : SteamLink :=
  { l with
    host := l.client
    client := l.host
    toClient := l.toHost
    toHost := l.toClient }

/-- The reliable packets of the client that have not come to the host. -/
def undeliveredUp : List (List UInt8) := l.mirror.undelivered

/-- As long as the host does not know the client, nothing can tell the client the id of the host,
and the client sends its setup message only. -/
structure Untold : Prop where
  server : l.client.peerIdOf w.hostId ≠ some .server
  toClient : ∀ msg ∈ l.toClient.messages, ¬ TellsServer msg.data
  hostQueue : ∀ packet ∈ l.host.mail.queued, ¬ TellsServer packet.data
  reliable : l.toHost.reliable = []
  loose : ∀ msg ∈ l.toHost.loose, msg.data = setupPeerPayload w.clientPeer.1
  clientQueue : ∀ packet ∈ l.client.mail.queued, packet = .setup w.clientPeer.1

/-- What holds in every run in which the host does not put what reads as its own setup message
before it knows the client. -/
structure Upward : Prop where
  host : l.host.Hosting w.clientId
  client : l.client.Joining w.hostId
  unique : l.client.uniqueId = w.clientPeer.1
  sized : ∀ msg ∈ l.toHost.reliable, msg.data.length ≤ maxSteamPacketSize
  queueSized : ∀ packet ∈ l.client.mail.queued, packet.data.length ≤ maxSteamPacketSize
  known : l.host.HasPeer w.clientId → l.host.peerIdOf w.clientId = some w.clientPeer.1
  unknown : ¬ l.host.HasPeer w.clientId → l.Untold w

variable {w} {l} {host client : SteamMultiplayerPeer}

theorem mem_messages_post {channel : SteamChannel} {packets : List SteamPacketPeer}
    {msg : SteamMessage} (h : msg ∈ (channel.post packets).messages) :
    msg ∈ channel.messages ∨ ∃ packet ∈ packets, packet.message = msg := by
  simp only [SteamChannel.messages, SteamChannel.post, List.mem_append, List.mem_map,
    List.mem_filter] at h ⊢
  rcases h with (h | ⟨packet, ⟨hp, _⟩, he⟩) | (h | ⟨packet, ⟨hp, _⟩, he⟩)
  · exact .inl (.inl h)
  · exact .inr ⟨packet, hp, he⟩
  · exact .inl (.inr h)
  · exact .inr ⟨packet, hp, he⟩

/-- Only a client that has been told the id of the host hands packets to its connection. -/
theorem server_of_putTargets {s : SteamMultiplayerPeer} {id : SteamId} (h : s.Joining id)
    (settings : SendSettings) (htargets : (s.configure settings).putTargets ≠ []) :
    s.peerIdOf id = some .server := by
  obtain ⟨t, ht⟩ : ∃ t, t = s.configure settings := ⟨_, rfl⟩
  have hsame : t.peerIdOf id = s.peerIdOf id ∧ t.isServer = s.isServer := by
    rw [ht]
    exact ⟨rfl, rfl⟩
  have hsolo : t.Solo id := h.solo.of_bare (by rw [ht]; rfl)
  rw [← ht] at htargets
  have hclient : t.activeMode = .client := by
    cases hmode : t.activeMode with
    | none => exact absurd hmode hsolo.active
    | server => exact absurd (hsame.2 ▸ hsolo.keyed.server.2 hmode) h.client
    | client => rfl
  have hserver : SteamPeerId.server ∈ t.peerIdToSteamId := by
    by_contra hn
    apply htargets
    simp only [putTargets, hclient, hn, not_false_eq_true, and_self, ↓reduceIte, ite_self]
  obtain ⟨ref, href⟩ := (Dict.mem_iff_get? _).1 hserver
  obtain ⟨hlt, hpeer, _⟩ := hsolo.keyed.peers _ ref href
  have hzero := hsolo.ref_eq hlt
  rw [hzero] at hlt hpeer
  rw [← hsame.1, peerIdOf]
  cases hsolo.table with
  | inl hempty =>
    rw [hempty.2] at hlt
    cases hlt
  | inr hset =>
    rw [hset.1, Dict.get?_set_self, Option.map_some, hpeer]

theorem setsUp_of_setup {s : SteamMultiplayerPeer} {id : SteamId} {peer : SteamPeerId}
    {msg : SteamMessage} (hs : s.Solo id) (hmem : id ∈ s.connectionsBySteamId64)
    (hpeer : ¬ s.HasPeer id) (hset : peer ≠ .unset) (hdata : msg.data = setupPeerPayload peer) :
    ∃ ref, s.setsUp id msg = some (ref, peer) := by
  obtain ⟨ref, hget⟩ := (Dict.mem_iff_get? _).1 hmem
  have hactive : s.isActive = true := by simpa [isActive] using hs.active
  have hid : s.getPeerIdFromSteam64 id = .unset := by
    rw [hs.getPeerIdFromSteam64_eq]
    exact not_not.1 hpeer
  refine ⟨ref, ?_⟩
  simp only [setsUp, hget, hactive, hid, hdata, setupPeerPayload_length, read_setupPeerPayload,
    ne_eq, hset, not_false_eq_true, and_self, ↓reduceIte]

theorem Upward.hostTurn (h : l.Upward w) (hhost : host.Hosting w.clientId)
    (hknown : host.HasPeer w.clientId → host.peerIdOf w.clientId = some w.clientPeer.1)
    (hunknown : ¬ host.HasPeer w.clientId → ¬ l.host.HasPeer w.clientId ∧
      (∀ msg ∈ (l.hostTurn host).toClient.messages, ¬ TellsServer msg.data) ∧
      ∀ packet ∈ host.mail.queued, ¬ TellsServer packet.data) : (l.hostTurn host).Upward w := by
  have huntold (hn : ¬ host.HasPeer w.clientId) : (l.hostTurn host).Untold w := by
    obtain ⟨hold, hmessages, hqueue⟩ := hunknown hn
    have ho := h.unknown hold
    exact ⟨ho.server, hmessages, hqueue, ho.reliable, ho.loose, ho.clientQueue⟩
  exact ⟨hhost, h.client, h.unique, h.sized, h.queueSized, hknown, huntold⟩

theorem Upward.hostTurn_of_mail (h : l.Upward w) (hhost : host.Hosting w.clientId)
    (hpeer : host.HasPeer w.clientId ↔ l.host.HasPeer w.clientId)
    (hknown : host.HasPeer w.clientId → host.peerIdOf w.clientId = some w.clientPeer.1)
    (hmail : host.mail = l.host.mail) : (l.hostTurn host).Upward w := by
  apply h.hostTurn hhost hknown
  intro hn
  have hold : ¬ l.host.HasPeer w.clientId := fun ho => hn (hpeer.2 ho)
  rw [SteamLink.hostTurn_of_mail hmail, hmail]
  exact ⟨hold, (h.unknown hold).toClient, (h.unknown hold).hostQueue⟩

theorem Upward.clientTurn_of_mail (h : l.Upward w) (hclient : client.Joining w.hostId)
    (hunique : client.uniqueId = l.client.uniqueId) (hmail : client.mail = l.client.mail)
    (hserver : ¬ l.host.HasPeer w.clientId → client.peerIdOf w.hostId ≠ some .server) :
    (l.clientTurn client).Upward w := by
  have hchannel : (l.clientTurn client).toHost = l.toHost :=
    SteamLink.hostTurn_of_mail (l := l.mirror) hmail
  apply Upward.mk
  · exact h.host
  · exact hclient
  · exact hunique.trans h.unique
  · rw [hchannel]
    exact h.sized
  · change ∀ packet ∈ client.mail.queued, _
    rw [hmail]
    exact h.queueSized
  · exact h.known
  · intro hn
    have ho := h.unknown hn
    refine ⟨hserver hn, ho.toClient, ho.hostQueue, ?_, ?_, ?_⟩
    · rw [hchannel]
      exact ho.reliable
    · rw [hchannel]
      exact ho.loose
    · change ∀ packet ∈ client.mail.queued, _
      rw [hmail]
      exact ho.clientQueue

/-- The client sends a packet, which is its setup message unless the host knows it. -/
theorem Upward.clientTurn_of_send (h : l.Upward w) (hclient : client.Joining w.hostId)
    (hunique : client.uniqueId = l.client.uniqueId) {packet : SteamPacketPeer} {raw : Nat → Bool}
    (hmail : client.mail = l.client.mail.send packet raw)
    (hsize : packet.data.length ≤ maxSteamPacketSize)
    (hserver : ¬ l.host.HasPeer w.clientId →
      client.peerIdOf w.hostId ≠ some .server ∧ packet = .setup w.clientPeer.1) :
    (l.clientTurn client).Upward w := by
  apply Upward.mk
  · exact h.host
  · exact hclient
  · exact hunique.trans h.unique
  · exact sized_of_send (l := l.mirror) hmail h.sized h.queueSized hsize
  · change ∀ packet ∈ client.mail.queued, _
    rw [hmail]
    exact SteamMail.send_sized h.queueSized hsize
  · exact h.known
  · intro hn
    have ho := h.unknown hn
    obtain ⟨hno, hsetup⟩ := hserver hn
    have hall : ∀ p ∈ l.client.mail.queued ++ [packet], p = .setup w.clientPeer.1 := by
      intro p hp
      rw [List.mem_append, List.mem_singleton] at hp
      cases hp with
      | inl hold => exact ho.clientQueue p hold
      | inr hnew => exact hnew.trans hsetup
    have haccepted : client.mail.accepted.drop l.client.mail.accepted.length =
        (SteamConnection.sendPending raw (l.client.mail.queued ++ [packet])).1 := by
      rw [hmail]
      exact SteamMail.send_accepted
    have hloose : ∀ p ∈ client.mail.accepted.drop l.client.mail.accepted.length,
        p = .setup w.clientPeer.1 := by
      intro p hp
      rw [haccepted] at hp
      exact hall p (SteamConnection.mem_of_accepted hp)
    refine ⟨hno, ho.toClient, ho.hostQueue, ?_, ?_, ?_⟩
    · have hnone : (client.mail.accepted.drop l.client.mail.accepted.length).filter
          SteamPacketPeer.isReliable = [] := by
        rw [List.filter_eq_nil_iff]
        intro p hp
        rw [hloose p hp, SteamPacketPeer.setup_not_reliable]
        exact Bool.false_ne_true
      simp only [clientTurn, SteamChannel.post, hnone, ho.reliable, List.map_nil, List.append_nil]
    · intro msg hmsg
      simp only [clientTurn, SteamChannel.post, List.mem_append, List.mem_map,
        List.mem_filter] at hmsg
      rcases hmsg with hmsg | ⟨p, ⟨hp, _⟩, rfl⟩
      · exact ho.loose msg hmsg
      · rw [hloose p hp, SteamPacketPeer.setup_eq]
        rfl
    · intro p hp
      change p ∈ client.mail.queued at hp
      rw [hmail] at hp
      exact hall p (SteamConnection.mem_of_queued hp)

theorem Upward.less (h : l.Upward w) {toClient toHost : SteamChannel}
    (hclient : ∀ msg ∈ toClient.messages, msg ∈ l.toClient.messages)
    (hreliable : ∀ msg ∈ toHost.reliable, msg ∈ l.toHost.reliable)
    (hloose : ∀ msg ∈ toHost.loose, msg ∈ l.toHost.loose) :
    ({ l with
      toClient := toClient
      toHost := toHost } : SteamLink).Upward w := by
  have huntold (hn : ¬ l.host.HasPeer w.clientId) : ({ l with
      toClient := toClient
      toHost := toHost } : SteamLink).Untold w := by
    have ho := h.unknown hn
    rw [ho.reliable] at hreliable
    exact ⟨ho.server, fun msg hmsg => ho.toClient msg (hclient msg hmsg), ho.hostQueue,
      List.eq_nil_iff_forall_not_mem.2 fun msg hmsg => absurd (hreliable msg hmsg) List.not_mem_nil,
      fun msg hmsg => ho.loose msg (hloose msg hmsg), ho.clientQueue⟩
  exact ⟨h.host, h.client, h.unique, fun msg hmsg => h.sized msg (hreliable msg hmsg),
    h.queueSized, h.known, huntold⟩

theorem Upward.counted (h : l.Upward w) (early : Nat) (late got : List (List UInt8)) :
    ({ l with
      early := early
      late := late
      got := got } : SteamLink).Upward w := by
  have huntold (hn : ¬ l.host.HasPeer w.clientId) : ({ l with
      early := early
      late := late
      got := got } : SteamLink).Untold w := by
    have ho := h.unknown hn
    exact ⟨ho.server, ho.toClient, ho.hostQueue, ho.reliable, ho.loose, ho.clientQueue⟩
  exact ⟨h.host, h.client, h.unique, h.sized, h.queueSized, h.known, huntold⟩

theorem hostMade_upward (h : l.Upward w) : (l.hostMade w).Upward w ∧
    (l.hostMade w).host.incomingPackets = l.host.incomingPackets := by
  rw [hostMade]
  split
  · exact ⟨h, rfl⟩
  · next hmem =>
    obtain ⟨hhost, hpeer, hmail⟩ := h.host.connectionMade hmem
      (rfl : w.hostChange.identityRemote = w.clientId)
    have hold : ¬ l.host.HasPeer w.clientId := fun ho => hmem ho.mem
    have hup : (l.hostTurn (l.host.connectionMade w.hostChange)).Upward w :=
      h.hostTurn_of_mail hhost (iff_of_false hpeer hold) (fun hn => absurd hn hpeer) hmail
    refine ⟨hup, ?_⟩
    change (l.host.connectionMade w.hostChange).incomingPackets = _
    rw [SteamMultiplayerPeer.connectionMade, if_pos h.host.server, addConnection_snd]
    split <;> rfl

theorem clientMade_upward (h : l.Upward w) (raw : Nat → Bool) :
    (l.clientMade w raw).Upward w ∧ (l.clientMade w raw).undeliveredUp = l.undeliveredUp := by
  rw [clientMade]
  split
  · exact ⟨h, rfl⟩
  · next hmem =>
    obtain ⟨hclient, hpeer, _⟩ := h.client.connectionMade hmem
      (rfl : (w.clientChange raw).identityRemote = w.hostId)
    obtain ⟨t, _, hnone, hmail, hunique, _, hmade⟩ := h.client.connectionMade_eq hmem
      (rfl : (w.clientChange raw).identityRemote = w.hostId)
    have hsent : (l.client.connectionMade (w.clientChange raw)).mail =
        l.client.mail.send (.setup w.clientPeer.1) raw := by
      rw [hmade, mail_sendOn, hmail, h.unique]
      rfl
    have hsame : (l.client.connectionMade (w.clientChange raw)).uniqueId = l.client.uniqueId := by
      rw [hmade, ← hunique]
      rfl
    constructor
    · apply h.clientTurn_of_send hclient hsame hsent (SteamPacketPeer.length_ofBuffer _ _)
      refine fun _ => ⟨fun hserver => ?_, rfl⟩
      apply hpeer
      rw [HasPeer, hserver]
      decide
    · have hmirror := undelivered_of_send (l := l.mirror) hsent
      rw [SteamPacketPeer.setup_not_reliable] at hmirror
      exact hmirror.trans (List.append_nil _)

theorem clientReceives_upward (h : l.Upward w) (hmem : w.hostId ∈ l.client.connectionsBySteamId64)
    {msg : SteamMessage} (htells : ¬ l.host.HasPeer w.clientId → ¬ TellsServer msg.data)
    (raw : Nat → Bool) : (l.clientReceives w msg raw).Upward w ∧
      (l.clientReceives w msg raw).undeliveredUp = l.undeliveredUp := by
  obtain ⟨_, hmail, hunique, _⟩ := h.client.receive_frame msg raw
  constructor
  · apply h.clientTurn_of_mail (h.client.receive hmem msg raw) hunique hmail
    intro hn
    cases hset : l.client.setsUp w.hostId msg with
    | none =>
      rw [(h.client.solo.receive_frame hset raw).2.1]
      exact (h.unknown hn).server
    | some result =>
      obtain ⟨ref, peer⟩ := result
      obtain ⟨hbare, _⟩ := h.client.solo.receive_setup hset raw
      obtain ⟨_, _, _, hlength, hread, _⟩ := setsUp_of_set hset
      rw [peerIdOf_congr hbare, h.client.solo.peerIdOf_register hset]
      intro hserver
      exact htells hn ⟨hlength, hread.trans (Option.some.inj hserver)⟩
  · exact undelivered_of_mail (l := l.mirror) hmail

/-- A message comes to the host: it is appended under the client's id, or else it tells this id. -/
theorem hostReceives_upward (h : l.Upward w) (hmem : w.clientId ∈ l.host.connectionsBySteamId64)
    {msg : SteamMessage}
    (hsetup : ¬ l.host.HasPeer w.clientId → msg.data = setupPeerPayload w.clientPeer.1)
    (raw : Nat → Bool) : (l.hostReceives w msg raw).Upward w ∧
      ∃ packets : List IncomingPacket,
        (l.hostReceives w msg raw).host.incomingPackets = l.host.incomingPackets ++ packets ∧
        (∀ packet ∈ packets, packet.sender = w.clientId ∧ packet.peerId = w.clientPeer.1) ∧
        (l.host.HasPeer w.clientId → msg.data.length ≤ maxSteamPacketSize →
          packets.map (fun packet => packet.data) = [msg.data]) := by
  have hhost := h.host.receive msg raw
  by_cases hpeer : l.host.HasPeer w.clientId
  · obtain ⟨hset, hreceive⟩ := h.host.solo.receive_of_hasPeer hpeer msg raw
    obtain ⟨_, hpeers, hmail, _⟩ := h.host.solo.receive_frame hset raw
    have hknown := h.known hpeer
    constructor
    · apply h.hostTurn_of_mail hhost _ _ hmail
      · rw [HasPeer, HasPeer, hpeers]
      · rw [hpeers]
        exact fun _ => hknown
    · change ∃ packets, (l.host.receive w.clientId msg raw).incomingPackets = _ ∧ _
      rw [hreceive, processMessage]
      split
      · next hlarge =>
        refine ⟨[], (List.append_nil _).symm, fun packet hp => absurd hp List.not_mem_nil, ?_⟩
        exact fun _ hsmall => absurd hlarge (Nat.not_lt.2 hsmall)
      · refine ⟨_, rfl, ?_, fun _ _ => rfl⟩
        intro packet hp
        rw [List.mem_singleton.1 hp, hknown]
        exact ⟨rfl, rfl⟩
  · obtain ⟨ref, hset⟩ := setsUp_of_setup h.host.solo hmem hpeer w.clientPeer.ne_unset
      (hsetup hpeer)
    obtain ⟨hbare, _⟩ := h.host.solo.receive_setup hset raw
    have hnew := (hasPeer_congr hbare).2 (h.host.solo.hasPeer_register hset)
    constructor
    · apply h.hostTurn hhost
      · intro _
        rw [peerIdOf_congr hbare]
        exact h.host.solo.peerIdOf_register hset
      · exact fun hn => absurd hnew hn
    · refine ⟨[], ?_, fun packet hp => absurd hp List.not_mem_nil, fun hold => absurd hold hpeer⟩
      rw [List.append_nil]
      exact (frame_of_bare hbare).2.1

theorem toClient_upward (h : l.Upward w) (raw : Nat → Bool) : (l.toClientStep w raw).Upward w ∧
    (l.toClientStep w raw).undeliveredUp = l.undeliveredUp ∧
    (l.toClientStep w raw).host.incomingPackets = l.host.incomingPackets := by
  rw [toClientStep]
  split
  · exact ⟨h, rfl, rfl⟩
  · next msg msgs hreliable =>
    split
    · exact ⟨h, rfl, rfl⟩
    · next hmem =>
      have hmessage : msg ∈ l.toClient.messages := by
        rw [SteamChannel.messages, hreliable]
        exact List.mem_cons_self
      have hrest : ({ l with
          toClient := { l.toClient with reliable := msgs } } : SteamLink).Upward w := by
        apply h.less
        · intro m hm
          rw [SteamChannel.messages, hreliable]
          exact List.mem_cons_of_mem _ hm
        · exact fun _ hm => hm
        · exact fun _ hm => hm
      obtain ⟨hup, hundelivered⟩ := clientReceives_upward hrest (not_not.1 hmem)
        (fun hn => (h.unknown hn).toClient msg hmessage) raw
      simp only
      split
      · exact ⟨hup.counted _ _ _, hundelivered, rfl⟩
      · exact ⟨hup.counted _ _ _, hundelivered, rfl⟩

theorem Upward.loseToClient (h : l.Upward w) (i : Nat) : ({ l with
    toClient := { l.toClient with loose := l.toClient.loose.eraseIdx i } } :
      SteamLink).Upward w := by
  apply h.less
  · intro msg hmsg
    cases List.mem_append.1 hmsg with
    | inl hreliable => exact List.mem_append_left _ hreliable
    | inr hloose => exact List.mem_append_right _ (List.mem_of_mem_eraseIdx hloose)
  · exact fun _ hmsg => hmsg
  · exact fun _ hmsg => hmsg

theorem Upward.loseToHost (h : l.Upward w) (i : Nat) : ({ l with
    toHost := { l.toHost with loose := l.toHost.loose.eraseIdx i } } : SteamLink).Upward w := by
  apply h.less
  · exact fun _ hmsg => hmsg
  · exact fun _ hmsg => hmsg
  · exact fun _ hmsg => List.mem_of_mem_eraseIdx hmsg

theorem looseToClient_upward (h : l.Upward w) (i : Nat) (raw : Nat → Bool) :
    (l.looseToClient w i raw).Upward w ∧
      (l.looseToClient w i raw).undeliveredUp = l.undeliveredUp ∧
      (l.looseToClient w i raw).host.incomingPackets = l.host.incomingPackets := by
  rw [looseToClient]
  split
  · exact ⟨h, rfl, rfl⟩
  · next msg hloose =>
    split
    · exact ⟨h, rfl, rfl⟩
    · next hmem =>
      have hmessage : msg ∈ l.toClient.messages :=
        List.mem_append_right _ (List.mem_of_getElem? hloose)
      obtain ⟨hup, hundelivered⟩ := clientReceives_upward (h.loseToClient i) (not_not.1 hmem)
        (fun hn => (h.unknown hn).toClient msg hmessage) raw
      exact ⟨hup, hundelivered, rfl⟩

theorem looseToHost_upward (h : l.Upward w) (i : Nat) (raw : Nat → Bool) :
    (l.looseToHost w i raw).Upward w ∧
      (l.looseToHost w i raw).undeliveredUp = l.undeliveredUp ∧
      ∃ packets : List IncomingPacket,
        (l.looseToHost w i raw).host.incomingPackets = l.host.incomingPackets ++ packets ∧
        ∀ packet ∈ packets, packet.sender = w.clientId ∧ packet.peerId = w.clientPeer.1 := by
  have hnothing : ∃ packets : List IncomingPacket,
      l.host.incomingPackets = l.host.incomingPackets ++ packets ∧
      ∀ packet ∈ packets, packet.sender = w.clientId ∧ packet.peerId = w.clientPeer.1 :=
    ⟨[], (List.append_nil _).symm, fun packet hp => absurd hp List.not_mem_nil⟩
  rw [looseToHost]
  split
  · exact ⟨h, rfl, hnothing⟩
  · next msg hloose =>
    split
    · exact ⟨h, rfl, hnothing⟩
    · next hmem =>
      obtain ⟨hup, packets, hincoming, hclient, _⟩ :=
        hostReceives_upward (h.loseToHost i) (not_not.1 hmem)
          (fun hn => (h.unknown hn).loose msg (List.mem_of_getElem? hloose)) raw
      exact ⟨hup, rfl, packets, hincoming, hclient⟩

/-- A reliable message that comes to the host is the next one, and is appended. -/
theorem toHost_upward (h : l.Upward w) (raw : Nat → Bool) : (l.toHostStep w raw).Upward w ∧
    ∃ packets : List IncomingPacket,
      (l.toHostStep w raw).host.incomingPackets = l.host.incomingPackets ++ packets ∧
      (∀ packet ∈ packets, packet.sender = w.clientId ∧ packet.peerId = w.clientPeer.1) ∧
      packets.map (fun packet => packet.data) ++ (l.toHostStep w raw).undeliveredUp =
        l.undeliveredUp := by
  have hnothing : ∃ packets : List IncomingPacket,
      l.host.incomingPackets = l.host.incomingPackets ++ packets ∧
      (∀ packet ∈ packets, packet.sender = w.clientId ∧ packet.peerId = w.clientPeer.1) ∧
      packets.map (fun packet => packet.data) ++ l.undeliveredUp = l.undeliveredUp :=
    ⟨[], (List.append_nil _).symm, fun packet hp => absurd hp List.not_mem_nil, rfl⟩
  rw [toHostStep]
  split
  · exact ⟨h, hnothing⟩
  · next msg msgs hreliable =>
    split
    · exact ⟨h, hnothing⟩
    · next hmem =>
      -- the host knows the client, as there would not be a reliable message otherwise
      have hpeer : l.host.HasPeer w.clientId := by
        by_contra hn
        rw [(h.unknown hn).reliable] at hreliable
        cases hreliable
      have hrest : ({ l with
          toHost := { l.toHost with reliable := msgs } } : SteamLink).Upward w := by
        apply h.less
        · exact fun _ hmsg => hmsg
        · intro m hm
          rw [hreliable]
          exact List.mem_cons_of_mem _ hm
        · exact fun _ hmsg => hmsg
      obtain ⟨hup, packets, hincoming, hclient, hdata⟩ :=
        hostReceives_upward hrest (not_not.1 hmem) (fun hn => absurd hpeer hn) raw
      have hsize := h.sized msg (hreliable ▸ List.mem_cons_self)
      refine ⟨hup, packets, hincoming, hclient, ?_⟩
      rw [hdata hpeer hsize]
      change [msg.data] ++ (msgs.map (fun msg => msg.data) ++ _) =
        l.toHost.reliable.map (fun msg => msg.data) ++ _
      rw [hreliable]
      rfl

theorem packetWith_of_fits (s : SteamMultiplayerPeer) (settings : SendSettings)
    {buffer : List UInt8} (hsize : buffer.length ≤ maxSteamPacketSize) :
    s.packetWith settings buffer = ⟨buffer, (s.configure settings).getSteamTransferFlag⟩ := by
  rw [packetWith, SteamPacketPeer.ofBuffer, if_neg (Nat.not_lt.2 hsize)]

theorem not_tells_packetWith {s : SteamMultiplayerPeer} {settings : SendSettings}
    {buffer : List UInt8} (h : ¬ TellsServer buffer) :
    ¬ TellsServer (s.packetWith settings buffer).data := by
  rw [packetWith, SteamPacketPeer.ofBuffer]
  split
  · exact fun hn => by cases hn.1
  · exact h

theorem Upward.hostPuts (h : l.Upward w) (settings : SendSettings) {buffer : List UInt8}
    (htells : ¬ l.host.HasPeer w.clientId → (l.host.configure settings).putTargets ≠ [] →
      ¬ TellsServer buffer) (raw : Nat → Nat → Bool) :
    (l.hostTurn (l.host.putWith settings buffer raw)).Upward w := by
  have hmail := h.host.solo.putWith_mail settings buffer raw
  have hhost := h.host.putWith settings buffer raw
  have hbare := putWith_bare (s := l.host) settings buffer raw
  have hpeer : (l.host.putWith settings buffer raw).HasPeer w.clientId ↔
      l.host.HasPeer w.clientId := hasPeer_congr hbare
  have hknown : (l.host.putWith settings buffer raw).HasPeer w.clientId →
      (l.host.putWith settings buffer raw).peerIdOf w.clientId = some w.clientPeer.1 := by
    rw [hpeer, peerIdOf_congr hbare]
    exact h.known
  split at hmail
  · exact h.hostTurn_of_mail hhost hpeer hknown hmail
  · next htargets =>
    apply h.hostTurn hhost hknown
    intro hn
    have hold : ¬ l.host.HasPeer w.clientId := fun ho => hn (hpeer.2 ho)
    have ho := h.unknown hold
    have hall : ∀ p ∈ l.host.mail.queued ++ [l.host.packetWith settings buffer],
        ¬ TellsServer p.data := by
      intro p hp
      rw [List.mem_append, List.mem_singleton] at hp
      cases hp with
      | inl hp => exact ho.hostQueue p hp
      | inr hp => exact hp ▸ not_tells_packetWith (htells hold htargets)
    refine ⟨hold, ?_, ?_⟩
    · intro msg hmsg
      cases mem_messages_post hmsg with
      | inl hmsg => exact ho.toClient msg hmsg
      | inr hmsg =>
        obtain ⟨p, hp, rfl⟩ := hmsg
        rw [hmail, SteamMail.send_accepted] at hp
        exact hall p (SteamConnection.mem_of_accepted hp)
    · intro p hp
      rw [hmail] at hp
      exact hall p (SteamConnection.mem_of_queued hp)

theorem hostPut_upward (h : l.Upward w) (settings : SendSettings) {buffer : List UInt8}
    (htells : ¬ l.host.HasPeer w.clientId → (l.host.configure settings).putTargets ≠ [] →
      ¬ TellsServer buffer) (raw : Nat → Nat → Bool) :
    (l.hostPut w settings buffer raw).Upward w ∧
      (l.hostPut w settings buffer raw).undeliveredUp = l.undeliveredUp ∧
      (l.hostPut w settings buffer raw).host.incomingPackets = l.host.incomingPackets := by
  have hup := h.hostPuts settings htells raw
  have hincoming : (l.host.putWith settings buffer raw).incomingPackets = l.host.incomingPackets :=
    (frame_of_bare (putWith_bare settings buffer raw)).2.1
  rw [hostPut]
  split
  · exact ⟨hup, rfl, hincoming⟩
  split
  · exact ⟨hup.counted _ _ _, rfl, hincoming⟩
  · exact ⟨hup.counted _ _ _, rfl, hincoming⟩

theorem clientPut_upward (h : l.Upward w) (settings : SendSettings) {buffer : List UInt8}
    (hsize : (l.client.configure settings).putTargets ≠ [] → buffer.length ≤ maxSteamPacketSize)
    (raw : Nat → Nat → Bool) : (l.clientPut settings buffer raw).Upward w ∧
      (l.clientPut settings buffer raw).undeliveredUp = l.undeliveredUp ++
        if (l.client.configure settings).putTargets ≠ [] ∧
          (l.client.configure settings).getSteamTransferFlag &&& sendReliable ≠ 0
        then [buffer] else [] := by
  have hmail := h.client.solo.putWith_mail settings buffer raw
  have hclient := h.client.putWith settings buffer raw
  have hbare := putWith_bare (s := l.client) settings buffer raw
  have hunique : (l.client.putWith settings buffer raw).uniqueId = l.client.uniqueId :=
    (frame_of_bare hbare).1
  split at hmail
  · next htargets =>
    rw [if_neg (fun hn => hn.1 htargets), List.append_nil]
    refine ⟨?_, undelivered_of_mail (l := l.mirror) hmail⟩
    apply h.clientTurn_of_mail hclient hunique hmail
    rw [peerIdOf_congr hbare]
    exact fun hn => (h.unknown hn).server
  · next htargets =>
    have hpacket := packetWith_of_fits l.client settings (hsize htargets)
    have hmirror := undelivered_of_send (l := l.mirror) hmail
    rw [hpacket] at hmirror
    simp only [SteamPacketPeer.isReliable, decide_eq_true_eq] at hmirror
    simp only [ne_eq, htargets, not_false_eq_true, true_and]
    refine ⟨?_, hmirror⟩
    apply h.clientTurn_of_send hclient hunique hmail (SteamPacketPeer.length_ofBuffer _ _)
    exact fun hn => absurd (server_of_putTargets h.client settings htargets) (h.unknown hn).server

theorem Upward.hostGet (h : l.Upward w) :
    ({ l with
      host := l.host.getPacket } : SteamLink).Upward w := by
  have hhost : l.host.getPacket.Hosting w.clientId :=
    ⟨h.host.solo.getPacket, h.host.server, h.host.idle, h.host.once, h.host.sized⟩
  have huntold (hn : ¬ l.host.HasPeer w.clientId) : ({ l with
      host := l.host.getPacket } : SteamLink).Untold w := by
    have ho := h.unknown hn
    exact ⟨ho.server, ho.toClient, ho.hostQueue, ho.reliable, ho.loose, ho.clientQueue⟩
  exact ⟨hhost, h.client, h.unique, h.sized, h.queueSized, h.known, huntold⟩

theorem Upward.clientGet (h : l.Upward w) :
    ({ l with
      client := l.client.getPacket } : SteamLink).Upward w := by
  have hclient : l.client.getPacket.Joining w.hostId :=
    ⟨h.client.solo.getPacket, h.client.client, h.client.idle, h.client.once⟩
  have huntold (hn : ¬ l.host.HasPeer w.clientId) : ({ l with
      client := l.client.getPacket } : SteamLink).Untold w := by
    have ho := h.unknown hn
    exact ⟨ho.server, ho.toClient, ho.hostQueue, ho.reliable, ho.loose, ho.clientQueue⟩
  exact ⟨h.host, hclient, h.unique, h.sized, h.queueSized, h.known, huntold⟩

theorem start_upward (w : SteamParties) :
    (start w).Upward w ∧ (start w).undeliveredUp = [] ∧ (start w).host.incomingPackets = [] := by
  obtain ⟨hlinked, _⟩ := start_spec w
  have hhost : ¬ (start w).host.HasPeer w.clientId ∧
      ((start w).client.peerIdOf w.hostId ≠ some .server) ∧ (start w).host.mail.queued = [] ∧
      (start w).client.mail.queued = [] ∧ (start w).client.uniqueId = w.clientPeer.1 ∧
      (start w).host.incomingPackets = [] := by
    rw [start, createHost_fresh, createClient_fresh]
    exact ⟨fun hn => hn rfl, (fun hn => by cases hn), rfl, rfl, rfl, rfl⟩
  obtain ⟨hpeer, hserver, hqueue, hclientQueue, hunique, hincoming⟩ := hhost
  have hnothing : (start w).toClient.messages = [] ∧ (start w).toHost.reliable = [] ∧
      (start w).toHost.loose = [] := ⟨rfl, rfl, rfl⟩
  obtain ⟨htoClient, hreliable, hloose⟩ := hnothing
  refine ⟨?_, ?_, hincoming⟩
  · apply Upward.mk hlinked.host hlinked.client hunique
    · rw [hreliable]
      exact fun msg hmsg => absurd hmsg List.not_mem_nil
    · rw [hclientQueue]
      exact fun packet hp => absurd hp List.not_mem_nil
    · exact fun hn => absurd hn hpeer
    · intro _
      refine ⟨hserver, ?_, ?_, hreliable, ?_, ?_⟩
      · rw [htoClient]
        exact fun msg hmsg => absurd hmsg List.not_mem_nil
      · rw [hqueue]
        exact fun packet hp => absurd hp List.not_mem_nil
      · rw [hloose]
        exact fun msg hmsg => absurd hmsg List.not_mem_nil
      · rw [hclientQueue]
        exact fun packet hp => absurd hp List.not_mem_nil
  · change (start w).toHost.reliable.map _ ++
      ((start w).client.mail.queued.filter SteamPacketPeer.isReliable).map _ = []
    rw [hreliable, hclientQueue]
    rfl

end SteamLink

namespace UpLink

open SteamMultiplayerPeer SteamLink

variable (w : SteamParties) (u : UpLink)

def start : UpLink := ⟨SteamLink.start w, [], []⟩

/-- A packet of the client counts as put if there is a connection to hand it to. -/
def step (u : UpLink) (event : LinkEvent) : UpLink :=
  let link := SteamLink.step w u.link event
  match event with
  | .clientPut settings buffer _ =>
    let client := u.link.client.configure settings
    let put := client.putTargets ≠ [] ∧ client.getSteamTransferFlag &&& sendReliable ≠ 0
    { u with
      link := link
      put := u.put ++ if put then [buffer] else [] }
  | .toHost _ => { u with
    link := link
    got := u.got ++ link.host.incomingPackets.drop u.link.host.incomingPackets.length }
  | _ => { u with
    link := link }

/-- The host does not put what reads as its own setup message before it knows the client, and the
client puts only what fits a packet. -/
def Admits : LinkEvent → Prop
  | .hostPut settings buffer _ => ¬ u.link.host.HasPeer w.clientId →
    (u.link.host.configure settings).putTargets ≠ [] → ¬ TellsServer buffer
  | .clientPut settings buffer _ => (u.link.client.configure settings).putTargets ≠ [] →
    buffer.length ≤ maxSteamPacketSize
  | _ => True

def Client (packet : IncomingPacket) : Prop :=
  packet.sender = w.clientId ∧ packet.peerId = w.clientPeer.1

/-- What the client has put is appended in order or still to come, and the host has packets of the
client only, under the client's id. -/
structure InOrder : Prop where
  order : u.got.map (fun packet => packet.data) ++ u.link.undeliveredUp = u.put
  got : ∀ packet ∈ u.got, Client w packet
  incoming : ∀ packet ∈ u.link.host.incomingPackets, Client w packet

variable {w} {u}

theorem InOrder.of_eq (h : u.InOrder w) {link : SteamLink}
    (hundelivered : link.undeliveredUp = u.link.undeliveredUp)
    (hincoming : link.host.incomingPackets = u.link.host.incomingPackets) :
    ({ u with
      link := link } : UpLink).InOrder w := by
  apply InOrder.mk
  · change _ ++ link.undeliveredUp = _
    rw [hundelivered]
    exact h.order
  · exact h.got
  · change ∀ packet ∈ link.host.incomingPackets, _
    rw [hincoming]
    exact h.incoming

theorem incoming_append (h : u.InOrder w) {link : SteamLink} {packets : List IncomingPacket}
    (hincoming : link.host.incomingPackets = u.link.host.incomingPackets ++ packets)
    (hclient : ∀ packet ∈ packets, Client w packet) :
    ∀ packet ∈ link.host.incomingPackets, Client w packet := by
  intro packet hp
  rw [hincoming, List.mem_append] at hp
  cases hp with
  | inl hold => exact h.incoming packet hold
  | inr hnew => exact hclient packet hnew

theorem step_spec (h : u.link.Upward w) (horder : u.InOrder w) (event : LinkEvent)
    (hadmits : u.Admits w event) : (step w u event).link.Upward w ∧ (step w u event).InOrder w := by
  cases event with
  | hostMade =>
    obtain ⟨hup, hincoming⟩ := hostMade_upward h
    have hundelivered : (u.link.hostMade w).undeliveredUp = u.link.undeliveredUp := by
      rw [hostMade]
      split <;> rfl
    exact ⟨hup, horder.of_eq hundelivered hincoming⟩
  | clientMade raw =>
    obtain ⟨hup, hundelivered⟩ := clientMade_upward h raw
    have hincoming : (u.link.clientMade w raw).host.incomingPackets =
        u.link.host.incomingPackets := by
      rw [clientMade]
      split <;> rfl
    exact ⟨hup, horder.of_eq hundelivered hincoming⟩
  | toClient raw =>
    obtain ⟨hup, hundelivered, hincoming⟩ := toClient_upward h raw
    exact ⟨hup, horder.of_eq hundelivered hincoming⟩
  | looseToClient i raw =>
    obtain ⟨hup, hundelivered, hincoming⟩ := looseToClient_upward h i raw
    exact ⟨hup, horder.of_eq hundelivered hincoming⟩
  | loseToClient i => exact ⟨h.loseToClient i, horder.of_eq rfl rfl⟩
  | toHost raw =>
    obtain ⟨hup, packets, hincoming, hclient, hdata⟩ := toHost_upward h raw
    have hgot : (step w u (.toHost raw)).got = u.got ++ packets := by
      change u.got ++ (u.link.toHostStep w raw).host.incomingPackets.drop _ = _
      rw [hincoming, List.drop_left]
    refine ⟨hup, ?_, ?_, incoming_append horder hincoming hclient⟩
    · rw [hgot, List.map_append, List.append_assoc]
      exact (congrArg _ hdata).trans horder.order
    · intro packet hp
      rw [hgot, List.mem_append] at hp
      cases hp with
      | inl hold => exact horder.got packet hold
      | inr hnew => exact hclient packet hnew
  | looseToHost i raw =>
    obtain ⟨hup, hundelivered, packets, hincoming, hclient⟩ := looseToHost_upward h i raw
    refine ⟨hup, ?_, horder.got, incoming_append horder hincoming hclient⟩
    exact (congrArg _ hundelivered).trans horder.order
  | loseToHost i => exact ⟨h.loseToHost i, horder.of_eq rfl rfl⟩
  | hostPut settings buffer raw =>
    obtain ⟨hup, hundelivered, hincoming⟩ := hostPut_upward h settings hadmits raw
    exact ⟨hup, horder.of_eq hundelivered hincoming⟩
  | clientPut settings buffer raw =>
    obtain ⟨hup, hundelivered⟩ := clientPut_upward h settings hadmits raw
    refine ⟨hup, ?_, horder.got, horder.incoming⟩
    change u.got.map _ ++ (u.link.clientPut settings buffer raw).undeliveredUp = u.put ++ _
    rw [hundelivered, ← List.append_assoc, horder.order]
  | hostGet =>
    refine ⟨h.hostGet, horder.order, horder.got, ?_⟩
    exact fun packet hp => horder.incoming packet (List.mem_of_mem_tail hp)
  | clientGet => exact ⟨h.clientGet, horder.of_eq rfl rfl⟩

/-- Whatever is lost, overtaken or refused, what a client puts reliably comes to the host in order
and under the client's id. -/
theorem upward_in_order (w : SteamParties) (events : List LinkEvent)
    (hadmits : Runs.Guarded (step w) (Admits w) (start w) events) :
    Runs.Always (step w) (InOrder w) (start w) events := by
  have hstart : (start w).link.Upward w ∧ (start w).InOrder w := by
    obtain ⟨hup, hundelivered, hincoming⟩ := SteamLink.start_upward w
    refine ⟨hup, hundelivered, fun packet hp => absurd hp List.not_mem_nil, ?_⟩
    intro packet hp
    rw [start, hincoming] at hp
    cases hp
  have hsteps : Runs.Always (step w) (fun t => t.link.Upward w ∧ t.InOrder w) (start w) events :=
    Runs.always_of_guarded (fun _ event h hguard => step_spec h.1 h.2 event hguard) hstart hadmits
  exact hsteps.mono fun _ h => h.2

/-- Steam refuses the first packet of the client, which goes out before the second one. -/
def refusedRun : List LinkEvent :=
  [.hostMade, .clientMade (fun _ => true), .looseToHost 0 (fun _ => true),
    .hostPut ⟨0, .reliable, false, false⟩ [3] (fun _ _ => true),
    .looseToClient 0 (fun _ => true),
    .clientPut ⟨1, .reliable, false, false⟩ [1] (fun _ _ => false),
    .clientPut ⟨1, .reliable, false, false⟩ [2] (fun _ _ => true),
    .toHost (fun _ => true), .toHost (fun _ => true)]

theorem refusedRun_in_order :
    Runs.Always (step someParties) (InOrder someParties) (start someParties) refusedRun ∧
      (Runs.run (step someParties) (start someParties) refusedRun).got.map
        (fun packet => packet.data) = [[1], [2]] := by
  constructor
  · apply upward_in_order
    refine ⟨trivial, trivial, trivial, fun hn => absurd ?_ hn, trivial, fun _ => by decide,
      fun _ => by decide, trivial, trivial, trivial⟩
    decide +kernel
  · decide +kernel

end UpLink

end Godaemon
