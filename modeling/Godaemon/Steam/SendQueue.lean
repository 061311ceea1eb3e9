import Godaemon.Steam.Connections

namespace Godaemon
set_option autoImplicit true

namespace SteamPacketPeer

theorem length_ofBuffer (buffer : List UInt8) (transferMode : Nat) :
    (ofBuffer buffer transferMode).data.length ≤ maxSteamPacketSize := by
  rw [ofBuffer]
  split
  · exact Nat.zero_le _
  · next h => exact Nat.le_of_not_lt h

theorem ofBuffer_of_le {buffer : List UInt8} (h : buffer.length ≤ maxSteamPacketSize)
    (transferMode : Nat) : ofBuffer buffer transferMode = ⟨buffer, transferMode⟩ :=
  if_neg (Nat.not_lt.2 h)

/-- The setup message of a peer. -/
def setup (peerId : SteamPeerId) : SteamPacketPeer :=
  ofBuffer (setupPeerPayload peerId) MultiplayerPeer.TransferMode.reliable.toNat

theorem setup_eq (peerId : SteamPeerId) : setup peerId = ⟨setupPeerPayload peerId, 2⟩ := by
  apply ofBuffer_of_le
  rw [setupPeerPayload_length]
  decide

theorem setup_not_reliable (peerId : SteamPeerId) : (setup peerId).isReliable = false := by
  rw [setup_eq]
  change decide (2 &&& sendReliable ≠ 0) = false
  decide

end SteamPacketPeer

namespace SteamConnection

/-- The packets that Steam refuses and that are not kept. -/
def tossed (raw : Nat → Bool) : List SteamPacketPeer → List SteamPacketPeer
  | [] => []
  | packet :: packets =>
    let rest := tossed (fun i => raw (i + 1)) packets
    if raw 0 then rest
    else if packet.isReliable then []
    else packet :: rest

theorem count_sendPending (packet : SteamPacketPeer) (raw : Nat → Bool)
    (packets : List SteamPacketPeer) :
    (sendPending raw packets).1.count packet + (tossed raw packets).count packet +
      (sendPending raw packets).2.count packet = packets.count packet := by
  induction packets generalizing raw with
  | nil => rfl
  | cons other packets ih =>
    have hrest := ih (fun i => raw (i + 1))
    rw [sendPending, tossed]
    by_cases hraw : raw 0 = true
    · simp only [if_pos hraw, List.count_cons]
      omega
    · by_cases hreliable : other.isReliable = true
      · simp only [if_neg hraw, if_pos hreliable, List.count_nil, Nat.zero_add]
      · simp only [if_neg hraw, if_neg hreliable, List.count_cons]
        omega

theorem reliable_sendPending (raw : Nat → Bool) (packets : List SteamPacketPeer) :
    (sendPending raw packets).1.filter SteamPacketPeer.isReliable ++
      (sendPending raw packets).2.filter SteamPacketPeer.isReliable =
        packets.filter SteamPacketPeer.isReliable := by
  induction packets generalizing raw with
  | nil => rfl
  | cons packet packets ih =>
    have hrest := ih (fun i => raw (i + 1))
    rw [sendPending]
    by_cases hraw : raw 0 = true
    · simp only [if_pos hraw, List.filter_cons]
      split
      · rw [List.cons_append, hrest]
      · exact hrest
    · by_cases hreliable : packet.isReliable = true
      · simp only [if_neg hraw, if_pos hreliable, List.filter_nil, List.nil_append]
      · simp only [if_neg hraw, if_neg hreliable, List.filter_cons]
        exact hrest

theorem mem_of_accepted {raw : Nat → Bool} {packets : List SteamPacketPeer}
    {packet : SteamPacketPeer} (h : packet ∈ (sendPending raw packets).1) : packet ∈ packets := by
  have hcount := count_sendPending packet raw packets
  have hpos := List.count_pos_iff.2 h
  exact List.count_pos_iff.1 (by omega)

theorem mem_of_queued {raw : Nat → Bool} {packets : List SteamPacketPeer}
    {packet : SteamPacketPeer} (h : packet ∈ (sendPending raw packets).2) : packet ∈ packets := by
  have hcount := count_sendPending packet raw packets
  have hpos := List.count_pos_iff.2 h
  exact List.count_pos_iff.1 (by omega)

end SteamConnection

/-- What a peer has handed over to Steam, and what is queued on its only connection. -/
structure SteamMail where
  accepted : List SteamPacketPeer
  queued : List SteamPacketPeer

namespace SteamMail

open SteamConnection

/-- A packet is sent. -/
def send (mail : SteamMail) (packet : SteamPacketPeer) (raw : Nat → Bool) : SteamMail :=
  let result := sendPending raw (mail.queued ++ [packet])
  ⟨mail.accepted ++ result.1, result.2⟩

/-- A packet has been accepted by Steam, or is queued. -/
def Keeps (mail : SteamMail) (packet : SteamPacketPeer) : Prop :=
  packet ∈ mail.accepted ∨ packet ∈ mail.queued

def count (mail : SteamMail) (packet : SteamPacketPeer) : Nat :=
  mail.accepted.count packet + mail.queued.count packet

variable {mail : SteamMail} {packet other : SteamPacketPeer} {raw : Nat → Bool}

theorem keeps_iff : mail.Keeps packet ↔ 0 < mail.count packet := by
  rw [Keeps, count, ← List.count_pos_iff, ← List.count_pos_iff]
  omega

variable (mail packet other raw) in
theorem count_send : (mail.send other raw).count packet +
    (tossed raw (mail.queued ++ [other])).count packet =
      mail.count packet + if other = packet then 1 else 0 := by
  have hcount := count_sendPending packet raw (mail.queued ++ [other])
  simp only [List.count_append, List.count_singleton, beq_iff_eq] at hcount
  simp only [count, send, List.count_append]
  omega

theorem count_send_le : (mail.send other raw).count packet ≤
    mail.count packet + if other = packet then 1 else 0 := by
  have hcount := count_send mail packet other raw
  omega

theorem count_send_of_ne (h : other ≠ packet) :
    (mail.send other raw).count packet ≤ mail.count packet := by
  have hcount := count_send mail packet other raw
  rw [if_neg h] at hcount
  omega

theorem send_keeps_iff (h : mail.count packet + (if other = packet then 1 else 0) = 1) :
    (mail.send other raw).Keeps packet ↔
      packet ∉ tossed raw (mail.queued ++ [other]) := by
  have hcount := count_send mail packet other raw
  rw [keeps_iff, ← List.count_eq_zero]
  omega

theorem send_sized {n : Nat} (h : ∀ p ∈ mail.queued, p.data.length ≤ n)
    (hother : other.data.length ≤ n) : ∀ p ∈ (mail.send other raw).queued, p.data.length ≤ n := by
  intro p hp
  have hqueued := mem_of_queued hp
  rw [List.mem_append, List.mem_singleton] at hqueued
  cases hqueued with
  | inl hold => exact h p hold
  | inr hnew => rwa [hnew]

theorem send_accepted : (mail.send other raw).accepted.drop mail.accepted.length =
    (sendPending raw (mail.queued ++ [other])).1 := List.drop_left

theorem send_keeps_iff_of_ne (h : other ≠ packet) (honce : mail.count packet ≤ 1)
    (hkeeps : mail.Keeps packet) : (mail.send other raw).Keeps packet ↔
      packet ∉ tossed raw (mail.queued ++ [other]) := by
  have hpos := keeps_iff.1 hkeeps
  apply send_keeps_iff
  rw [if_neg h]
  omega

end SteamMail

namespace SteamMultiplayerPeer

variable (s : SteamMultiplayerPeer)

def mail : SteamMail := ⟨s.sent.map Prod.snd, (s.heap 0).pendingRetryPackets⟩

/-- The connections that a packet is handed to. -/
def putTargets : List Nat :=
  if !s.isActive then []
  else if s.connectionStatus ≠ .connected then []
  else if s.targetPeer ≠ 0 ∧ s.targetPeer.abs ∉ s.peerIdToSteamId then []
  else if s.activeMode = .client ∧ .server ∉ s.peerIdToSteamId then []
  else if s.targetPeer = 0 then s.connectionsBySteamId64.values
  else (s.getConnectionByPeer s.targetPeer).toList

/-- The peer has no connection but the one of this Steam id. -/
structure Solo (id : SteamId) : Prop where
  keyed : s.Keyed
  user : id ≠ s.user
  active : s.activeMode ≠ .none
  table : s.connectionsBySteamId64 = .empty ∧ s.allocated = 0 ∨
    s.connectionsBySteamId64 = Dict.empty.set id 0 ∧ s.allocated = 1

/-- The connection of this Steam id has been set up. -/
def HasPeer (id : SteamId) : Prop := (s.peerIdOf id).getD .unset ≠ .unset

instance (id : SteamId) : Decidable (s.HasPeer id) :=
  inferInstanceAs (Decidable ((s.peerIdOf id).getD .unset ≠ .unset))

variable {s} {id : SteamId}

theorem mail_sendOn (packet : SteamPacketPeer) (raw : Nat → Bool) :
    (s.sendOn 0 ((s.heap 0).send packet raw)).mail = s.mail.send packet raw := by
  simp only [mail, sendOn, SteamMail.send, SteamConnection.send, Function.update_self,
    List.map_append, List.map_map]
  congr 2
  exact List.map_id _

theorem putPacket_eq (buffer : List UInt8) (raw : Nat → Nat → Bool) :
    ((s.putPacket buffer raw).map Prod.snd).getD s =
      sendAll (.ofBuffer buffer s.getSteamTransferFlag) raw s.putTargets s := by
  by_cases hinactive : (!s.isActive) = true
  · simp only [putPacket, putTargets, if_pos hinactive]
    rfl
  by_cases hstatus : s.connectionStatus ≠ .connected
  · simp only [putPacket, putTargets, if_neg hinactive, if_pos hstatus]
    rfl
  by_cases htarget : s.targetPeer ≠ 0 ∧ s.targetPeer.abs ∉ s.peerIdToSteamId
  · simp only [putPacket, putTargets, if_neg hinactive, if_neg hstatus, if_pos htarget]
    rfl
  by_cases hclient : s.activeMode = .client ∧ .server ∉ s.peerIdToSteamId
  · simp only [putPacket, putTargets, if_neg hinactive, if_neg hstatus, if_neg htarget,
      if_pos hclient]
    rfl
  simp only [putPacket, putTargets, if_neg hinactive, if_neg hstatus, if_neg htarget,
    if_neg hclient]
  split
  · rfl
  · cases s.getConnectionByPeer s.targetPeer with
    | none => rfl
    | some ref => rfl

theorem Solo.ref_eq (hs : s.Solo id) {ref : Nat} (h : ref < s.allocated) : ref = 0 := by
  cases hs.table with
  | inl hempty => omega
  | inr hset => omega

theorem Solo.putTargets_eq (hs : s.Solo id) : s.putTargets = [] ∨ s.putTargets = [0] := by
  rw [putTargets]
  split
  · exact .inl rfl
  split
  · exact .inl rfl
  split
  · exact .inl rfl
  split
  · exact .inl rfl
  split
  · cases hs.table with
    | inl hempty =>
      rw [hempty.1]
      exact .inl rfl
    | inr hset =>
      rw [hset.1]
      exact .inr rfl
  · cases hget : s.getConnectionByPeer s.targetPeer with
    | none => exact .inl rfl
    | some ref =>
      rw [hs.ref_eq (hs.keyed.peers _ ref hget).1]
      exact .inr rfl

theorem Solo.putPacket_mail (hs : s.Solo id) (buffer : List UInt8) (raw : Nat → Nat → Bool) :
    (((s.putPacket buffer raw).map Prod.snd).getD s).mail =
      if s.putTargets = [] then s.mail
      else s.mail.send (.ofBuffer buffer s.getSteamTransferFlag) (raw 0) := by
  rw [putPacket_eq]
  cases hs.putTargets_eq with
  | inl hnone =>
    rw [hnone]
    rfl
  | inr hone =>
    rw [hone]
    exact mail_sendOn _ _

theorem peerIdOf_bare : s.bare.peerIdOf = s.peerIdOf := rfl

theorem peerIdOf_congr {t : SteamMultiplayerPeer} (h : t.bare = s.bare) :
    t.peerIdOf = s.peerIdOf := by
  rw [← peerIdOf_bare, h, peerIdOf_bare]

theorem frame_of_bare {t : SteamMultiplayerPeer} (h : t.bare = s.bare) :
    t.uniqueId = s.uniqueId ∧ t.incomingPackets = s.incomingPackets ∧
      t.activeMode = s.activeMode ∧ t.connectionsBySteamId64 = s.connectionsBySteamId64 := by
  have huniqueId : t.bare.uniqueId = s.bare.uniqueId := by rw [h]
  have hincoming : t.bare.incomingPackets = s.bare.incomingPackets := by rw [h]
  have hmode : t.bare.activeMode = s.bare.activeMode := by rw [h]
  have hconnections : t.bare.connectionsBySteamId64 = s.bare.connectionsBySteamId64 := by rw [h]
  exact ⟨huniqueId, hincoming, hmode, hconnections⟩

theorem Solo.of_bare (hs : s.Solo id) {t : SteamMultiplayerPeer} (h : t.bare = s.bare) :
    t.Solo id := by
  have hbare : s.bare.Solo id := ⟨keyed_bare.2 hs.keyed, hs.user, hs.active, hs.table⟩
  rw [← h] at hbare
  exact ⟨keyed_bare.1 hbare.keyed, hbare.user, hbare.active, hbare.table⟩

theorem Solo.setsUp_zero (hs : s.Solo id) {msg : SteamMessage} {ref : Nat} {peer : SteamPeerId}
    (h : s.setsUp id msg = some (ref, peer)) : ref = 0 :=
  hs.ref_eq (hs.keyed.connections id ref (setsUp_spec hs.keyed h).1).1

theorem Solo.receive_setup (hs : s.Solo id) {msg : SteamMessage} {ref : Nat} {peer : SteamPeerId}
    (h : s.setsUp id msg = some (ref, peer)) (raw : Nat → Bool) :
    (s.receive id msg raw).bare = (s.register 0 peer).bare ∧
      (s.receive id msg raw).mail =
        if s.isServer then s.mail.send (.setup s.uniqueId) raw else s.mail := by
  have hzero := hs.setsUp_zero h
  subst hzero
  obtain ⟨hget, huser, hunset, hset, _⟩ := setsUp_spec hs.keyed h
  obtain ⟨_, hactive, hpeer, hlength, hread, _⟩ := setsUp_of_set h
  have hmem : id ∈ s.connectionsBySteamId64 := (Dict.mem_iff_get? _).2 ⟨0, hget⟩
  have hreceive : s.receive id msg raw = s.processPing id msg raw := by
    rw [receive, if_neg (by simp [hactive]), if_neg (not_not_intro hmem),
      if_neg (not_not_intro hpeer)]
  refine ⟨hreceive ▸ processPing_bare hs.keyed h raw, ?_⟩
  obtain ⟨t, ht⟩ : ∃ t, t = s.setSteamIdPeer id peer := ⟨_, rfl⟩
  have hregistered : t.mail = s.mail ∧ t.isServer = s.isServer ∧ t.uniqueId = s.uniqueId := by
    rw [ht, setSteamIdPeer, if_neg huser, hget]
    simp only [if_pos hunset, mail, Function.update_self]
    exact ⟨trivial, rfl, trivial⟩
  obtain ⟨hmail, hserver, hunique⟩ := hregistered
  rw [hreceive]
  simp only [processPing, hlength, ne_eq, not_true_eq_false, ↓reduceIte, hget, hread, hset, hunset,
    ← ht]
  rw [← hserver, ← hmail, ← hunique]
  split
  · exact mail_sendOn _ _
  · rfl

theorem Solo.getPeerIdFromSteam64_eq (hs : s.Solo id) :
    s.getPeerIdFromSteam64 id = (s.peerIdOf id).getD .unset := by
  rw [getPeerIdFromSteam64, if_neg hs.user, peerIdOf]
  cases s.connectionsBySteamId64.get? id with
  | none => rfl
  | some ref => rfl

theorem Solo.receive_of_hasPeer (hs : s.Solo id) (h : s.HasPeer id) (msg : SteamMessage)
    (raw : Nat → Bool) : s.setsUp id msg = none ∧
      s.receive id msg raw = s.processMessage id msg := by
  have hid : s.getPeerIdFromSteam64 id ≠ .unset := by
    rw [hs.getPeerIdFromSteam64_eq]
    exact h
  obtain ⟨ref, hget⟩ : ∃ ref, s.connectionsBySteamId64.get? id = some ref := by
    apply Option.ne_none_iff_exists'.1
    intro hnone
    rw [HasPeer, peerIdOf, hnone] at h
    exact h rfl
  have hmem : id ∈ s.connectionsBySteamId64 := (Dict.mem_iff_get? _).2 ⟨ref, hget⟩
  have hactive : ¬ (!s.isActive) = true := by simpa [isActive] using hs.active
  apply And.intro
  · simp only [setsUp, hget, hid, false_and, and_false, ↓reduceIte]
  · rw [receive, if_neg hactive, if_neg (not_not_intro hmem), if_pos hid]

/-- A message that comes before the connection has been set up, and does not set it up, is lost. -/
theorem Solo.receive_lost (hs : s.Solo id) (h : ¬ s.HasPeer id) {msg : SteamMessage}
    (hset : s.setsUp id msg = none) (raw : Nat → Bool) : s.receive id msg raw = s := by
  have hactive : s.isActive = true := by simpa [isActive] using hs.active
  rw [receive]
  split
  · rfl
  split
  · rfl
  · next hmem =>
    obtain ⟨ref, hget⟩ := (Dict.mem_iff_get? _).1 (not_not.1 hmem)
    have hpeer : s.peerIdOf id = some (s.heap ref).peerId := by rw [peerIdOf, hget, Option.map_some]
    have hunset : (s.heap ref).peerId = .unset := by
      rw [HasPeer, hpeer] at h
      exact not_not.1 h
    have hid : s.getPeerIdFromSteam64 id = .unset := by
      rw [hs.getPeerIdFromSteam64_eq, hpeer, hunset]
      rfl
    rw [if_neg (not_not_intro hid), processPing]
    split
    · rfl
    · next hlength =>
      simp only [setsUp, hget, hactive, hid, not_not.1 hlength, true_and, ite_eq_right_iff,
        reduceCtorEq, imp_false, not_not] at hset
      simp only [hget, hset, ↓reduceIte]

theorem Solo.register (hs : s.Solo id) {msg : SteamMessage} {ref : Nat} {peer : SteamPeerId}
    (h : s.setsUp id msg = some (ref, peer)) : (s.register 0 peer).Solo id := by
  have hzero := hs.setsUp_zero h
  subst hzero
  obtain ⟨hget, _, hunset, hset, hmode⟩ := setsUp_spec hs.keyed h
  exact ⟨hs.keyed.register hget hunset hset hmode, hs.user, hs.active, hs.table⟩

theorem Solo.peerIdOf_register (hs : s.Solo id) {msg : SteamMessage} {ref : Nat}
    {peer : SteamPeerId} (h : s.setsUp id msg = some (ref, peer)) :
    (s.register 0 peer).peerIdOf id = some peer := by
  have hzero := hs.setsUp_zero h
  subst hzero
  have hget := (setsUp_spec hs.keyed h).1
  change (s.connectionsBySteamId64.get? id).map
    (fun r => (Function.update s.heap 0 _ r).peerId) = some peer
  rw [hget, Option.map_some, Function.update_self]

theorem Solo.processMessage (hs : s.Solo id) (msg : SteamMessage) :
    (s.processMessage id msg).Solo id := by
  rw [SteamMultiplayerPeer.processMessage]
  split
  · exact hs
  · have hk := hs.keyed
    exact ⟨⟨hk.connections, hk.peers, hk.idle, hk.server, hk.unique⟩, hs.user, hs.active, hs.table⟩

theorem processMessage_frame (msg : SteamMessage) :
    (s.processMessage id msg).peerIdOf = s.peerIdOf ∧
      (s.processMessage id msg).mail = s.mail ∧
      (s.processMessage id msg).uniqueId = s.uniqueId ∧
      (s.processMessage id msg).connectionsBySteamId64 = s.connectionsBySteamId64 := by
  rw [processMessage]
  split
  · exact ⟨rfl, rfl, rfl, rfl⟩
  · exact ⟨rfl, rfl, rfl, rfl⟩

theorem Solo.of_not_mem (hs : s.Solo id) (h : id ∉ s.connectionsBySteamId64) :
    s.connectionsBySteamId64 = .empty ∧ s.allocated = 0 := by
  cases hs.table with
  | inl hempty => exact hempty
  | inr hset =>
    rw [hset.1] at h
    exact absurd ((Dict.mem_set _).2 (.inl rfl)) h

theorem Solo.added (hs : s.Solo id) (hmem : id ∉ s.connectionsBySteamId64)
    (handle : SteamHandle) : (s.added id handle).Solo id ∧
      (s.added id handle).peerIdOf id = some .unset ∧
      (s.added id handle).mail = ⟨s.mail.accepted, []⟩ := by
  obtain ⟨hnone, hzero⟩ := hs.of_not_mem hmem
  refine ⟨⟨hs.keyed.added _ _, hs.user, hs.active, .inr ?_⟩, ?_, ?_⟩
  · simp only [SteamMultiplayerPeer.added, hnone, hzero, and_self]
  · simp only [SteamMultiplayerPeer.added, peerIdOf, Dict.get?_set_self, Option.map_some,
      Function.update_self, SteamConnection.new]
  · simp only [SteamMultiplayerPeer.added, mail, hzero, Function.update_self, SteamConnection.new]

end SteamMultiplayerPeer

end Godaemon
