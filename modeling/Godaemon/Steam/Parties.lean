import Godaemon.Steam.SendQueue

namespace Godaemon
set_option autoImplicit true

/-- How a packet is put. -/
structure SendSettings where
  targetPeer : SteamPeerId
  transferMode : MultiplayerPeer.TransferMode
  noNagle : Bool
  noDelay : Bool

namespace SteamMultiplayerPeer

open SteamConnection

variable (s : SteamMultiplayerPeer)

def configure (settings : SendSettings) : SteamMultiplayerPeer :=
  { s with
    targetPeer := settings.targetPeer
    transferMode := settings.transferMode
    noNagle := settings.noNagle
    noDelay := settings.noDelay }

/-- A packet is put. -/
def putWith (settings : SendSettings) (buffer : List UInt8) (raw : Nat → Nat → Bool) :
    SteamMultiplayerPeer :=
  let s := s.configure settings
  ((s.putPacket buffer raw).map Prod.snd).getD s

/-- The packet that a buffer is put into. -/
def packetWith (settings : SendSettings) (buffer : List UInt8) : SteamPacketPeer :=
  .ofBuffer buffer (s.configure settings).getSteamTransferFlag

/-- A host that has at most the connection of this Steam id, and that answers a setup message
once. -/
structure Hosting (id : SteamId) : Prop where
  solo : s.Solo id
  server : s.isServer
  idle : id ∉ s.connectionsBySteamId64 → s.mail.queued = []
  once : s.mail.count (.setup s.uniqueId) ≤ if s.HasPeer id then 1 else 0
  sized : ∀ packet ∈ s.mail.queued, packet.data.length ≤ maxSteamPacketSize

/-- A client that has at most the connection to this Steam id, and that sends its setup message
when the connection is made. -/
structure Joining (id : SteamId) : Prop where
  solo : s.Solo id
  client : ¬ s.isServer
  idle : id ∉ s.connectionsBySteamId64 →
    s.mail.queued = [] ∧ s.connectionStatus ≠ .connected
  once : s.mail.count (.setup s.uniqueId) ≤ if id ∈ s.connectionsBySteamId64 then 1 else 0

/-- The setup message that answers a peer has been accepted by Steam, or is queued. -/
def Answered (id : SteamId) : Prop := s.HasPeer id → s.mail.Keeps (.setup s.uniqueId)

/-- The setup message that a connection starts with has been accepted by Steam, or is queued. -/
def Introduced (id : SteamId) : Prop :=
  id ∈ s.connectionsBySteamId64 → s.mail.Keeps (.setup s.uniqueId)

/-- The host is registered under its own peer id only. -/
def KnowsServer (id : SteamId) : Prop := s.HasPeer id → s.peerIdOf id = some .server

/-- Steam does not refuse the answer to a message that sets a connection up. -/
def AnswerKept (id : SteamId) (msg : SteamMessage) (raw : Nat → Bool) : Prop :=
  ∀ ref peer, s.setsUp id msg = some (ref, peer) →
    SteamPacketPeer.setup s.uniqueId ∉ tossed raw (s.mail.queued ++ [.setup s.uniqueId])

/-- A packet that is put does not make Steam refuse the queued setup message. -/
def PutKept (settings : SendSettings) (buffer : List UInt8) (raw : Nat → Nat → Bool) : Prop :=
  SteamPacketPeer.setup s.uniqueId ∉
    tossed (raw 0) (s.mail.queued ++ [s.packetWith settings buffer])

/-- A message that sets the connection up tells the host's id. -/
def SetsServerUp (id : SteamId) (msg : SteamMessage) : Prop :=
  ∀ ref peer, s.setsUp id msg = some (ref, peer) → peer = .server

variable {s} {id : SteamId}

theorem putWith_bare (settings : SendSettings) (buffer : List UInt8) (raw : Nat → Nat → Bool) :
    (s.putWith settings buffer raw).bare = s.bare :=
  (bare_putPacket buffer raw).trans rfl

theorem Solo.putWith_mail (hs : s.Solo id) (settings : SendSettings) (buffer : List UInt8)
    (raw : Nat → Nat → Bool) : (s.putWith settings buffer raw).mail =
      if (s.configure settings).putTargets = [] then s.mail
      else s.mail.send (s.packetWith settings buffer) (raw 0) :=
  (hs.of_bare (t := s.configure settings) rfl).putPacket_mail buffer raw

/-- Steam's flags are never the number of the mode that setup messages are sent with. -/
theorem getSteamTransferFlag_ne : s.getSteamTransferFlag ≠ 2 := by
  rw [getSteamTransferFlag]
  cases s.transferMode <;> cases s.noNagle <;> cases s.noDelay <;> decide

theorem packetWith_ne_setup (settings : SendSettings) (buffer : List UInt8) (peer : SteamPeerId) :
    s.packetWith settings buffer ≠ .setup peer := by
  intro heq
  have hmode : (s.packetWith settings buffer).transferMode = 2 := by
    rw [heq, SteamPacketPeer.setup_eq]
  rw [packetWith, SteamPacketPeer.ofBuffer] at hmode
  split at hmode
  · cases hmode
  · exact getSteamTransferFlag_ne hmode

theorem HasPeer.mem (h : s.HasPeer id) : id ∈ s.connectionsBySteamId64 := by
  apply Classical.byContradiction
  intro hmem
  rw [HasPeer, peerIdOf, (Dict.get?_eq_none_iff _).2 hmem] at h
  exact h rfl

theorem Solo.mem_of_putTargets (hs : s.Solo id) (h : s.putTargets ≠ []) :
    id ∈ s.connectionsBySteamId64 := by
  cases hs.table with
  | inr hset =>
    rw [hset.1]
    exact (Dict.mem_set _).2 (.inl rfl)
  | inl hempty =>
    have hnone : s.getConnectionByPeer s.targetPeer = none := by
      cases hget : s.getConnectionByPeer s.targetPeer with
      | none => rfl
      | some ref =>
        have hlt := (hs.keyed.peers _ ref hget).1
        omega
    have hvalues : (Dict.empty : Dict SteamId Nat).values = [] := rfl
    apply absurd _ h
    rw [putTargets, hnone, hempty.1, hvalues]
    simp only [Option.toList_none, ite_self]

theorem hasPeer_congr {t : SteamMultiplayerPeer} (h : t.bare = s.bare) :
    t.HasPeer id ↔ s.HasPeer id := by
  rw [HasPeer, HasPeer, peerIdOf_congr h]

theorem Hosting.of_mail (h : s.Hosting id) {t : SteamMultiplayerPeer} (hsolo : t.Solo id)
    (hpeer : t.HasPeer id ↔ s.HasPeer id) (hmail : t.mail = s.mail)
    (hunique : t.uniqueId = s.uniqueId)
    (hconnections : t.connectionsBySteamId64 = s.connectionsBySteamId64) : t.Hosting id := by
  apply Hosting.mk hsolo
  · rw [isServer, hunique]
    exact h.server
  · rw [hmail, hconnections]
    exact h.idle
  · simp only [hmail, hunique, hpeer]
    exact h.once
  · rw [hmail]
    exact h.sized

theorem Hosting.of_send (h : s.Hosting id) {t : SteamMultiplayerPeer} (hsolo : t.Solo id)
    (hmem : id ∈ s.connectionsBySteamId64) {packet : SteamPacketPeer} {raw : Nat → Bool}
    (hmail : t.mail = s.mail.send packet raw)
    (hsize : packet.data.length ≤ maxSteamPacketSize) (hunique : t.uniqueId = s.uniqueId)
    (hconnections : t.connectionsBySteamId64 = s.connectionsBySteamId64)
    (honce : (s.mail.send packet raw).count (.setup s.uniqueId) ≤ if t.HasPeer id then 1 else 0) :
    t.Hosting id := by
  apply Hosting.mk hsolo
  · rw [isServer, hunique]
    exact h.server
  · rw [hconnections]
    exact fun hne => absurd hmem hne
  · rw [hmail, hunique]
    exact honce
  · rw [hmail]
    exact SteamMail.send_sized h.sized hsize

theorem Hosting.putWith (h : s.Hosting id) (settings : SendSettings) (buffer : List UInt8)
    (raw : Nat → Nat → Bool) : (s.putWith settings buffer raw).Hosting id := by
  have hbare := putWith_bare (s := s) settings buffer raw
  have hsolo := h.solo.of_bare hbare
  have hmail := h.solo.putWith_mail settings buffer raw
  have hpeer : (s.putWith settings buffer raw).HasPeer id ↔ s.HasPeer id := hasPeer_congr hbare
  obtain ⟨hunique, _, _, hconnections⟩ := frame_of_bare hbare
  split at hmail
  · exact h.of_mail hsolo hpeer hmail hunique hconnections
  · next htargets =>
    have hmem : id ∈ s.connectionsBySteamId64 :=
      (h.solo.of_bare (t := s.configure settings) rfl).mem_of_putTargets htargets
    apply h.of_send hsolo hmem hmail (SteamPacketPeer.length_ofBuffer _ _) hunique hconnections
    simp only [hpeer]
    exact (SteamMail.count_send_of_ne (packetWith_ne_setup settings buffer _)).trans h.once

/-- The answer is kept exactly if Steam does not refuse it in favour of what is put. -/
theorem Hosting.putWith_answered_iff (h : s.Hosting id) (hanswered : s.Answered id)
    (settings : SendSettings) (buffer : List UInt8) (raw : Nat → Nat → Bool) :
    (s.putWith settings buffer raw).Answered id ↔
      ((s.configure settings).putTargets ≠ [] → s.HasPeer id → s.PutKept settings buffer raw) := by
  have hbare := putWith_bare (s := s) settings buffer raw
  have hmail := h.solo.putWith_mail settings buffer raw
  rw [Answered, hasPeer_congr hbare, (frame_of_bare hbare).1, hmail]
  split
  · next htargets => exact iff_of_true hanswered (fun hne => absurd htargets hne)
  · next htargets =>
    rw [imp_iff_right htargets]
    apply imp_congr_right
    intro hpeer
    have honce := h.once
    rw [if_pos hpeer] at honce
    exact SteamMail.send_keeps_iff_of_ne (packetWith_ne_setup settings buffer _) honce
      (hanswered hpeer)

theorem Solo.receive_eq (hs : s.Solo id) {msg : SteamMessage} (hset : s.setsUp id msg = none)
    (raw : Nat → Bool) :
    s.receive id msg raw = if s.HasPeer id then s.processMessage id msg else s := by
  split
  · next hpeer => exact (hs.receive_of_hasPeer hpeer msg raw).2
  · next hpeer => exact hs.receive_lost hpeer hset raw

theorem Solo.not_hasPeer_of_setsUp (hs : s.Solo id) {msg : SteamMessage} {ref : Nat}
    {peer : SteamPeerId} (h : s.setsUp id msg = some (ref, peer)) : ¬ s.HasPeer id := by
  intro hpeer
  rw [(hs.receive_of_hasPeer hpeer msg (fun _ => true)).1] at h
  cases h

theorem Solo.receive_frame (hs : s.Solo id) {msg : SteamMessage} (hset : s.setsUp id msg = none)
    (raw : Nat → Bool) : (s.receive id msg raw).Solo id ∧
      (s.receive id msg raw).peerIdOf = s.peerIdOf ∧ (s.receive id msg raw).mail = s.mail ∧
      (s.receive id msg raw).uniqueId = s.uniqueId ∧
      (s.receive id msg raw).connectionsBySteamId64 = s.connectionsBySteamId64 := by
  rw [hs.receive_eq hset raw]
  split
  · exact ⟨hs.processMessage msg, processMessage_frame msg⟩
  · exact ⟨hs, rfl, rfl, rfl, rfl⟩

theorem Solo.hasPeer_register (hs : s.Solo id) {msg : SteamMessage} {ref : Nat}
    {peer : SteamPeerId} (h : s.setsUp id msg = some (ref, peer)) :
    (s.register 0 peer).HasPeer id := by
  rw [HasPeer, hs.peerIdOf_register h]
  exact (setsUp_spec hs.keyed h).2.2.2.1

theorem Hosting.receive (h : s.Hosting id) (msg : SteamMessage) (raw : Nat → Bool) :
    (s.receive id msg raw).Hosting id := by
  cases hset : s.setsUp id msg with
  | none =>
    obtain ⟨hsolo, hpeer, hmail, hunique, hconnections⟩ := h.solo.receive_frame hset raw
    apply h.of_mail hsolo ?_ hmail hunique hconnections
    rw [HasPeer, HasPeer, hpeer]
  | some result =>
    obtain ⟨ref, peer⟩ := result
    obtain ⟨hbare, hmail⟩ := h.solo.receive_setup hset raw
    rw [if_pos h.server] at hmail
    obtain ⟨hunique, _, _, hconnections⟩ := frame_of_bare hbare
    have hsolo := (h.solo.register hset).of_bare hbare
    have hmem : id ∈ s.connectionsBySteamId64 :=
      (Dict.mem_iff_get? _).2 ⟨ref, (setsUp_spec h.solo.keyed hset).1⟩
    have honce := h.once
    rw [if_neg (h.solo.not_hasPeer_of_setsUp hset)] at honce
    apply h.of_send hsolo hmem hmail (SteamPacketPeer.length_ofBuffer _ _) hunique hconnections
    rw [if_pos ((hasPeer_congr hbare).2 (h.solo.hasPeer_register hset))]
    apply SteamMail.count_send_le.trans
    rw [if_pos rfl]
    exact Nat.add_le_add_right honce 1

theorem Hosting.receive_answered_iff (h : s.Hosting id) (hanswered : s.Answered id)
    (msg : SteamMessage) (raw : Nat → Bool) :
    (s.receive id msg raw).Answered id ↔ s.AnswerKept id msg raw := by
  cases hset : s.setsUp id msg with
  | none =>
    obtain ⟨_, hpeer, hmail, hunique, _⟩ := h.solo.receive_frame hset raw
    rw [Answered, HasPeer, hpeer, hmail, hunique]
    refine iff_of_true hanswered ?_
    intro ref peer hset'
    rw [hset] at hset'
    cases hset'
  | some result =>
    obtain ⟨ref, peer⟩ := result
    obtain ⟨hbare, hmail⟩ := h.solo.receive_setup hset raw
    rw [if_pos h.server] at hmail
    have hunique : (s.receive id msg raw).uniqueId = s.uniqueId := (frame_of_bare hbare).1
    have hpeer := (hasPeer_congr hbare).2 (h.solo.hasPeer_register hset)
    have honce := h.once
    rw [if_neg (h.solo.not_hasPeer_of_setsUp hset)] at honce
    rw [Answered, imp_iff_right hpeer, hmail, hunique, SteamMail.send_keeps_iff]
    · constructor
      · intro hkept ref' peer' _
        exact hkept
      · intro hkept
        exact hkept ref peer hset
    · rw [if_pos rfl, Nat.le_zero.1 honce]

theorem Hosting.connectionMade (h : s.Hosting id) (hmem : id ∉ s.connectionsBySteamId64)
    {change : StatusChange} (hid : change.identityRemote = id) :
    (s.connectionMade change).Hosting id ∧ ¬ (s.connectionMade change).HasPeer id ∧
      (s.connectionMade change).mail = s.mail := by
  have hadded : s.connectionMade change = s.added id change.handle := by
    rw [SteamMultiplayerPeer.connectionMade, if_pos h.server, addConnection_snd, hid,
      if_neg h.solo.user]
  obtain ⟨hsolo, hpeer, hmail⟩ := h.solo.added hmem change.handle
  have hqueued : s.mail = ⟨s.mail.accepted, []⟩ := by rw [← h.idle hmem]
  have hnone : ¬ (s.added id change.handle).HasPeer id := by
    rw [HasPeer, hpeer]
    exact not_not_intro rfl
  rw [← hqueued] at hmail
  rw [hadded]
  refine ⟨⟨hsolo, h.server, ?_, ?_, ?_⟩, hnone, hmail⟩
  · intro hmem'
    exact absurd ((Dict.mem_set _).2 (.inl rfl)) hmem'
  · rw [if_neg hnone, hmail]
    have honce := h.once
    rw [if_neg (fun hpeer => hmem hpeer.mem)] at honce
    exact honce
  · rw [hmail]
    exact h.sized

theorem Joining.of_mem {t : SteamMultiplayerPeer} (h : s.Joining id) (hsolo : t.Solo id)
    (hmem : id ∈ s.connectionsBySteamId64) (hunique : t.uniqueId = s.uniqueId)
    (hconnections : t.connectionsBySteamId64 = s.connectionsBySteamId64)
    (hcount : t.mail.count (.setup s.uniqueId) ≤ s.mail.count (.setup s.uniqueId)) :
    t.Joining id := by
  apply Joining.mk hsolo
  · rw [isServer, hunique]
    exact h.client
  · rw [hconnections]
    exact fun hne => absurd hmem hne
  · rw [hunique, hconnections]
    exact hcount.trans h.once

theorem connectionStatus_of_bare {t : SteamMultiplayerPeer} (h : t.bare = s.bare) :
    t.connectionStatus = s.connectionStatus := by
  have hstatus : t.bare.connectionStatus = s.bare.connectionStatus := by rw [h]
  exact hstatus

theorem Joining.putWith (h : s.Joining id) (settings : SendSettings) (buffer : List UInt8)
    (raw : Nat → Nat → Bool) : (s.putWith settings buffer raw).Joining id := by
  have hbare := putWith_bare (s := s) settings buffer raw
  have hmail := h.solo.putWith_mail settings buffer raw
  obtain ⟨hunique, _, _, hconnections⟩ := frame_of_bare hbare
  split at hmail
  · have hstatus : (s.putWith settings buffer raw).connectionStatus = s.connectionStatus :=
      connectionStatus_of_bare hbare
    apply Joining.mk (h.solo.of_bare hbare)
    · rw [isServer, hunique]
      exact h.client
    · rw [hmail, hconnections, hstatus]
      exact h.idle
    · rw [hmail, hunique, hconnections]
      exact h.once
  · next htargets =>
    have hmem : id ∈ s.connectionsBySteamId64 :=
      (h.solo.of_bare (t := s.configure settings) rfl).mem_of_putTargets htargets
    apply h.of_mem (h.solo.of_bare hbare) hmem hunique hconnections
    rw [hmail]
    exact SteamMail.count_send_of_ne (packetWith_ne_setup settings buffer _)

theorem Joining.putWith_introduced_iff (h : s.Joining id) (hintroduced : s.Introduced id)
    (settings : SendSettings) (buffer : List UInt8) (raw : Nat → Nat → Bool) :
    (s.putWith settings buffer raw).Introduced id ↔
      ((s.configure settings).putTargets ≠ [] → s.PutKept settings buffer raw) := by
  have hbare := putWith_bare (s := s) settings buffer raw
  have hmail := h.solo.putWith_mail settings buffer raw
  obtain ⟨hunique, _, _, hconnections⟩ := frame_of_bare hbare
  rw [Introduced, hconnections, hunique, hmail]
  split
  · next htargets => exact iff_of_true hintroduced (fun hne => absurd htargets hne)
  · next htargets =>
    have hmem : id ∈ s.connectionsBySteamId64 :=
      (h.solo.of_bare (t := s.configure settings) rfl).mem_of_putTargets htargets
    have honce := h.once
    rw [if_pos hmem] at honce
    rw [imp_iff_right hmem, imp_iff_right htargets]
    exact SteamMail.send_keeps_iff_of_ne (packetWith_ne_setup settings buffer _) honce
      (hintroduced hmem)

theorem Joining.receive_frame (h : s.Joining id) (msg : SteamMessage) (raw : Nat → Bool) :
    (s.receive id msg raw).Solo id ∧ (s.receive id msg raw).mail = s.mail ∧
      (s.receive id msg raw).uniqueId = s.uniqueId ∧
      (s.receive id msg raw).connectionsBySteamId64 = s.connectionsBySteamId64 := by
  cases hset : s.setsUp id msg with
  | none =>
    obtain ⟨hsolo, _, hframe⟩ := h.solo.receive_frame hset raw
    exact ⟨hsolo, hframe⟩
  | some result =>
    obtain ⟨ref, peer⟩ := result
    obtain ⟨hbare, hmail⟩ := h.solo.receive_setup hset raw
    rw [if_neg h.client] at hmail
    obtain ⟨hunique, _, _, hconnections⟩ := frame_of_bare hbare
    exact ⟨(h.solo.register hset).of_bare hbare, hmail, hunique, hconnections⟩

theorem Joining.receive (h : s.Joining id) (hmem : id ∈ s.connectionsBySteamId64)
    (msg : SteamMessage) (raw : Nat → Bool) : (s.receive id msg raw).Joining id := by
  obtain ⟨hsolo, hmail, hunique, hconnections⟩ := h.receive_frame msg raw
  apply h.of_mem hsolo hmem hunique hconnections
  rw [hmail]

theorem Joining.receive_introduced (h : s.Joining id) (hintroduced : s.Introduced id)
    (msg : SteamMessage) (raw : Nat → Bool) : (s.receive id msg raw).Introduced id := by
  obtain ⟨_, hmail, hunique, hconnections⟩ := h.receive_frame msg raw
  rw [Introduced, hmail, hunique, hconnections]
  exact hintroduced

/-- The host is known under its own id exactly if that is what the message tells. -/
theorem Solo.receive_knowsServer_iff (hs : s.Solo id) (hknows : s.KnowsServer id)
    (msg : SteamMessage) (raw : Nat → Bool) :
    (s.receive id msg raw).KnowsServer id ↔ s.SetsServerUp id msg := by
  cases hset : s.setsUp id msg with
  | none =>
    obtain ⟨_, hpeer, _⟩ := hs.receive_frame hset raw
    rw [KnowsServer, HasPeer, hpeer]
    refine iff_of_true hknows ?_
    intro ref peer hset'
    rw [hset] at hset'
    cases hset'
  | some result =>
    obtain ⟨ref, peer⟩ := result
    obtain ⟨hbare, _⟩ := hs.receive_setup hset raw
    have hpeer := (hasPeer_congr hbare).2 (hs.hasPeer_register hset)
    rw [KnowsServer, imp_iff_right hpeer, peerIdOf_congr hbare, hs.peerIdOf_register hset]
    constructor
    · intro heq ref' peer' hset'
      rw [hset] at hset'
      cases hset'
      exact Option.some.inj heq
    · intro hserver
      rw [hserver ref peer hset]

theorem Solo.receive_appends (hs : s.Solo id) {msg : SteamMessage}
    (hsize : msg.data.length ≤ maxSteamPacketSize) (raw : Nat → Bool) :
    ((s.receive id msg raw).incomingPackets.drop s.incomingPackets.length).map
      (fun packet => packet.data) = if s.HasPeer id then [msg.data] else [] := by
  cases hset : s.setsUp id msg with
  | none =>
    rw [hs.receive_eq hset raw]
    split
    · rw [SteamMultiplayerPeer.processMessage, if_neg (Nat.not_lt.2 hsize), List.drop_left]
      rfl
    · rw [List.drop_length]
      rfl
  | some result =>
    obtain ⟨ref, peer⟩ := result
    obtain ⟨hbare, _⟩ := hs.receive_setup hset raw
    have hincoming : (s.receive id msg raw).incomingPackets = s.incomingPackets :=
      (frame_of_bare hbare).2.1
    rw [hincoming, List.drop_length, if_neg (hs.not_hasPeer_of_setsUp hset)]
    rfl

theorem Joining.connectionMade_eq (h : s.Joining id) (hmem : id ∉ s.connectionsBySteamId64)
    {change : StatusChange} (hid : change.identityRemote = id) :
    ∃ t : SteamMultiplayerPeer, t.Solo id ∧ t.peerIdOf id = some .unset ∧ t.mail = s.mail ∧
      t.uniqueId = s.uniqueId ∧ id ∈ t.connectionsBySteamId64 ∧
      s.connectionMade change = t.sendOn 0 ((t.heap 0).send (.setup s.uniqueId) change.raw) := by
  obtain ⟨hqueued, hstatus⟩ := h.idle hmem
  have hnoticed : s.noticed = { s with
      connectionStatus := .connected } := if_neg h.client
  obtain ⟨u, hu⟩ : ∃ u, u = s.noticed := ⟨_, rfl⟩
  have hsame : u.user = s.user ∧ u.activeMode = s.activeMode ∧ u.mail = s.mail ∧
      u.uniqueId = s.uniqueId ∧ u.connectionsBySteamId64 = s.connectionsBySteamId64 ∧
      u.allocated = s.allocated := by
    rw [hu, hnoticed]
    exact ⟨rfl, rfl, rfl, rfl, rfl, rfl⟩
  obtain ⟨huser, hmode, hmail, hunique, hconnections, hallocated⟩ := hsame
  have hsolo : u.Solo id := by
    refine ⟨hu ▸ h.solo.keyed.noticed, ?_, ?_, ?_⟩
    · rw [huser]
      exact h.solo.user
    · rw [hmode]
      exact h.solo.active
    · rw [hconnections, hallocated]
      exact h.solo.table
  rw [← hconnections] at hmem
  obtain ⟨hadded, hpeer, hqueue⟩ := hsolo.added hmem change.handle
  refine ⟨u.added id change.handle, hadded, hpeer, ?_, hunique,
    (Dict.mem_set _).2 (.inl rfl), ?_⟩
  · rw [hqueue, hmail, ← hqueued]
  · have hadd : u.addConnection id change.handle =
        (some u.allocated, u.added id change.handle) := if_neg hsolo.user
    rw [(hsolo.of_not_mem hmem).2] at hadd
    rw [SteamMultiplayerPeer.connectionMade, if_neg h.client, if_pos hstatus, ← hnoticed, ← hu, hid]
    simp only [hadd]
    rw [← hunique]
    rfl

theorem Joining.connectionMade (h : s.Joining id) (hmem : id ∉ s.connectionsBySteamId64)
    {change : StatusChange} (hid : change.identityRemote = id) :
    (s.connectionMade change).Joining id ∧ ¬ (s.connectionMade change).HasPeer id ∧
      ((s.connectionMade change).Introduced id ↔ change.raw 0 = true) := by
  obtain ⟨t, hsolo, hpeer, hmail, hunique, hmem', heq⟩ := h.connectionMade_eq hmem hid
  have honce := h.once
  rw [if_neg hmem, ← hmail] at honce
  have hqueued := (h.idle hmem).1
  rw [← hmail] at hqueued
  have hbare : (s.connectionMade change).bare = t.bare := by
    rw [heq]
    exact bare_sendOn (SteamConnection.send_bare _ _ _)
  have hsent : (s.connectionMade change).mail = t.mail.send (.setup s.uniqueId) change.raw := by
    rw [heq, mail_sendOn]
  obtain ⟨hunique', _, _, hconnections⟩ := frame_of_bare hbare
  rw [← hconnections] at hmem'
  refine ⟨⟨hsolo.of_bare hbare, ?_, ?_, ?_⟩, ?_, ?_⟩
  · rw [isServer, hunique', hunique]
    exact h.client
  · exact fun hne => absurd hmem' hne
  · rw [if_pos hmem', hsent, hunique', hunique]
    apply SteamMail.count_send_le.trans
    rw [if_pos rfl]
    exact Nat.add_le_add_right honce 1
  · rw [hasPeer_congr hbare, HasPeer, hpeer]
    exact not_not_intro rfl
  · rw [Introduced, imp_iff_right hmem', hsent, hunique', hunique, SteamMail.send_keeps_iff]
    · have hreliable : ¬ (SteamPacketPeer.setup s.uniqueId).isReliable = true := by
        rw [SteamPacketPeer.setup_not_reliable]
        exact Bool.false_ne_true
      rw [hqueued, List.nil_append, tossed, tossed, if_neg hreliable]
      split
      · next hraw => exact iff_of_true List.not_mem_nil hraw
      · next hraw => exact iff_of_false (not_not_intro List.mem_cons_self) hraw
    · rw [if_pos rfl, Nat.le_zero.1 honce]

theorem Solo.getPacket (hs : s.Solo id) : s.getPacket.Solo id := by
  have hk := hs.keyed
  exact ⟨⟨hk.connections, hk.peers, hk.idle, hk.server, hk.unique⟩, hs.user, hs.active, hs.table⟩

theorem Hosting.createHost {user : SteamId} (hne : id ≠ user)
    (socket : { handle : SteamHandle // handle ≠ .invalid }) :
    ((fresh user).createHost 1 socket.1).2.Hosting id := by
  have hkeyed := (Keyed.fresh user).createHost 1 socket.1
  rw [createHost_fresh] at hkeyed ⊢
  have hsolo : Solo _ id := ⟨hkeyed, hne, (fun h => by cases h), .inl ⟨rfl, rfl⟩⟩
  apply Hosting.mk hsolo
  · rfl
  · exact fun _ => rfl
  · exact Nat.zero_le _
  · intro packet hpacket
    cases hpacket

theorem Joining.createClient {user : SteamId} (hne : id ≠ user)
    (handle : { handle : SteamHandle // handle ≠ .invalid }) (peer : ClientId) :
    ((fresh user).createClient 1 handle.1 peer).2.Joining id := by
  have hkeyed := (Keyed.fresh user).createClient 1 handle.1 peer
  rw [createClient_fresh] at hkeyed ⊢
  have hmode : ¬ SteamMode.client = .server := by decide
  refine ⟨⟨hkeyed, hne, (fun h => by cases h), .inl ⟨rfl, rfl⟩⟩, ?_, ?_, Nat.zero_le _⟩
  · exact fun hserver => hmode (hkeyed.server.1 hserver)
  · exact fun _ => ⟨rfl, fun h => by cases h⟩

end SteamMultiplayerPeer

end Godaemon
