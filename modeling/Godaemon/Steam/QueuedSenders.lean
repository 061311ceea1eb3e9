import Godaemon.Steam.Connections

namespace Godaemon
set_option autoImplicit true

namespace SteamMultiplayerPeer

variable (s : SteamMultiplayerPeer)

/-- The front packet has the peer id that its sender's connection had when it came. -/
def FrontKept : Prop :=
  s.isActive → ∀ packet rest, s.incomingPackets = packet :: rest →
    s.getPacketPeer = some packet.peerId

/-- Every packet of the queue is kept as it comes to the front, however many are read. -/
def SendersKept : Prop :=
  ∀ n, (Runs.run step s (List.replicate n .getPacket)).FrontKept

/-- The senders of all queued packets are in the table, under the ids that they had. -/
def QueueKept : Prop :=
  s.isActive → ∀ packet ∈ s.incomingPackets, s.peerIdOf packet.sender = some packet.peerId

/-- No queued packet is from this sender. -/
def NoneFrom (id : SteamId) : Prop := ∀ packet ∈ s.incomingPackets, packet.sender ≠ id

/-- An entry is removed or replaced only if no packet of its sender is queued, and a session starts
with an empty queue. -/
def SparesSenders : SteamEvent → Prop
  | .createHost port socket => ¬ s.isActive → 0 < port → socket ≠ .invalid →
    s.incomingPackets = []
  | .createClient port handle _ => ¬ s.isActive → 0 < port → handle ≠ .invalid →
    s.incomingPackets = []
  | .statusChanged change =>
    match s.statusKind change with
    | .ignored => True
    | .made => s.isActive → s.isServer ∨ s.connectionStatus ≠ .connected →
      s.NoneFrom change.identityRemote
    | .closed => s.isServer → ∀ peer, s.peerIdOf change.identityRemote = some peer →
      ∀ ref, s.disconnects peer change.closes = some ref → s.NoneFrom (s.heap ref).steamId
  | .disconnectPeer peer force closes => ∀ ref, s.disconnects peer closes = some ref →
    if force && s.activeMode = .client then
      s.connectionStatus ≠ .connected → s.incomingPackets = []
    else s.NoneFrom (s.heap ref).steamId
  | _ => True

/-- Nobody is connected to himself, and packets come only from connections that have a peer id. -/
structure Tagged : Prop where
  user : s.connectionsBySteamId64.get? s.user = none
  packets : ∀ packet ∈ s.incomingPackets, packet.peerId ≠ .unset

variable {s}

theorem run_getPacket (n : Nat) : Runs.run step s (List.replicate n .getPacket) = { s with
    incomingPackets := s.incomingPackets.drop n } := by
  induction n generalizing s with
  | zero => rfl
  | succ n ih =>
    rw [List.replicate_succ, Runs.run_cons, ih]
    change { s with incomingPackets := s.incomingPackets.tail.drop n } = { s with
      incomingPackets := s.incomingPackets.drop (n + 1) }
    rw [List.drop_tail]

theorem sendersKept_iff : s.SendersKept ↔ s.QueueKept := by
  have hfront (packets : List IncomingPacket) : FrontKept { s with
      incomingPackets := packets } ↔ (s.isActive → ∀ packet rest, packets = packet :: rest →
        s.peerIdOf packet.sender = some packet.peerId) := by
    apply imp_congr_right
    intro hactive
    change s.isActive = true at hactive
    refine forall_congr' (fun packet => forall_congr' (fun rest => ?_))
    change (packets = packet :: rest → _) ↔ _
    apply imp_congr_right
    intro hpackets
    simp only [getPacketPeer, hpackets]
    change (if !s.isActive then some .server else s.peerIdOf packet.sender) = _ ↔ _
    rw [hactive]
    rfl
  simp only [SendersKept, run_getPacket, hfront]
  apply Iff.intro
  · intro h hactive packet hmem
    obtain ⟨n, hn, hget⟩ := List.mem_iff_getElem.1 hmem
    apply h n hactive packet (s.incomingPackets.drop (n + 1))
    rw [← hget]
    exact List.drop_eq_getElem_cons hn
  · intro h n hactive packet rest hdrop
    apply h hactive
    apply List.mem_of_mem_drop (i := n)
    rw [hdrop]
    exact List.mem_cons_self

theorem queueKept_bare : s.bare.QueueKept ↔ s.QueueKept := Iff.rfl

theorem queueKept_congr {t : SteamMultiplayerPeer} (h : t.bare = s.bare) :
    t.QueueKept ↔ s.QueueKept := by
  rw [← queueKept_bare, h, queueKept_bare]

theorem queueKept_of_inactive (h : ¬ s.isActive) : s.QueueKept := fun hactive => absurd hactive h

theorem queueKept_started (hk : s.Keyed) (ht : s.Tagged) (hactive : ¬ s.isActive)
    {t : SteamMultiplayerPeer} (htactive : t.isActive)
    (hqueue : t.incomingPackets = s.incomingPackets) (hids : t.peerIdOf = s.peerIdOf) :
    t.QueueKept ↔ s.incomingPackets = [] := by
  have hmode : s.activeMode = .none := by simpa [isActive] using hactive
  rw [QueueKept, forall_prop_of_true htactive, hqueue, hids]
  apply Iff.intro
  · intro h
    apply List.eq_nil_iff_forall_not_mem.2
    intro packet hmem
    obtain ⟨ref, hget, hid⟩ := Option.map_eq_some_iff.1 (h packet hmem)
    rw [(hk.idle hmode).2 _ ref hget] at hid
    exact ht.packets packet hmem hid.symm
  · intro h packet hmem
    rw [h] at hmem
    cases hmem

theorem added_queueKept_iff (hk : s.Keyed) (ht : s.Tagged) (hq : s.QueueKept)
    (hactive : s.isActive) (id : SteamId) (handle : SteamHandle) :
    (s.added id handle).QueueKept ↔ s.NoneFrom id := by
  have hids (i : SteamId) : (s.added id handle).peerIdOf i =
      if i = id then some .unset else s.peerIdOf i := by
    simp only [peerIdOf, added, Dict.get?_set]
    split
    · simp [SteamConnection.new]
    · cases hget : s.connectionsBySteamId64.get? i with
      | none => rfl
      | some ref =>
        have hne := Nat.ne_of_lt (hk.connections i ref hget).1
        simp only [Option.map_some, Function.update_of_ne hne]
  rw [QueueKept]
  change (s.isActive = true → ∀ packet ∈ s.incomingPackets,
    (s.added id handle).peerIdOf packet.sender = some packet.peerId) ↔ _
  rw [forall_prop_of_true hactive]
  refine forall_congr' (fun packet => forall_congr' (fun hmem => ?_))
  rw [hids]
  split
  · next heq =>
    apply iff_of_false
    · intro h
      exact ht.packets packet hmem (Option.some.inj h).symm
    · exact not_not_intro heq
  · next hne => exact iff_of_true (hq hactive packet hmem) hne

theorem drop_queueKept_iff (hq : s.QueueKept) (hactive : s.isActive) (ref : Nat)
    (peer : SteamPeerId) : (s.drop ref peer).QueueKept ↔ s.NoneFrom (s.heap ref).steamId := by
  have hids (i : SteamId) : (s.drop ref peer).peerIdOf i =
      if i = (s.heap ref).steamId then none else s.peerIdOf i := by
    simp only [peerIdOf, drop, emitSignal, Dict.get?_erase]
    split
    · rfl
    · rfl
  rw [QueueKept]
  change (s.isActive = true → ∀ packet ∈ s.incomingPackets,
    (s.drop ref peer).peerIdOf packet.sender = some packet.peerId) ↔ _
  rw [forall_prop_of_true hactive]
  refine forall_congr' (fun packet => forall_congr' (fun hmem => ?_))
  rw [hids]
  split
  · next heq => exact iff_of_false (fun h => by cases h) (not_not_intro heq)
  · next hne => exact iff_of_true (hq hactive packet hmem) hne

theorem register_queueKept (ht : s.Tagged) (hq : s.QueueKept) {ref : Nat}
    (hunset : (s.heap ref).peerId = .unset) (peer : SteamPeerId) :
    (s.register ref peer).QueueKept := by
  intro hactive packet hmem
  have hold := hq hactive packet hmem
  obtain ⟨r, hr, hid⟩ := Option.map_eq_some_iff.1 hold
  have hne : r ≠ ref := by
    intro heq
    rw [heq, hunset] at hid
    exact ht.packets packet hmem hid.symm
  change (s.connectionsBySteamId64.get? packet.sender).map
    (fun r => (Function.update s.heap ref _ r).peerId) = some packet.peerId
  rw [hr, Option.map_some, Function.update_of_ne hne, hid]

theorem processMessage_queueKept (hq : s.QueueKept) {id : SteamId}
    (hmem : id ∈ s.connectionsBySteamId64) (msg : SteamMessage) :
    (s.processMessage id msg).QueueKept := by
  rw [processMessage]
  split
  · exact hq
  · obtain ⟨ref, hget⟩ := (Dict.mem_iff_get? _).1 hmem
    have hid : s.peerIdOf id = some (s.heap ref).peerId := by rw [peerIdOf, hget, Option.map_some]
    intro hactive packet hpacket
    change s.peerIdOf packet.sender = some packet.peerId
    cases List.mem_append.1 hpacket with
    | inl hold => exact hq hactive packet hold
    | inr hnew =>
      rw [List.mem_singleton.1 hnew]
      simp only [hid, Option.getD_some]

theorem receive_queueKept (hk : s.Keyed) (ht : s.Tagged) (hq : s.QueueKept) (id : SteamId)
    (msg : SteamMessage) (raw : Nat → Bool) : (s.receive id msg raw).QueueKept := by
  cases receive_bare hk id msg raw with
  | inl h =>
    obtain ⟨ref, peer, hset, hbare⟩ := h
    obtain ⟨_, _, hunset, _, _⟩ := setsUp_spec hk hset
    exact (queueKept_congr hbare).2 (register_queueKept ht hq hunset peer)
  | inr h =>
    obtain ⟨_, hbare | hmessage⟩ := h
    · exact (queueKept_congr hbare).2 hq
    · rw [hmessage.2.2]
      exact processMessage_queueKept hq hmessage.1 msg

theorem close_of_not_connected (h : s.connectionStatus ≠ .connected) : s.close = s := by
  rw [close, if_pos h, ite_self]

theorem close_queueKept (hq : s.QueueKept) : s.close.QueueKept := by
  rw [close]
  split
  · exact hq
  · split
    · exact hq
    · exact queueKept_of_inactive Bool.false_ne_true

theorem close_inactive (hstatus : s.connectionStatus = .connected) : ¬ s.close.isActive := by
  rw [close]
  split
  · next hactive => simpa using hactive
  · rw [if_neg (not_not_intro hstatus)]
    exact Bool.false_ne_true

theorem disconnectPeer_queueKept_iff (hq : s.QueueKept) (peer : SteamPeerId)
    (force closes : Bool) : (s.disconnectPeer peer force closes).QueueKept ↔
      s.SparesSenders (.disconnectPeer peer force closes) := by
  rw [disconnectPeer_eq, SparesSenders]
  cases hd : s.disconnects peer closes with
  | none => exact iff_of_true hq (fun _ h => by cases h)
  | some ref =>
    have hactive := (disconnects_spec hd).1
    simp only [Option.some.injEq, forall_eq']
    by_cases hforce : (force && s.activeMode = .client) = true
    · rw [if_pos hforce, if_pos hforce]
      by_cases hstatus : s.connectionStatus = .connected
      · refine iff_of_true (queueKept_of_inactive ?_) (fun h => absurd hstatus h)
        apply close_inactive
        exact hstatus
      · have hopen : (s.drop ref peer).clearConnections.close =
            (s.drop ref peer).clearConnections := close_of_not_connected hstatus
        rw [forall_prop_of_true hstatus, hopen, QueueKept]
        change (s.isActive = true → ∀ packet ∈ s.incomingPackets, none = some packet.peerId) ↔ _
        rw [forall_prop_of_true hactive, List.eq_nil_iff_forall_not_mem]
        apply forall_congr'
        intro packet
        apply forall_congr'
        intro _
        exact iff_of_false (fun h => by cases h) id
    · rw [if_neg hforce, if_neg hforce]
      exact drop_queueKept_iff hq hactive ref peer

theorem Tagged.noneFrom_user (ht : s.Tagged) (hq : s.QueueKept) (hactive : s.isActive) :
    s.NoneFrom s.user := by
  intro packet hmem heq
  have hid := hq hactive packet hmem
  rw [peerIdOf, heq, ht.user] at hid
  cases hid

theorem Tagged.noticed (ht : s.Tagged) : s.noticed.Tagged := by
  rw [SteamMultiplayerPeer.noticed]
  split
  · exact ht
  · exact ⟨ht.user, ht.packets⟩

theorem noticed_frame : s.noticed.user = s.user ∧ s.noticed.isActive = s.isActive ∧
    (s.noticed.QueueKept ↔ s.QueueKept) ∧ s.noticed.NoneFrom = s.NoneFrom := by
  rw [noticed]
  split
  · exact ⟨rfl, rfl, Iff.rfl, rfl⟩
  · exact ⟨rfl, rfl, Iff.rfl, rfl⟩

theorem connectionMade_queueKept_iff (hk : s.Keyed) (ht : s.Tagged) (hq : s.QueueKept)
    (change : StatusChange) : (s.connectionMade change).QueueKept ↔
      (s.isActive → s.isServer ∨ s.connectionStatus ≠ .connected →
        s.NoneFrom change.identityRemote) := by
  have hbare := connectionMade_bare (s := s) change
  obtain ⟨huser, hactive, hqueue, hnone⟩ := noticed_frame (s := s)
  have hq' := hqueue.2 hq
  split at hbare
  · next hmade =>
    rw [addConnection_snd] at hbare
    simp only [forall_prop_of_true hmade]
    split at hbare
    · next hself =>
      rw [queueKept_congr hbare, hself, huser]
      exact iff_of_true hq' (fun h => ht.noneFrom_user hq h)
    · rw [queueKept_congr hbare]
      by_cases h : s.isActive
      · rw [forall_prop_of_true h, ← hnone]
        exact added_queueKept_iff hk.noticed ht.noticed hq' (hactive.trans h) _ _
      · apply iff_of_true
        · apply queueKept_of_inactive
          intro h'
          exact h (hactive.symm.trans h')
        · intro h'
          exact absurd h' h
  · next hmade =>
    rw [queueKept_congr hbare]
    exact iff_of_true hq (fun _ h => absurd h hmade)

theorem disconnectPeer_connected (hstatus : s.connectionStatus = .connected)
    (peer : SteamPeerId) (force closes : Bool) :
    ¬ (s.disconnectPeer peer force closes).isActive ∨
      (s.disconnectPeer peer force closes).connectionStatus = .connected := by
  rw [disconnectPeer_eq]
  cases s.disconnects peer closes with
  | none => exact .inr hstatus
  | some ref =>
    simp only
    split
    · apply Or.inl
      apply close_inactive
      exact hstatus
    · exact .inr hstatus

theorem connectionClosed_client (hs : ¬ s.isServer) (change : StatusChange) :
    ¬ (s.connectionClosed change).isActive ∨ s.connectionClosed change = s := by
  have hnot : (!s.isServer) = true := by simpa using hs
  rw [connectionClosed, if_pos hnot]
  by_cases hstatus : s.connectionStatus = .connected
  · obtain ⟨t, ht⟩ : ∃ t, t = s.disconnectPeer .server true change.closes := ⟨_, rfl⟩
    have hor := disconnectPeer_connected hstatus .server true change.closes
    rw [← ht] at hor
    simp only [if_pos hstatus, ← ht]
    split
    · next hactive => exact .inl (close_inactive (hor.resolve_left (not_not_intro hactive)))
    · next hactive => exact .inl hactive
  · simp only [if_neg hstatus, close_of_not_connected hstatus, ite_self, or_true]

theorem connectionClosed_queueKept_iff (hk : s.Keyed) (hq : s.QueueKept)
    (change : StatusChange) : (s.connectionClosed change).QueueKept ↔
      (s.isServer → ∀ peer, s.peerIdOf change.identityRemote = some peer →
        ∀ ref, s.disconnects peer change.closes = some ref → s.NoneFrom (s.heap ref).steamId) := by
  by_cases hs : s.isServer
  · rw [forall_prop_of_true hs, connectionClosed]
    have hnot : (!s.isServer) = false := by rw [hs]; rfl
    rw [if_neg (by rw [hnot]; exact Bool.false_ne_true)]
    cases hid : s.peerIdOf change.identityRemote with
    | none => exact iff_of_true hq (fun _ h => by cases h)
    | some peer =>
      simp only [Option.some.injEq, forall_eq']
      split
      · next hunset =>
        refine iff_of_true hq ?_
        intro ref hd
        exact absurd hunset (hk.peers peer ref (disconnects_spec hd).2.1).2.2
      · rw [disconnectPeer_queueKept_iff hq, SparesSenders]
        rfl
  · refine iff_of_true ?_ (fun h => absurd h hs)
    cases connectionClosed_client hs change with
    | inl hinactive => exact queueKept_of_inactive hinactive
    | inr hsame => rwa [hsame]

theorem tagged_bare : s.bare.Tagged ↔ s.Tagged :=
  ⟨fun h => ⟨h.user, h.packets⟩, fun h => ⟨h.user, h.packets⟩⟩

theorem Tagged.of_bare {t : SteamMultiplayerPeer} (ht : s.Tagged) (h : t.bare = s.bare) :
    t.Tagged := tagged_bare.1 (h ▸ tagged_bare.2 ht)

theorem Tagged.close (ht : s.Tagged) : s.close.Tagged := by
  rw [SteamMultiplayerPeer.close]
  split
  · exact ht
  · split
    · exact ht
    · exact ⟨rfl, ht.packets⟩

theorem Tagged.drop (ht : s.Tagged) (ref : Nat) (peer : SteamPeerId) :
    (s.drop ref peer).Tagged := by
  refine ⟨?_, ht.packets⟩
  change (s.connectionsBySteamId64.erase (s.heap ref).steamId).get? s.user = none
  rw [Dict.get?_erase, ht.user, ite_self]

theorem Tagged.disconnectPeer (ht : s.Tagged) (peer : SteamPeerId) (force closes : Bool) :
    (s.disconnectPeer peer force closes).Tagged := by
  rw [disconnectPeer_eq]
  cases s.disconnects peer closes with
  | none => exact ht
  | some ref =>
    have hdrop := ht.drop ref peer
    have hclear : (s.drop ref peer).clearConnections.Tagged := ⟨rfl, hdrop.packets⟩
    simp only
    split
    · exact hclear.close
    · exact hdrop

theorem Tagged.connectionMade (ht : s.Tagged) (change : StatusChange) :
    (s.connectionMade change).Tagged := by
  have hbare := connectionMade_bare (s := s) change
  split at hbare
  · rw [addConnection_snd] at hbare
    split at hbare
    · exact ht.noticed.of_bare hbare
    · next huser =>
      have hadded : (s.noticed.added change.identityRemote change.handle).Tagged := by
        refine ⟨?_, ht.noticed.packets⟩
        change (s.noticed.connectionsBySteamId64.set _ _).get? s.noticed.user = none
        rw [Dict.get?_set_ne _ (Ne.symm huser)]
        exact ht.noticed.user
      exact hadded.of_bare hbare
  · exact ht.of_bare hbare

theorem Tagged.connectionClosed (ht : s.Tagged) (change : StatusChange) :
    (s.connectionClosed change).Tagged := by
  rw [SteamMultiplayerPeer.connectionClosed]
  split
  · obtain ⟨t, ht'⟩ : ∃ t, t = if s.connectionStatus = .connected then
        s.disconnectPeer .server true change.closes else s := ⟨_, rfl⟩
    have htt : t.Tagged := by
      rw [ht']
      split
      · exact ht.disconnectPeer _ _ _
      · exact ht
    simp only [← ht']
    split
    · exact htt.close
    · exact htt
  · split
    · exact ht
    · split
      · exact ht
      · exact ht.disconnectPeer _ _ _

theorem Tagged.processMessage (ht : s.Tagged) {id : SteamId}
    (hmem : id ∈ s.connectionsBySteamId64) (hpeer : s.getPeerIdFromSteam64 id ≠ .unset)
    (msg : SteamMessage) : (s.processMessage id msg).Tagged := by
  obtain ⟨ref, hget⟩ := (Dict.mem_iff_get? _).1 hmem
  have huser : id ≠ s.user := by
    intro heq
    rw [heq, ht.user] at hget
    cases hget
  rw [getPeerIdFromSteam64, if_neg huser, hget] at hpeer
  rw [SteamMultiplayerPeer.processMessage]
  split
  · exact ht
  · refine ⟨ht.user, ?_⟩
    intro packet hpacket
    cases List.mem_append.1 hpacket with
    | inl hold => exact ht.packets packet hold
    | inr hnew =>
      rw [List.mem_singleton.1 hnew]
      simp only [peerIdOf, hget, Option.map_some, Option.getD_some]
      exact hpeer

theorem Tagged.receive (hk : s.Keyed) (ht : s.Tagged) (id : SteamId) (msg : SteamMessage)
    (raw : Nat → Bool) : (s.receive id msg raw).Tagged := by
  cases receive_bare hk id msg raw with
  | inl h =>
    obtain ⟨ref, peer, _, hbare⟩ := h
    have hregister : (s.register ref peer).Tagged := ⟨ht.user, ht.packets⟩
    exact hregister.of_bare hbare
  | inr h =>
    obtain ⟨_, hbare | hmessage⟩ := h
    · exact ht.of_bare hbare
    · rw [hmessage.2.2]
      exact ht.processMessage hmessage.1 hmessage.2.1 msg

theorem Tagged.createHost (ht : s.Tagged) (port : Int) (socket : SteamHandle) :
    (s.createHost port socket).2.Tagged := by
  rw [SteamMultiplayerPeer.createHost]
  split
  · exact ht
  · split
    · exact ht
    · split
      · exact ⟨ht.user, ht.packets⟩
      · exact ⟨ht.user, ht.packets⟩

theorem Tagged.createClient (ht : s.Tagged) (port : Int) (handle : SteamHandle)
    (id : ClientId) : (s.createClient port handle id).2.Tagged := by
  rw [SteamMultiplayerPeer.createClient]
  split
  · exact ht
  · split
    · exact ht
    · split
      · exact ⟨ht.user, ht.packets⟩
      · exact ⟨ht.user, ht.packets⟩

theorem Tagged.step (hk : s.Keyed) (ht : s.Tagged) (event : SteamEvent) :
    (s.step event).Tagged := by
  cases event with
  | createHost port socket => exact ht.createHost port socket
  | createClient port handle id => exact ht.createClient port handle id
  | close => exact ht.close
  | statusChanged change =>
    change (s.networkConnectionStatusChanged change).Tagged
    rw [networkConnectionStatusChanged]
    cases s.statusKind change with
    | ignored => exact ht
    | made => exact ht.connectionMade change
    | closed => exact ht.connectionClosed change
  | receive id msg raw => exact ht.receive hk id msg raw
  | putPacket buffer raw => exact ht.of_bare (bare_putPacket buffer raw)
  | disconnectPeer peer force closes => exact ht.disconnectPeer peer force closes
  | getPacket => exact ⟨ht.user, fun packet h => ht.packets packet (List.mem_of_mem_tail h)⟩
  | setTargetPeer peer => exact ⟨ht.user, ht.packets⟩
  | setTransferMode mode => exact ⟨ht.user, ht.packets⟩

/-- A call that starts a session keeps the queue exactly if it is refused or finds no packet. -/
theorem session_queueKept_iff (hk : s.Keyed) (ht : s.Tagged) (hq : s.QueueKept) {port : Int}
    {handle : SteamHandle} {e₁ e₂ e₃ e₄ : SteamError} {refused started : SteamMultiplayerPeer}
    (hrefused : refused.isActive = s.isActive) (hstarted : started.isActive)
    (hqueue : started.incomingPackets = s.incomingPackets)
    (hids : started.peerIdOf = s.peerIdOf) :
    (if s.isActive then (e₁, s) else if port ≤ 0 then (e₂, s)
      else if handle = .invalid then (e₃, refused) else (e₄, started)).2.QueueKept ↔
        (¬ s.isActive → 0 < port → handle ≠ .invalid → s.incomingPackets = []) := by
  split
  · next hactive => exact iff_of_true hq (fun h => absurd hactive h)
  · next hactive =>
    rw [forall_prop_of_true hactive]
    split
    · next hport => exact iff_of_true hq (fun h => absurd hport (Int.not_le.2 h))
    · next hport =>
      rw [forall_prop_of_true (Int.not_le.1 hport)]
      split
      · next hhandle =>
        rw [← hrefused] at hactive
        exact iff_of_true (queueKept_of_inactive hactive) (fun h => absurd hhandle h)
      · next hhandle =>
        rw [forall_prop_of_true hhandle]
        exact queueKept_started hk ht hactive hstarted hqueue hids

theorem step_queueKept_iff (hk : s.Keyed) (ht : s.Tagged) (hq : s.QueueKept)
    (event : SteamEvent) : (s.step event).QueueKept ↔ s.SparesSenders event := by
  cases event with
  | createHost port socket => exact session_queueKept_iff hk ht hq rfl rfl rfl rfl
  | createClient port handle id => exact session_queueKept_iff hk ht hq rfl rfl rfl rfl
  | close => exact iff_of_true (close_queueKept hq) trivial
  | statusChanged change =>
    change (s.networkConnectionStatusChanged change).QueueKept ↔ _
    rw [networkConnectionStatusChanged, SparesSenders]
    cases s.statusKind change with
    | ignored => exact iff_of_true hq trivial
    | made => exact connectionMade_queueKept_iff hk ht hq change
    | closed => exact connectionClosed_queueKept_iff hk hq change
  | receive id msg raw => exact iff_of_true (receive_queueKept hk ht hq id msg raw) trivial
  | putPacket buffer raw =>
    exact iff_of_true ((queueKept_congr (bare_putPacket buffer raw)).2 hq) trivial
  | disconnectPeer peer force closes => exact disconnectPeer_queueKept_iff hq peer force closes
  | getPacket =>
    apply iff_of_true _ trivial
    intro hactive packet hmem
    exact hq hactive packet (List.mem_of_mem_tail hmem)
  | setTargetPeer peer => exact iff_of_true hq trivial
  | setTransferMode mode => exact iff_of_true hq trivial

/-- In every state of a run the queue can be read with every packet's sender known, exactly if the
entries of queued senders are spared throughout. -/
theorem senders_kept_iff (user : SteamId) (events : List SteamEvent) :
    Runs.Always step SendersKept (fresh user) events ↔
      Runs.Guarded step SparesSenders (fresh user) events := by
  apply Runs.always_iff_guarded (I := fun s => s.Keyed ∧ s.Tagged)
  · intro s event hi _ _
    exact ⟨hi.1.step event, hi.2.step hi.1 event⟩
  · intro s event hi hp
    rw [sendersKept_iff] at hp ⊢
    exact step_queueKept_iff hi.1 hi.2 hp event
  · refine ⟨.fresh user, rfl, ?_⟩
    intro packet hmem
    cases hmem
  · rw [sendersKept_iff]
    intro _ packet hmem
    cases hmem

/-- A client is disconnected while a packet of it is queued. -/
theorem kicked_sender_lost :
    ¬ Runs.Always step SendersKept (fresh 7)
      [.createHost 1 1, clientConnected 11 100, clientSetup 100 5,
        .receive 100 ⟨[1], sendReliable⟩ (fun _ => true), .disconnectPeer 5 false true] := by
  intro h
  obtain ⟨s, hs⟩ : ∃ s, s = Runs.run step (fresh 7)
      [.createHost 1 1, clientConnected 11 100, clientSetup 100 5,
        .receive 100 ⟨[1], sendReliable⟩ (fun _ => true), .disconnectPeer 5 false true] := ⟨_, rfl⟩
  have hfront : s.FrontKept := by
    rw [hs]
    exact h.last 0
  have hactive : s.isActive := by
    rw [hs]
    decide +kernel
  have hqueue : s.incomingPackets = [⟨⟨[1], sendReliable⟩, 100, 5⟩] := by
    rw [hs]
    decide +kernel
  have hmiss : s.getPacketPeer = none := by
    rw [hs]
    decide +kernel
  have hpeer := hfront hactive _ _ hqueue
  rw [hmiss] at hpeer
  cases hpeer

end SteamMultiplayerPeer

end Godaemon
