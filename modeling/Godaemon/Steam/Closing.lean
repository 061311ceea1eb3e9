import Godaemon.Steam.HostConnections

namespace Godaemon
set_option autoImplicit true

/-- What happens to a peer, sessions over a pair of local sockets included: a peer makes one to a
host, or another peer makes one to it. -/
inductive SteamPeerEvent where
  | event (event : SteamEvent)
  | createLoopbackClient (paired : Bool) (clientId64 : SteamId) (handle : SteamHandle)
      (id : ClientId) (raw : Nat → Bool)
  | hostLoopback (hostId64 : SteamId) (handle : SteamHandle)

namespace SteamMultiplayerPeer

variable (s : SteamMultiplayerPeer)

def setupLoopbackConnection (identity : SteamId) (handle : SteamHandle) :
    Nat × SteamMultiplayerPeer :=
  (s.allocated, { s with
    heap := Function.update s.heap s.allocated (.new identity handle)
    allocated := s.allocated + 1
    connectionsBySteamId64 := s.connectionsBySteamId64.set identity s.allocated
    loopbackConnectionsBySteamId64 := s.loopbackConnectionsBySteamId64.set identity s.allocated })

/-- The client's end of a pair of sockets, which Steam may refuse. -/
def createLoopbackClient (paired : Bool) (clientId64 : SteamId) (handle : SteamHandle)
    (id : ClientId) (raw : Nat → Bool) : SteamError × SteamMultiplayerPeer :=
  if s.isActive then (.alreadyInUse, s)
  else if !paired then (.cantConnect, s)
  else
    let (ref, s) := { s with connection := handle }.setupLoopbackConnection clientId64 handle
    let s := { s with
      activeMode := .client
      connectionStatus := .connected
      uniqueId := id.1 }
    let s := s.sendOn ref ((s.heap ref).sendPeer s.uniqueId raw)
    (.ok, { s with
      isLoopbackClient := true })

def stepPeer (s : SteamMultiplayerPeer) : SteamPeerEvent → SteamMultiplayerPeer
  | .event event => s.step event
  | .createLoopbackClient paired clientId64 handle id raw =>
    (s.createLoopbackClient paired clientId64 handle id raw).2
  | .hostLoopback hostId64 handle => (s.setupLoopbackConnection hostId64 handle).2

/-- The peer is in no session, and nothing is left of one. -/
structure Clean : Prop where
  mode : s.activeMode = .none
  status : s.connectionStatus = .disconnected
  unique : s.uniqueId = 0
  connections : s.connectionsBySteamId64 = .empty
  peers : s.peerIdToSteamId = .empty
  loopback : s.loopbackConnectionsBySteamId64 = .empty

/-- A peer has an id only in a session. -/
def Unnumbered : Prop := s.activeMode = .none → s.uniqueId = 0

variable {s}

theorem isActive_iff : s.isActive = true ↔ s.activeMode ≠ .none := decide_eq_true_iff

theorem Keyed.setupLoopbackConnection (hk : s.Keyed) (identity : SteamId) (handle : SteamHandle) :
    (s.setupLoopbackConnection identity handle).2.Keyed := by
  have hadded := hk.added identity handle
  exact ⟨hadded.connections, hadded.peers, hadded.idle, hadded.server, hadded.unique⟩

theorem Keyed.createLoopbackClient (hk : s.Keyed) (paired : Bool) (clientId64 : SteamId)
    (handle : SteamHandle) (id : ClientId) (raw : Nat → Bool) :
    (s.createLoopbackClient paired clientId64 handle id raw).2.Keyed := by
  rw [SteamMultiplayerPeer.createLoopbackClient]
  split
  · exact hk
  split
  · exact hk
  have hadded := hk.added clientId64 handle
  have hclient : ¬ SteamMode.client = .server := by decide
  have hmade : ({ (s.setupLoopbackConnection clientId64 handle).2 with
      connection := handle
      activeMode := .client
      connectionStatus := .connected
      uniqueId := id.1 } : SteamMultiplayerPeer).Keyed := by
    have hserver : ¬ decide (id.1 = .server) = true :=
      fun h => id.ne_server (of_decide_eq_true h)
    exact ⟨hadded.connections, hadded.peers, (fun h => by cases h), iff_of_false hserver hclient,
      id.ne_unset⟩
  have hsent := hmade.of_bare (bare_sendOn (SteamConnection.send_bare
    (Function.update s.heap s.allocated (.new clientId64 handle) s.allocated)
    (.ofBuffer (setupPeerPayload id.1) MultiplayerPeer.TransferMode.reliable.toNat) raw))
  exact ⟨hsent.connections, hsent.peers, hsent.idle, hsent.server, hsent.unique⟩

theorem Keyed.stepPeer (hk : s.Keyed) (event : SteamPeerEvent) : (s.stepPeer event).Keyed := by
  cases event with
  | event event => exact hk.step event
  | createLoopbackClient paired clientId64 handle id raw =>
    exact hk.createLoopbackClient paired clientId64 handle id raw
  | hostLoopback hostId64 handle => exact hk.setupLoopbackConnection hostId64 handle

theorem Unnumbered.of_bare {t : SteamMultiplayerPeer} (hs : s.Unnumbered) (h : t.bare = s.bare) :
    t.Unnumbered := by
  have hbare : t.bare.Unnumbered := by
    rw [h]
    exact hs
  exact hbare

theorem Unnumbered.close (hs : s.Unnumbered) : s.close.Unnumbered := by
  rw [SteamMultiplayerPeer.close]
  split
  · exact hs
  split
  · exact hs
  · exact fun _ => rfl

theorem Unnumbered.disconnectPeer (hs : s.Unnumbered) (peer : SteamPeerId) (force closes : Bool) :
    (s.disconnectPeer peer force closes).Unnumbered := by
  rw [disconnectPeer_eq]
  cases s.disconnects peer closes with
  | none => exact hs
  | some ref =>
    have hdropped : (s.drop ref peer).clearConnections.Unnumbered := hs
    simp only
    split
    · exact hdropped.close
    · exact hs

theorem Unnumbered.receive (hk : s.Keyed) (hs : s.Unnumbered) (id : SteamId) (msg : SteamMessage)
    (raw : Nat → Bool) : (s.receive id msg raw).Unnumbered := by
  cases receive_bare hk id msg raw with
  | inl h =>
    obtain ⟨ref, peer, _, hbare⟩ := h
    have hregistered : (s.register ref peer).Unnumbered := hs
    exact hregistered.of_bare hbare
  | inr h =>
    obtain ⟨_, hbare | hmessage⟩ := h
    · exact hs.of_bare hbare
    · rw [hmessage.2.2, processMessage]
      split
      · exact hs
      · exact hs

theorem Unnumbered.connectionMade (hs : s.Unnumbered) (change : StatusChange) :
    (s.connectionMade change).Unnumbered := by
  have hnoticed : s.noticed.Unnumbered := by
    rw [noticed]
    split
    · exact hs
    · exact hs
  have hbare := connectionMade_bare (s := s) change
  split at hbare
  · refine Unnumbered.of_bare ?_ hbare
    rw [addConnection_snd]
    split
    · exact hnoticed
    · exact hnoticed
  · exact hs.of_bare hbare

theorem Unnumbered.connectionClosed (hs : s.Unnumbered) (change : StatusChange) :
    (s.connectionClosed change).Unnumbered := by
  rw [SteamMultiplayerPeer.connectionClosed]
  split
  · obtain ⟨t, ht⟩ : ∃ t, t = if s.connectionStatus = .connected then
        s.disconnectPeer .server true change.closes else s := ⟨_, rfl⟩
    have hst : t.Unnumbered := by
      rw [ht]
      split
      · exact hs.disconnectPeer _ _ _
      · exact hs
    simp only [← ht]
    split
    · exact hst.close
    · exact hst
  · split
    · exact hs
    · split
      · exact hs
      · exact hs.disconnectPeer _ _ _

theorem Unnumbered.createHost (hs : s.Unnumbered) (port : Int) (socket : SteamHandle) :
    (s.createHost port socket).2.Unnumbered := by
  rw [SteamMultiplayerPeer.createHost]
  split
  · exact hs
  split
  · exact hs
  split
  · exact hs
  · exact fun h => by cases h

theorem Unnumbered.createClient (hs : s.Unnumbered) (port : Int) (handle : SteamHandle)
    (id : ClientId) : (s.createClient port handle id).2.Unnumbered := by
  rw [SteamMultiplayerPeer.createClient]
  split
  · exact hs
  split
  · exact hs
  split
  · exact fun _ => rfl
  · exact fun h => by cases h

theorem Unnumbered.step (hk : s.Keyed) (hs : s.Unnumbered) (event : SteamEvent) :
    (s.step event).Unnumbered := by
  cases event with
  | createHost port socket => exact hs.createHost port socket
  | createClient port handle id => exact hs.createClient port handle id
  | close => exact hs.close
  | statusChanged change =>
    change (s.networkConnectionStatusChanged change).Unnumbered
    rw [networkConnectionStatusChanged]
    cases s.statusKind change with
    | ignored => exact hs
    | made => exact hs.connectionMade change
    | closed => exact hs.connectionClosed change
  | receive id msg raw => exact hs.receive hk id msg raw
  | putPacket buffer raw => exact hs.of_bare (bare_putPacket buffer raw)
  | disconnectPeer peer force closes => exact hs.disconnectPeer peer force closes
  | getPacket => exact hs
  | setTargetPeer peer => exact hs
  | setTransferMode mode => exact hs

theorem Unnumbered.stepPeer (hk : s.Keyed) (hs : s.Unnumbered) (event : SteamPeerEvent) :
    (s.stepPeer event).Unnumbered := by
  cases event with
  | event event => exact hs.step hk event
  | createLoopbackClient paired clientId64 handle id raw =>
    change (s.createLoopbackClient paired clientId64 handle id raw).2.Unnumbered
    rw [SteamMultiplayerPeer.createLoopbackClient]
    split
    · exact hs
    split
    · exact hs
    · exact fun h => by cases h
  | hostLoopback hostId64 handle => exact hs

theorem run_stepPeer (user : SteamId) (events : List SteamPeerEvent) :
    (Runs.run stepPeer (fresh user) events).Keyed ∧
      (Runs.run stepPeer (fresh user) events).Unnumbered := by
  have hstep : ∀ s event, s.Keyed ∧ s.Unnumbered →
      (stepPeer s event).Keyed ∧ (stepPeer s event).Unnumbered :=
    fun s event hs => ⟨hs.1.stepPeer event, hs.2.stepPeer hs.1 event⟩
  exact (Runs.always_of_step hstep ⟨Keyed.fresh user, fun _ => rfl⟩ events).last

theorem close_clean_iff (hk : s.Keyed) (hs : s.Unnumbered) : s.close.Clean ↔
    if s.isActive then s.connectionStatus = .connected
    else s.connectionStatus = .disconnected ∧ s.connectionsBySteamId64 = .empty ∧
      s.loopbackConnectionsBySteamId64 = .empty := by
  rw [SteamMultiplayerPeer.close]
  cases hactive : s.isActive with
  | false =>
    have hmode : s.activeMode = .none := by simpa [isActive] using hactive
    simp only [Bool.not_false, Bool.false_eq_true, ↓reduceIte]
    constructor
    · intro hclean
      exact ⟨hclean.status, hclean.connections, hclean.loopback⟩
    · intro h
      exact ⟨hmode, h.1, hs hmode, h.2.1, (hk.idle hmode).1, h.2.2⟩
  | true =>
    simp only [Bool.not_true, Bool.false_eq_true, ↓reduceIte]
    split
    · next hstatus =>
      refine iff_of_false (fun hclean => ?_) hstatus
      exact isActive_iff.1 hactive hclean.mode
    · next hstatus => exact iff_of_true ⟨rfl, rfl, rfl, rfl, rfl, rfl⟩ (not_not.1 hstatus)

theorem close_clean (h : s.isActive = true) (hstatus : s.connectionStatus = .connected) :
    s.close.Clean := by
  rw [SteamMultiplayerPeer.close, h, hstatus]
  exact ⟨rfl, rfl, rfl, rfl, rfl, rfl⟩

/-- A client that loses its connection ends its session exactly if it was established. -/
theorem connectionClosed_clean_iff (hk : s.Keyed) (hmode : s.activeMode = .client)
    (change : StatusChange) :
    (s.connectionClosed change).Clean ↔ s.connectionStatus = .connected := by
  have hserver : ¬ s.isServer = true := by
    rw [hk.server, hmode]
    exact SteamMode.noConfusion
  have hactive : s.isActive = true := isActive_iff.2 (by rw [hmode]; exact SteamMode.noConfusion)
  rw [connectionClosed, if_pos (by simpa using hserver)]
  by_cases hstatus : s.connectionStatus = .connected
  · refine iff_of_true ?_ hstatus
    rw [if_pos hstatus, disconnectPeer_eq]
    cases s.disconnects .server change.closes with
    | none =>
      rw [if_pos hactive]
      exact close_clean hactive hstatus
    | some ref =>
      have hclean : (s.drop ref .server).clearConnections.close.Clean :=
        close_clean hactive hstatus
      have hidle : ¬ (s.drop ref .server).clearConnections.close.isActive = true :=
        fun h => isActive_iff.1 h hclean.mode
      simp only [hmode, Bool.true_and, decide_true, ↓reduceIte]
      rw [if_neg hidle]
      exact hclean
  · refine iff_of_false (fun hclean => ?_) hstatus
    rw [if_neg hstatus, if_pos hactive, close, hactive] at hclean
    simp only [Bool.not_true, Bool.false_eq_true, ↓reduceIte, if_pos hstatus] at hclean
    exact isActive_iff.1 hactive hclean.mode

/-- A client takes notice of the end of its own connection unless it is a loopback client, the
callback counts as handled, or the connection was in neither of two states before. -/
theorem statusKind_of_isClosed (hk : s.Keyed) (hmode : s.activeMode = .client)
    {change : StatusChange} (hown : change.handle = s.connection)
    (hclosed : change.state.isClosed = true) : s.statusKind change =
      if s.isLoopbackClient = false ∧ change.userData ≠ 1 ∧
        (change.oldState = .connecting ∨ change.oldState = .connected) then .closed
      else .ignored := by
  have hserver : s.isServer = false := by
    rw [← Bool.not_eq_true, hk.server, hmode]
    exact SteamMode.noConfusion
  have hstate : change.state = .closedByPeer ∨ change.state = .problemDetectedLocally := by
    revert hclosed
    cases change.state <;> simp [ConnectionState.isClosed]
  have hconnecting : change.state ≠ .connecting ∧ change.state ≠ .connected := by
    cases hstate with
    | inl h => rw [h]; exact ⟨ConnectionState.noConfusion, ConnectionState.noConfusion⟩
    | inr h => rw [h]; exact ⟨ConnectionState.noConfusion, ConnectionState.noConfusion⟩
  simp only [statusKind, hserver, hown, hconnecting.1, hconnecting.2, hstate, Bool.false_eq_true,
    Bool.not_false, ne_eq, not_true_eq_false, and_false, false_and, and_true, ↓reduceIte]
  cases s.isLoopbackClient with
  | true => rfl
  | false =>
    by_cases huser : change.userData = 1
    · simp [huser]
    · simp [huser]

theorem status_clean_iff (hk : s.Keyed) (hmode : s.activeMode = .client)
    {change : StatusChange} (hown : change.handle = s.connection)
    (hclosed : change.state.isClosed = true) : (s.networkConnectionStatusChanged change).Clean ↔
      s.connectionStatus = .connected ∧ s.isLoopbackClient = false ∧ change.userData ≠ 1 ∧
        (change.oldState = .connecting ∨ change.oldState = .connected) := by
  rw [networkConnectionStatusChanged, statusKind_of_isClosed hk hmode hown hclosed]
  by_cases h : s.isLoopbackClient = false ∧ change.userData ≠ 1 ∧
      (change.oldState = .connecting ∨ change.oldState = .connected)
  · rw [if_pos h]
    exact (connectionClosed_clean_iff hk hmode change).trans
      ⟨fun hstatus => ⟨hstatus, h⟩, fun hall => hall.1⟩
  · rw [if_neg h]
    refine iff_of_false (fun hclean => ?_) (fun hall => h hall.2)
    exact absurd (hmode.symm.trans hclean.mode) SteamMode.noConfusion

theorem Clean.creates (h : s.Clean) {port : Int} (hport : 0 < port) {handle : SteamHandle}
    (hhandle : handle ≠ .invalid) (id : ClientId) :
    (s.createHost port handle).1 = .ok ∧ (s.createClient port handle id).1 = .ok := by
  have hidle : ¬ s.isActive = true := fun hactive => isActive_iff.1 hactive h.mode
  have hpositive : ¬ port ≤ 0 := Int.not_le.2 hport
  simp only [createHost, createClient, if_neg hidle, if_neg hpositive, if_neg hhandle, and_self]

/-- In whatever state a run leaves a peer, closing it makes it clean exactly if its session was
established, or it had none and nothing was in its tables. The end of a client's own connection
makes it clean exactly if that connection was established and the callback is not ignored. A clean
peer can make a new session. -/
theorem closing_cleans_iff (user : SteamId) (events : List SteamPeerEvent) :
    let s := Runs.run stepPeer (fresh user) events
    (s.close.Clean ↔ if s.isActive then s.connectionStatus = .connected
      else s.connectionStatus = .disconnected ∧ s.connectionsBySteamId64 = .empty ∧
        s.loopbackConnectionsBySteamId64 = .empty) ∧
    (∀ change : StatusChange, s.activeMode = .client → change.handle = s.connection →
      change.state.isClosed = true → ((s.networkConnectionStatusChanged change).Clean ↔
        s.connectionStatus = .connected ∧ s.isLoopbackClient = false ∧ change.userData ≠ 1 ∧
          (change.oldState = .connecting ∨ change.oldState = .connected))) ∧
    ∀ t : SteamMultiplayerPeer, t.Clean → ∀ port handle id, 0 < port → handle ≠ .invalid →
      (t.createHost port handle).1 = .ok ∧ (t.createClient port handle id).1 = .ok := by
  intro s
  obtain ⟨hk, hs⟩ := run_stepPeer user events
  refine ⟨close_clean_iff hk hs, ?_, ?_⟩
  · intro change hmode hown hclosed
    exact status_clean_iff hk hmode hown hclosed
  · intro t ht port handle id hport hhandle
    exact ht.creates hport hhandle id

/-- The host rejects a client that is still connecting, and the client can neither be closed nor
make a new session. -/
theorem rejected_client_stuck :
    ¬ ∀ events, let s := Runs.run stepPeer (fresh 7) events
      s.close.Clean ∧ ∀ change : StatusChange, s.activeMode = .client →
        change.handle = s.connection → change.state.isClosed = true →
          (s.networkConnectionStatusChanged change).Clean := by
  intro h
  have hstuck := (h [.event (.createClient 1 1 ⟨2, by decide⟩)]).2
    ⟨1, .invalid, 100, -1, .connecting, .closedByPeer, true, fun _ => true⟩ rfl rfl rfl
  exact absurd hstuck.mode (by decide +kernel)

end SteamMultiplayerPeer

end Godaemon
