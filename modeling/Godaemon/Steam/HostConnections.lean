import Godaemon.Steam.Connections

namespace Godaemon
set_option autoImplicit true

namespace ConnectionState

/-- The connection has been there. -/
def isMade : ConnectionState → Bool
  | .connected | .closedByPeer | .problemDetectedLocally => true
  | _ => false

def isClosed : ConnectionState → Bool
  | .closedByPeer | .problemDetectedLocally => true
  | _ => false

/-- How the state of an incoming connection changes at Steam. -/
def leadsTo : ConnectionState → ConnectionState → Bool
  | .none, .connecting => true
  | .connecting, .findingRoute => true
  | .connecting, state => state = .connected || state.isClosed
  | .findingRoute, state => state = .connected || state.isClosed
  | .connected, state => state.isClosed
  | _, _ => false

end ConnectionState

namespace PeerSignal

def connects (handle : SteamHandle) : PeerSignal → Bool
  | .peerConnected other _ => other = handle
  | .peerDisconnected _ _ => false

def disconnects (handle : SteamHandle) : PeerSignal → Bool
  | .peerConnected _ _ => false
  | .peerDisconnected other _ => other = handle

end PeerSignal

namespace SteamMultiplayerPeer

/-- How often `peer_connected` has been emitted for a connection. -/
def connectedCount (s : SteamMultiplayerPeer) (handle : SteamHandle) : Nat :=
  s.signals.countP (fun signal => signal.connects handle)

def disconnectedCount (s : SteamMultiplayerPeer) (handle : SteamHandle) : Nat :=
  s.signals.countP (fun signal => signal.disconnects handle)

/-- A table entry holds the connection of this handle. -/
def Holds (s : SteamMultiplayerPeer) (handle : SteamHandle) : Prop :=
  ∃ ref, (s.heap ref).handle = handle ∧
    ((∃ id, s.connectionsBySteamId64.get? id = some ref) ∨
      ∃ peer, s.peerIdToSteamId.get? peer = some ref)

/-- All entries but those of one connection are still there. -/
def spares (s : SteamMultiplayerPeer) (handle : SteamHandle) [DecidableEq K]
    (before after : Dict K Nat) : Bool :=
  before.keys.all (fun key => (before.get? key).all (fun ref =>
    (s.heap ref).handle = handle || after.get? key = some ref))

end SteamMultiplayerPeer

/-- A host, and the states that its connections have at Steam. -/
structure SteamHost where
  peer : SteamMultiplayerPeer
  status : SteamHandle → ConnectionState
  /-- The closure of a connection has removed an entry of another one. -/
  misplaced : Bool

inductive HostEvent where
  | change (handle : SteamHandle) (state : ConnectionState) (closes : Bool)
  | receive (id : SteamId) (msg : SteamMessage) (raw : Nat → Bool)
  | getPacket
  | setTargetPeer (peer : SteamPeerId)
  | setTransferMode (mode : MultiplayerPeer.TransferMode)
  | putPacket (buffer : List UInt8) (raw : Nat → Nat → Bool)
  | disconnectPeer (peer : SteamPeerId) (force closes : Bool)

namespace SteamHost

variable (identity : SteamHandle → SteamId)

/-- A host that has just been made, on a socket that Steam gave it. -/
def start (user : SteamId) (socket : { handle : SteamHandle // handle ≠ .invalid }) : SteamHost :=
  ⟨((SteamMultiplayerPeer.fresh user).createHost 1 socket.1).2, fun _ => .none, false⟩

/-- What Steam posts when a connection of the host changes its state. -/
def statusChange (s : SteamHost) (handle : SteamHandle) (state : ConnectionState)
    (closes : Bool) : StatusChange :=
  ⟨handle, s.peer.listenSocket, identity handle, -1, s.status handle, state, closes, fun _ => true⟩

def changed (s : SteamHost) (handle : SteamHandle) (state : ConnectionState) (closes : Bool) :
    SteamHost :=
  let peer := s.peer.networkConnectionStatusChanged (s.statusChange identity handle state closes)
  { peer := peer
    status := Function.update s.status handle state
    misplaced := s.misplaced || (state.isClosed &&
      !(s.peer.spares handle s.peer.connectionsBySteamId64 peer.connectionsBySteamId64 &&
        s.peer.spares handle s.peer.peerIdToSteamId peer.peerIdToSteamId)) }

/-- Steam posts no other changes than those that a connection goes through. -/
def step (s : SteamHost) (event : HostEvent) : SteamHost :=
  match event with
  | .change handle state closes =>
    if (s.status handle).leadsTo state then s.changed identity handle state closes else s
  | .receive id msg raw => { s with peer := s.peer.receive id msg raw }
  | .getPacket => { s with peer := s.peer.getPacket }
  | .setTargetPeer peer => { s with peer := s.peer.step (.setTargetPeer peer) }
  | .setTransferMode mode => { s with peer := s.peer.step (.setTransferMode mode) }
  | .putPacket buffer raw => { s with peer := s.peer.step (.putPacket buffer raw) }
  | .disconnectPeer peer force closes => { s with peer := s.peer.disconnectPeer peer force closes }

variable (s : SteamHost)

/-- Closed connections are in no table, closures removed nothing else, and `peer_disconnected`
answers `peer_connected`. -/
structure Tidy : Prop where
  gone : ∀ handle, (s.status handle).isClosed → ¬ s.peer.Holds handle
  own : s.misplaced = false
  once : ∀ handle, s.peer.disconnectedCount handle ≤ 1
  paired : ∀ handle, 0 < s.peer.disconnectedCount handle → 0 < s.peer.connectedCount handle
  answered : ∀ handle, (s.status handle).isClosed → 0 < s.peer.connectedCount handle →
    s.peer.disconnectedCount handle = 1

/-- The connection that the host removes when a handle is closed: it looks for the Steam id. -/
def removes (handle : SteamHandle) (closes : Bool) : Option Nat :=
  (s.peer.peerIdOf (identity handle)).bind (fun peer => s.peer.disconnects peer closes)

/-- When a connection is closed, what the host removes is that connection, which both tables hold;
or it removes nothing, and need not. -/
def Admits : HostEvent → Prop
  | .change handle state closes =>
    (s.status handle).leadsTo state → state.isClosed → s.status handle ≠ .findingRoute →
      match s.removes identity handle closes with
      | some ref => (s.peer.heap ref).handle = handle ∧
        s.peer.connectionsBySteamId64.get? (identity handle) = some ref
      | none => ¬ s.peer.Holds handle ∧
        (0 < s.peer.connectedCount handle → 0 < s.peer.disconnectedCount handle)
  | _ => True

/-- The connections of a host belong to different handles of Steam, which have been made. -/
structure Hosting : Prop where
  keyed : s.peer.Keyed
  mode : s.peer.activeMode = .server
  loopback : s.peer.isLoopbackClient = false
  socket : s.peer.listenSocket ≠ .invalid
  objects : ∀ ref, ref < s.peer.allocated →
    (s.peer.heap ref).steamId = identity (s.peer.heap ref).handle ∧
      (s.status (s.peer.heap ref).handle).isMade
  distinct : ∀ ref ref', ref < s.peer.allocated → ref' < s.peer.allocated →
    (s.peer.heap ref).handle = (s.peer.heap ref').handle → ref = ref'
  connected : ∀ handle, 0 < s.peer.connectedCount handle ↔
    ∃ ref, ref < s.peer.allocated ∧ (s.peer.heap ref).handle = handle ∧
      (s.peer.heap ref).peerId ≠ .unset
  pending : ∀ peer ref, s.peer.peerIdToSteamId.get? peer = some ref →
    s.peer.disconnectedCount (s.peer.heap ref).handle = 0

end SteamHost

namespace ConnectionState

variable {state next : ConnectionState}

theorem isMade_of_isClosed (h : state.isClosed) : state.isMade := by
  cases state <;> first | rfl | cases h

theorem isMade_of_leadsTo (hmade : state.isMade) (h : state.leadsTo next) : next.isMade := by
  cases state with
  | connected => exact isMade_of_isClosed h
  | closedByPeer => cases next <;> cases h
  | problemDetectedLocally => cases next <;> cases h
  | _ => cases hmade

theorem not_isMade_of_leadsTo_connected (h : state.leadsTo .connected) : ¬ state.isMade := by
  cases state <;> first | exact Bool.false_ne_true | cases h

end ConnectionState

namespace SteamMultiplayerPeer

variable {s : SteamMultiplayerPeer}

theorem spares_iff [DecidableEq K] {before after : Dict K Nat} {handle : SteamHandle} :
    s.spares handle before after = true ↔ ∀ key ref, before.get? key = some ref →
      (s.heap ref).handle = handle ∨ after.get? key = some ref := by
  simp only [spares, List.all_eq_true, Dict.mem_keys, Option.all_eq_true, Bool.or_eq_true,
    decide_eq_true_eq]
  apply forall_congr'
  intro key
  apply Iff.intro
  · intro h ref href
    exact h ((Dict.mem_iff_get? _).2 ⟨ref, href⟩) ref href
  · intro h _ ref href
    exact h ref href

theorem spares_self [DecidableEq K] (table : Dict K Nat) (handle : SteamHandle) :
    s.spares handle table table = true :=
  spares_iff.2 (fun _ _ h => .inr h)

theorem connectedCount_register (ref : Nat) (peer : SteamPeerId) (handle : SteamHandle) :
    (s.register ref peer).connectedCount handle =
      s.connectedCount handle + if (s.heap ref).handle = handle then 1 else 0 := by
  change (s.signals ++ [PeerSignal.peerConnected _ _]).countP _ = _
  rw [List.countP_append, List.countP_singleton]
  simp only [PeerSignal.connects, decide_eq_true_eq, connectedCount]

theorem disconnectedCount_register (ref : Nat) (peer : SteamPeerId) (handle : SteamHandle) :
    (s.register ref peer).disconnectedCount handle = s.disconnectedCount handle := by
  change (s.signals ++ [PeerSignal.peerConnected _ _]).countP _ = _
  rw [List.countP_append, List.countP_singleton]
  rfl

theorem connectedCount_drop (ref : Nat) (peer : SteamPeerId) (handle : SteamHandle) :
    (s.drop ref peer).connectedCount handle = s.connectedCount handle := by
  change (s.signals ++ [PeerSignal.peerDisconnected _ _]).countP _ = _
  rw [List.countP_append, List.countP_singleton]
  rfl

theorem disconnectedCount_drop (ref : Nat) (peer : SteamPeerId) (handle : SteamHandle) :
    (s.drop ref peer).disconnectedCount handle =
      s.disconnectedCount handle + if (s.heap ref).handle = handle then 1 else 0 := by
  change (s.signals ++ [PeerSignal.peerDisconnected _ _]).countP _ = _
  rw [List.countP_append, List.countP_singleton]
  simp only [PeerSignal.disconnects, decide_eq_true_eq, disconnectedCount]

theorem drop_connections (ref : Nat) (peer : SteamPeerId) (id : SteamId) :
    (s.drop ref peer).connectionsBySteamId64.get? id =
      if id = (s.heap ref).steamId then none else s.connectionsBySteamId64.get? id :=
  Dict.get?_erase _

theorem drop_peers (ref : Nat) (peer other : SteamPeerId) :
    (s.drop ref peer).peerIdToSteamId.get? other =
      if other = peer then none else s.peerIdToSteamId.get? other :=
  Dict.get?_erase _

theorem Holds.of_drop {ref : Nat} {peer : SteamPeerId} {handle : SteamHandle}
    (h : (s.drop ref peer).Holds handle) : s.Holds handle := by
  obtain ⟨r, hr, hentry⟩ := h
  refine ⟨r, hr, ?_⟩
  cases hentry with
  | inl hconnection =>
    obtain ⟨id, hid⟩ := hconnection
    rw [drop_connections] at hid
    split at hid
    · cases hid
    · exact .inl ⟨id, hid⟩
  | inr hpeer =>
    obtain ⟨other, hother⟩ := hpeer
    rw [drop_peers] at hother
    split at hother
    · cases hother
    · exact .inr ⟨other, hother⟩

theorem register_handle (ref : Nat) (peer : SteamPeerId) (r : Nat) :
    ((s.register ref peer).heap r).handle = (s.heap r).handle := by
  change (Function.update s.heap ref _ r).handle = _
  by_cases h : r = ref
  · rw [h, Function.update_self]
  · rw [Function.update_of_ne h]

theorem register_steamId (ref : Nat) (peer : SteamPeerId) (r : Nat) :
    ((s.register ref peer).heap r).steamId = (s.heap r).steamId := by
  change (Function.update s.heap ref _ r).steamId = _
  by_cases h : r = ref
  · rw [h, Function.update_self]
  · rw [Function.update_of_ne h]

theorem register_peerId (ref : Nat) (peer : SteamPeerId) (r : Nat) :
    ((s.register ref peer).heap r).peerId = if r = ref then peer else (s.heap r).peerId := by
  change (Function.update s.heap ref _ r).peerId = _
  by_cases h : r = ref
  · rw [h, Function.update_self, if_pos rfl]
  · rw [Function.update_of_ne h, if_neg h]

theorem Holds.of_register {ref : Nat} {peer : SteamPeerId} {id : SteamId} {handle : SteamHandle}
    (hget : s.connectionsBySteamId64.get? id = some ref)
    (h : (s.register ref peer).Holds handle) : s.Holds handle := by
  obtain ⟨r, hr, hentry⟩ := h
  rw [register_handle] at hr
  refine ⟨r, hr, ?_⟩
  cases hentry with
  | inl hconnection => exact .inl hconnection
  | inr hpeer =>
    obtain ⟨other, hother⟩ := hpeer
    change (s.peerIdToSteamId.set peer ref).get? other = some r at hother
    rw [Dict.get?_set] at hother
    split at hother
    · cases hother
      exact .inl ⟨id, hget⟩
    · exact .inr ⟨other, hother⟩

theorem connectionClosed_host (hk : s.Keyed) (hs : s.isServer) (change : StatusChange) :
    s.connectionClosed change =
      match (s.peerIdOf change.identityRemote).bind
        (fun peer => s.disconnects peer change.closes) with
      | none => s
      | some ref => s.drop ref (s.heap ref).peerId := by
  have hnot : ¬ (!s.isServer) = true := by
    rw [hs]
    exact Bool.false_ne_true
  rw [connectionClosed, if_neg hnot]
  cases s.peerIdOf change.identityRemote with
  | none => rfl
  | some peer =>
    simp only [Option.bind_some]
    split
    · next hunset =>
      cases hd : s.disconnects peer change.closes with
      | none => rfl
      | some ref => exact absurd hunset (hk.peers peer ref (disconnects_spec hd).2.1).2.2
    · rw [disconnectPeer_host (hk.server.1 hs)]
      cases hd : s.disconnects peer change.closes with
      | none => rfl
      | some ref =>
        simp only
        rw [(hk.peers peer ref (disconnects_spec hd).2.1).2.1]

end SteamMultiplayerPeer

namespace SteamHost

open SteamMultiplayerPeer

variable {identity : SteamHandle → SteamId} {s : SteamHost} {t : SteamMultiplayerPeer}

theorem Tidy.of_bare (hx : s.Tidy) (h : t.bare = s.peer.bare) : Tidy { s with peer := t } := by
  have hbare : Tidy { s with peer := s.peer.bare } :=
    ⟨hx.gone, hx.own, hx.once, hx.paired, hx.answered⟩
  rw [← h] at hbare
  exact ⟨hbare.gone, hbare.own, hbare.once, hbare.paired, hbare.answered⟩

theorem Hosting.of_bare (hi : s.Hosting identity) (h : t.bare = s.peer.bare) :
    Hosting identity { s with peer := t } := by
  have hbare : Hosting identity { s with peer := s.peer.bare } :=
    ⟨keyed_bare.2 hi.keyed, hi.mode, hi.loopback, hi.socket, hi.objects, hi.distinct, hi.connected,
      hi.pending⟩
  rw [← h] at hbare
  exact ⟨keyed_bare.1 hbare.keyed, hbare.mode, hbare.loopback, hbare.socket, hbare.objects,
    hbare.distinct, hbare.connected, hbare.pending⟩

theorem Hosting.server (hi : s.Hosting identity) : s.peer.isServer := hi.keyed.server.2 hi.mode

theorem Hosting.made_of_holds (hi : s.Hosting identity) {handle : SteamHandle}
    (h : s.peer.Holds handle) : (s.status handle).isMade := by
  obtain ⟨ref, hhandle, hentry⟩ := h
  have hlt : ref < s.peer.allocated := by
    cases hentry with
    | inl hconnection =>
      obtain ⟨id, hid⟩ := hconnection
      exact (hi.keyed.connections id ref hid).1
    | inr hpeer =>
      obtain ⟨peer, hget⟩ := hpeer
      exact (hi.keyed.peers peer ref hget).1
  rw [← hhandle]
  exact (hi.objects ref hlt).2

theorem Hosting.made_of_connected (hi : s.Hosting identity) {handle : SteamHandle}
    (h : 0 < s.peer.connectedCount handle) : (s.status handle).isMade := by
  obtain ⟨ref, hlt, hhandle, _⟩ := (hi.connected handle).1 h
  rw [← hhandle]
  exact (hi.objects ref hlt).2

theorem Hosting.unreported (hi : s.Hosting identity) (hx : s.Tidy) {ref : Nat}
    (hlt : ref < s.peer.allocated) (hunset : (s.peer.heap ref).peerId = .unset) :
    s.peer.disconnectedCount (s.peer.heap ref).handle = 0 := by
  have hsilent : s.peer.connectedCount (s.peer.heap ref).handle = 0 := by
    apply Nat.eq_zero_of_not_pos
    rw [hi.connected]
    intro h
    obtain ⟨r, hr, heq, hset⟩ := h
    rw [hi.distinct r ref hr hlt heq] at hset
    exact hset hunset
  have hpaired := hx.paired (s.peer.heap ref).handle
  omega

theorem Hosting.register (hi : s.Hosting identity) (hx : s.Tidy) {id : SteamId} {ref : Nat}
    {peer : SteamPeerId} (hget : s.peer.connectionsBySteamId64.get? id = some ref)
    (hunset : (s.peer.heap ref).peerId = .unset) (hpeer : peer ≠ .unset) :
    Hosting identity { s with peer := s.peer.register ref peer } := by
  have hlt := (hi.keyed.connections id ref hget).1
  have hmode : s.peer.activeMode ≠ .none := by
    rw [hi.mode]
    decide
  apply Hosting.mk
  · exact hi.keyed.register hget hunset hpeer hmode
  · exact hi.mode
  · exact hi.loopback
  · exact hi.socket
  · intro r hr
    simp only [register_handle, register_steamId]
    exact hi.objects r hr
  · intro r r' hr hr' heq
    simp only [register_handle] at heq
    exact hi.distinct r r' hr hr' heq
  · intro handle
    simp only [connectedCount_register, register_handle, register_peerId]
    by_cases heq : (s.peer.heap ref).handle = handle
    · rw [if_pos heq]
      refine iff_of_true (Nat.succ_pos _) ⟨ref, hlt, heq, ?_⟩
      rw [if_pos rfl]
      exact hpeer
    · rw [if_neg heq, Nat.add_zero, hi.connected]
      refine exists_congr (fun r => and_congr_right (fun _ => and_congr_right (fun hr => ?_)))
      have hne : r ≠ ref := fun h => heq (h ▸ hr)
      rw [if_neg hne]
  · intro other r hr
    change (s.peer.peerIdToSteamId.set peer ref).get? other = some r at hr
    simp only [disconnectedCount_register, register_handle]
    rw [Dict.get?_set] at hr
    split at hr
    · cases hr
      exact hi.unreported hx hlt hunset
    · exact hi.pending other r hr

theorem Tidy.register (hx : s.Tidy) {id : SteamId} {ref : Nat} {peer : SteamPeerId}
    (hget : s.peer.connectionsBySteamId64.get? id = some ref) :
    Tidy { s with peer := s.peer.register ref peer } := by
  have hheld : s.peer.Holds (s.peer.heap ref).handle := ⟨ref, rfl, .inl ⟨id, hget⟩⟩
  apply Tidy.mk
  · intro handle hclosed hholds
    exact hx.gone handle hclosed (hholds.of_register hget)
  · exact hx.own
  · intro handle
    simp only [disconnectedCount_register]
    exact hx.once handle
  · intro handle hpos
    simp only [disconnectedCount_register] at hpos
    simp only [connectedCount_register]
    have hpaired := hx.paired handle hpos
    omega
  · intro handle hclosed hpos
    simp only [connectedCount_register] at hpos
    simp only [disconnectedCount_register]
    have hne : (s.peer.heap ref).handle ≠ handle := by
      intro heq
      exact hx.gone handle hclosed (heq ▸ hheld)
    rw [if_neg hne] at hpos
    exact hx.answered handle hclosed hpos

theorem Hosting.drop (hi : s.Hosting identity) {ref : Nat} {peer : SteamPeerId}
    (hget : s.peer.peerIdToSteamId.get? peer = some ref) :
    Hosting identity { s with peer := s.peer.drop ref peer } := by
  obtain ⟨hlt, hid, _⟩ := hi.keyed.peers peer ref hget
  apply Hosting.mk
  · apply hi.keyed.drop
    rw [hi.mode]
    decide
  · exact hi.mode
  · exact hi.loopback
  · exact hi.socket
  · exact hi.objects
  · exact hi.distinct
  · intro handle
    simp only [connectedCount_drop]
    exact hi.connected handle
  · intro other r hr
    simp only [drop_peers] at hr
    split at hr
    · cases hr
    · next hne =>
      obtain ⟨hr', hid', _⟩ := hi.keyed.peers other r hr
      have hother : (s.peer.heap ref).handle ≠ (s.peer.heap r).handle := by
        intro heq
        rw [hi.distinct ref r hlt hr' heq, hid'] at hid
        exact hne hid
      simp only [disconnectedCount_drop]
      change s.peer.disconnectedCount (s.peer.heap r).handle +
        (if (s.peer.heap ref).handle = (s.peer.heap r).handle then 1 else 0) = 0
      rw [if_neg hother, hi.pending other r hr]

theorem Hosting.counts (hi : s.Hosting identity) {ref : Nat} {peer : SteamPeerId}
    (hget : s.peer.peerIdToSteamId.get? peer = some ref) :
    0 < s.peer.connectedCount (s.peer.heap ref).handle ∧
      s.peer.disconnectedCount (s.peer.heap ref).handle = 0 := by
  obtain ⟨hlt, hid, hset⟩ := hi.keyed.peers peer ref hget
  refine ⟨(hi.connected _).2 ⟨ref, hlt, rfl, ?_⟩, hi.pending peer ref hget⟩
  rw [hid]
  exact hset

theorem Tidy.drop_once (hi : s.Hosting identity) (hx : s.Tidy) {ref : Nat} {peer : SteamPeerId}
    (hget : s.peer.peerIdToSteamId.get? peer = some ref) (handle : SteamHandle) :
    (s.peer.drop ref peer).disconnectedCount handle ≤ 1 ∧
      (0 < (s.peer.drop ref peer).disconnectedCount handle →
        0 < (s.peer.drop ref peer).connectedCount handle) := by
  obtain ⟨hconnected, hquiet⟩ := hi.counts hget
  rw [disconnectedCount_drop, connectedCount_drop]
  by_cases heq : (s.peer.heap ref).handle = handle
  · rw [if_pos heq, ← heq, hquiet]
    exact ⟨Nat.le_refl 1, fun _ => hconnected⟩
  · rw [if_neg heq]
    exact ⟨hx.once handle, hx.paired handle⟩

theorem Tidy.drop (hi : s.Hosting identity) (hx : s.Tidy) {ref : Nat} {peer : SteamPeerId}
    (hget : s.peer.peerIdToSteamId.get? peer = some ref) :
    Tidy { s with peer := s.peer.drop ref peer } := by
  have hheld : s.peer.Holds (s.peer.heap ref).handle := ⟨ref, rfl, .inr ⟨peer, hget⟩⟩
  apply Tidy.mk
  · intro handle hclosed hholds
    exact hx.gone handle hclosed hholds.of_drop
  · exact hx.own
  · intro handle
    exact (hx.drop_once hi hget handle).1
  · intro handle
    exact (hx.drop_once hi hget handle).2
  · intro handle hclosed hpos
    have hne : (s.peer.heap ref).handle ≠ handle := by
      intro heq
      exact hx.gone handle hclosed (heq ▸ hheld)
    simp only [connectedCount_drop] at hpos
    simp only [disconnectedCount_drop]
    rw [if_neg hne]
    exact hx.answered handle hclosed hpos

theorem Hosting.added (hi : s.Hosting identity) {handle : SteamHandle}
    (hnew : ¬ (s.status handle).isMade) (misplaced : Bool) :
    Hosting identity ⟨s.peer.added (identity handle) handle,
      Function.update s.status handle .connected, misplaced⟩ := by
  have hold (r : Nat) (hr : r < s.peer.allocated) :
      (s.peer.added (identity handle) handle).heap r = s.peer.heap r :=
    Function.update_of_ne (Nat.ne_of_lt hr) _ _
  have hself : (s.peer.added (identity handle) handle).heap s.peer.allocated =
      .new (identity handle) handle := Function.update_self _ _ _
  have hfresh (r : Nat) (hr : r < s.peer.allocated) : (s.peer.heap r).handle ≠ handle := by
    intro heq
    have hmade := (hi.objects r hr).2
    rw [heq] at hmade
    exact hnew hmade
  have hcases (r : Nat) (hr : r < s.peer.allocated + 1) : r < s.peer.allocated ∨
      r = s.peer.allocated := Nat.lt_or_eq_of_le (Nat.le_of_lt_succ hr)
  apply Hosting.mk
  · exact hi.keyed.added _ _
  · exact hi.mode
  · exact hi.loopback
  · exact hi.socket
  · intro r hr
    cases hcases r hr with
    | inl hlt =>
      simp only [hold r hlt, Function.update_of_ne (hfresh r hlt)]
      exact hi.objects r hlt
    | inr heq =>
      rw [heq]
      simp only [hself, SteamConnection.new, Function.update_self]
      exact ⟨trivial, rfl⟩
  · intro r r' hr hr' heq
    simp only at heq
    cases hcases r hr with
    | inl hlt =>
      rw [hold r hlt] at heq
      cases hcases r' hr' with
      | inl hlt' =>
        rw [hold r' hlt'] at heq
        exact hi.distinct r r' hlt hlt' heq
      | inr h =>
        rw [h, hself] at heq
        exact absurd heq (hfresh r hlt)
    | inr h =>
      rw [h, hself] at heq
      cases hcases r' hr' with
      | inl hlt' =>
        rw [hold r' hlt'] at heq
        exact absurd heq.symm (hfresh r' hlt')
      | inr h' => exact h.trans h'.symm
  · intro other
    refine (hi.connected other).trans ?_
    apply Iff.intro
    · intro h
      obtain ⟨r, hr, hhandle, hset⟩ := h
      refine ⟨r, Nat.lt_succ_of_lt hr, ?_⟩
      simp only [hold r hr]
      exact ⟨hhandle, hset⟩
    · intro h
      obtain ⟨r, hr, hhandle, hset⟩ := h
      simp only at hhandle hset
      cases hcases r hr with
      | inl hlt =>
        rw [hold r hlt] at hhandle hset
        exact ⟨r, hlt, hhandle, hset⟩
      | inr heq =>
        rw [heq, hself] at hset
        exact absurd rfl hset
  · intro peer r hr
    obtain ⟨hlt, _, _⟩ := hi.keyed.peers peer r hr
    simp only [hold r hlt]
    exact hi.pending peer r hr

theorem Hosting.holds_of_added (hi : s.Hosting identity) {id : SteamId} {handle other : SteamHandle}
    (h : (s.peer.added id handle).Holds other) : other = handle ∨ s.peer.Holds other := by
  obtain ⟨r, hr, hentry⟩ := h
  have hold (r : Nat) (hr : r < s.peer.allocated) :
      (s.peer.added id handle).heap r = s.peer.heap r :=
    Function.update_of_ne (Nat.ne_of_lt hr) _ _
  cases hentry with
  | inl hconnection =>
    obtain ⟨i, hget⟩ := hconnection
    change (s.peer.connectionsBySteamId64.set id s.peer.allocated).get? i = some r at hget
    rw [Dict.get?_set] at hget
    split at hget
    · cases hget
      have hself : (s.peer.added id handle).heap s.peer.allocated = .new id handle :=
        Function.update_self _ _ _
      rw [hself] at hr
      exact .inl hr.symm
    · rw [hold r (hi.keyed.connections i r hget).1] at hr
      exact .inr ⟨r, hr, .inl ⟨i, hget⟩⟩
  | inr hpeer =>
    obtain ⟨peer, hget⟩ := hpeer
    change s.peer.peerIdToSteamId.get? peer = some r at hget
    rw [hold r (hi.keyed.peers peer r hget).1] at hr
    exact .inr ⟨r, hr, .inr ⟨peer, hget⟩⟩

end SteamHost

end Godaemon
