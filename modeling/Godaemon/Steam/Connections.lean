import Mathlib.Logic.Function.Basic
import Godaemon.Steam.SteamMultiplayerPeer

namespace Godaemon
set_option autoImplicit true

/-- The connection without what is queued on it. -/
def SteamConnection.bare (c : SteamConnection) : SteamConnection :=
  { c with
    pendingRetryPackets := [] }

theorem SteamConnection.send_bare (c : SteamConnection) (packet : SteamPacketPeer)
    (raw : Nat → Bool) : (c.send packet raw).2.bare = c.bare := rfl

namespace SteamMultiplayerPeer

variable (s : SteamMultiplayerPeer)

/-- The state without what concerns sending. -/
def bare : SteamMultiplayerPeer :=
  { s with
    targetPeer := 0
    transferMode := .reliable
    noNagle := false
    noDelay := false
    heap := fun ref => (s.heap ref).bare
    sent := [] }

/-- The connection and the peer id that a message sets up. -/
def setsUp (id : SteamId) (msg : SteamMessage) : Option (Nat × SteamPeerId) :=
  match s.connectionsBySteamId64.get? id with
  | none => none
  | some ref =>
    if s.isActive ∧ s.getPeerIdFromSteam64 id = .unset ∧ msg.data.length = 4 ∧
        readSetupPeerPayload msg.data ≠ .unset then some (ref, readSetupPeerPayload msg.data)
    else none

/-- The state after a connection has been set up. -/
def register (ref : Nat) (peer : SteamPeerId) : SteamMultiplayerPeer :=
  let t := { s with
    heap := Function.update s.heap ref { s.heap ref with
      peerId := peer }
    peerIdToSteamId := s.peerIdToSteamId.set peer ref }
  t.emitSignal (.peerConnected (s.heap ref).handle peer)

/-- The state after a connection has been added. -/
def added (id : SteamId) (handle : SteamHandle) : SteamMultiplayerPeer :=
  { s with
    heap := Function.update s.heap s.allocated (.new id handle)
    allocated := s.allocated + 1
    connectionsBySteamId64 := s.connectionsBySteamId64.set id s.allocated }

/-- The state once a callback has told a client that it is connected. -/
def noticed : SteamMultiplayerPeer :=
  if s.isServer then s
  else { s with
    connectionStatus := .connected }

/-- The connection that a call of `disconnect_peer` removes. -/
def disconnects (peer : SteamPeerId) (closes : Bool) : Option Nat :=
  if s.isActive then (s.getConnectionByPeer peer).filter (fun ref => (s.heap ref).close closes)
  else none

/-- The tables refer to connections under their own ids, and no peer has an id outside of a
session. -/
structure Keyed : Prop where
  connections : ∀ id ref, s.connectionsBySteamId64.get? id = some ref →
    ref < s.allocated ∧ (s.heap ref).steamId = id
  peers : ∀ peer ref, s.peerIdToSteamId.get? peer = some ref →
    ref < s.allocated ∧ (s.heap ref).peerId = peer ∧ peer ≠ .unset
  idle : s.activeMode = .none → s.peerIdToSteamId = .empty ∧
    ∀ id ref, s.connectionsBySteamId64.get? id = some ref → (s.heap ref).peerId = .unset
  server : s.isServer ↔ s.activeMode = .server
  unique : s.uniqueId ≠ .unset

variable {s}

theorem bare_sendOn {ref : Nat} {result : List SteamPacketPeer × SteamConnection}
    (h : result.2.bare = (s.heap ref).bare) : (s.sendOn ref result).bare = s.bare := by
  have hheap : (fun r => (Function.update s.heap ref result.2 r).bare) =
      fun r => (s.heap r).bare := by
    funext r
    by_cases hr : r = ref
    · rw [hr, Function.update_self, h]
    · rw [Function.update_of_ne hr]
  simp only [bare, sendOn, hheap]

theorem bare_sendAll (packet : SteamPacketPeer) (raw : Nat → Nat → Bool) (refs : List Nat) :
    (sendAll packet raw refs s).bare = s.bare := by
  induction refs generalizing s with
  | nil => rfl
  | cons ref refs ih => exact ih.trans (bare_sendOn (SteamConnection.send_bare _ _ _))

theorem bare_putPacket (buffer : List UInt8) (raw : Nat → Nat → Bool) :
    (((s.putPacket buffer raw).map Prod.snd).getD s).bare = s.bare := by
  rw [putPacket]
  split
  · rfl
  · split
    · rfl
    · split
      · rfl
      · split
        · rfl
        · split
          · exact bare_sendAll _ _ _
          · cases s.getConnectionByPeer s.targetPeer with
            | none => rfl
            | some ref => exact bare_sendOn (SteamConnection.send_bare _ _ _)

theorem setsUp_of_set {id : SteamId} {msg : SteamMessage} {ref : Nat} {peer : SteamPeerId}
    (h : s.setsUp id msg = some (ref, peer)) :
    s.connectionsBySteamId64.get? id = some ref ∧ s.isActive = true ∧
      s.getPeerIdFromSteam64 id = .unset ∧ msg.data.length = 4 ∧
      readSetupPeerPayload msg.data = peer ∧ peer ≠ .unset := by
  simp only [setsUp] at h
  split at h
  · cases h
  · next r hr =>
    split at h
    · next hset =>
      cases h
      exact ⟨hr, hset.1, hset.2.1, hset.2.2.1, rfl, hset.2.2.2⟩
    · cases h

theorem setsUp_spec (hk : s.Keyed) {id : SteamId} {msg : SteamMessage} {ref : Nat}
    {peer : SteamPeerId} (h : s.setsUp id msg = some (ref, peer)) :
    s.connectionsBySteamId64.get? id = some ref ∧ id ≠ s.user ∧ (s.heap ref).peerId = .unset ∧
      peer ≠ .unset ∧ s.activeMode ≠ .none := by
  obtain ⟨hget, hactive, hpeer, _, _, hset⟩ := setsUp_of_set h
  have huser : id ≠ s.user := by
    intro heq
    rw [getPeerIdFromSteam64, if_pos heq] at hpeer
    exact hk.unique hpeer
  rw [getPeerIdFromSteam64, if_neg huser, hget] at hpeer
  exact ⟨hget, huser, hpeer, hset, by simpa [isActive] using hactive⟩

theorem processPing_bare (hk : s.Keyed) {id : SteamId} {msg : SteamMessage} {ref : Nat}
    {peer : SteamPeerId} (h : s.setsUp id msg = some (ref, peer)) (raw : Nat → Bool) :
    (s.processPing id msg raw).bare = (s.register ref peer).bare := by
  obtain ⟨hget, huser, hunset, hset, _⟩ := setsUp_spec hk h
  obtain ⟨_, _, _, hlength, hread, _⟩ := setsUp_of_set h
  obtain ⟨t, ht⟩ : ∃ t, t = s.setSteamIdPeer id peer := ⟨_, rfl⟩
  have hregister : s.register ref peer =
      t.emitSignal (.peerConnected (t.heap ref).handle (t.heap ref).peerId) := by
    rw [ht]
    simp only [register, setSteamIdPeer, if_neg huser, hget, if_pos hunset, Function.update_self]
  rw [hregister]
  simp only [processPing, hlength, ne_eq, not_true_eq_false, ↓reduceIte, hget, hread, hset, hunset,
    ← ht]
  by_cases hserver : t.isServer
  · obtain ⟨u, hu⟩ : ∃ u, u = t.sendOn ref ((t.heap ref).sendPeer t.uniqueId raw) := ⟨_, rfl⟩
    have hbare : u.bare = t.bare := by
      rw [hu]
      exact bare_sendOn (SteamConnection.send_bare _ _ _)
    have hconnection : (u.heap ref).bare = (t.heap ref).bare :=
      congrFun (congrArg heap hbare) ref
    have hhandle : (u.heap ref).bare.handle = (t.heap ref).bare.handle := by rw [hconnection]
    have hpeer : (u.heap ref).bare.peerId = (t.heap ref).bare.peerId := by rw [hconnection]
    rw [if_pos hserver, ← hu]
    calc (u.emitSignal (.peerConnected (u.heap ref).handle (u.heap ref).peerId)).bare
        = u.bare.emitSignal
            (.peerConnected (u.heap ref).bare.handle (u.heap ref).bare.peerId) := rfl
      _ = t.bare.emitSignal
            (.peerConnected (t.heap ref).bare.handle (t.heap ref).bare.peerId) := by
          rw [hbare, hhandle, hpeer]
      _ = (t.emitSignal (.peerConnected (t.heap ref).handle (t.heap ref).peerId)).bare := rfl
  · rw [if_neg hserver]

theorem receive_bare (hk : s.Keyed) (id : SteamId) (msg : SteamMessage) (raw : Nat → Bool) :
    (∃ ref peer, s.setsUp id msg = some (ref, peer) ∧
        (s.receive id msg raw).bare = (s.register ref peer).bare) ∨
      s.setsUp id msg = none ∧ ((s.receive id msg raw).bare = s.bare ∨
        id ∈ s.connectionsBySteamId64 ∧ s.getPeerIdFromSteam64 id ≠ .unset ∧
          s.receive id msg raw = s.processMessage id msg) := by
  rw [receive]
  split
  · next hactive =>
    refine .inr ⟨?_, .inl rfl⟩
    simp only [Bool.not_eq_true'] at hactive
    rw [setsUp]
    split
    · rfl
    · simp [hactive]
  split
  · next hmem =>
    have hnone := (Dict.get?_eq_none_iff _).2 hmem
    exact .inr ⟨by simp only [setsUp, hnone], .inl rfl⟩
  · next hactive hmem =>
    obtain ⟨ref, hget⟩ := (Dict.mem_iff_get? _).1 (not_not.1 hmem)
    split
    · next hpeer =>
      refine .inr ⟨?_, .inr ⟨not_not.1 hmem, hpeer, rfl⟩⟩
      simp only [setsUp, hget, hpeer, false_and, and_false, ↓reduceIte]
    · next hpeer =>
      by_cases hset : msg.data.length = 4 ∧ readSetupPeerPayload msg.data ≠ .unset
      · have hsetsUp : s.setsUp id msg = some (ref, readSetupPeerPayload msg.data) := by
          simp only [setsUp, hget]
          exact if_pos ⟨by simpa using hactive, not_not.1 hpeer, hset⟩
        exact .inl ⟨ref, _, hsetsUp, processPing_bare hk hsetsUp raw⟩
      · refine .inr ⟨?_, .inl ?_⟩
        · simp only [setsUp, hget]
          exact if_neg (fun h => hset h.2.2)
        · rw [processPing]
          split
          · rfl
          · next hlength =>
            have hread : readSetupPeerPayload msg.data = .unset :=
              not_not.1 (fun h => hset ⟨not_not.1 hlength, h⟩)
            simp only [hget, hread, ↓reduceIte]

theorem disconnectPeer_eq (peer : SteamPeerId) (force closes : Bool) :
    s.disconnectPeer peer force closes =
      match s.disconnects peer closes with
      | none => s
      | some ref =>
        if force && s.activeMode = .client then (s.drop ref peer).clearConnections.close
        else s.drop ref peer := by
  rw [disconnectPeer, disconnects]
  cases s.isActive with
  | false => rfl
  | true =>
    cases s.getConnectionByPeer peer with
    | none => rfl
    | some ref =>
      cases hcloses : (s.heap ref).close closes with
      | false => simp only [Option.filter, hcloses, Bool.not_true, Bool.false_eq_true, ↓reduceIte]
      | true =>
        simp only [Option.filter, hcloses, Bool.not_true, Bool.false_eq_true, ↓reduceIte]
        rfl

theorem disconnects_spec {peer : SteamPeerId} {closes : Bool} {ref : Nat}
    (h : s.disconnects peer closes = some ref) :
    s.isActive = true ∧ s.peerIdToSteamId.get? peer = some ref ∧
      (s.heap ref).close closes = true := by
  rw [disconnects] at h
  split at h
  · next hactive =>
    rw [Option.filter_eq_some_iff] at h
    exact ⟨hactive, h.1, h.2⟩
  · cases h

theorem disconnectPeer_host (h : s.activeMode = .server) (peer : SteamPeerId)
    (force closes : Bool) : s.disconnectPeer peer force closes =
      match s.disconnects peer closes with
      | none => s
      | some ref => s.drop ref peer := by
  rw [disconnectPeer_eq]
  cases s.disconnects peer closes with
  | none => rfl
  | some ref => simp [h]

theorem addConnection_snd (id : SteamId) (handle : SteamHandle) :
    (s.addConnection id handle).2 = if id = s.user then s else s.added id handle := by
  rw [addConnection]
  split
  · rfl
  · rfl

theorem connectionMade_bare (change : StatusChange) :
    (s.connectionMade change).bare = if s.isServer ∨ s.connectionStatus ≠ .connected then
      (s.noticed.addConnection change.identityRemote change.handle).2.bare else s.bare := by
  rw [connectionMade]
  by_cases hserver : s.isServer
  · rw [if_pos hserver, if_pos (.inl hserver), noticed, if_pos hserver]
  · by_cases hstatus : s.connectionStatus ≠ .connected
    · rw [if_neg hserver, if_pos hstatus, if_pos (.inr hstatus), noticed, if_neg hserver]
      obtain ⟨t, ht⟩ : ∃ t, t = { s with
        connectionStatus := MultiplayerPeer.ConnectionStatus.connected } := ⟨_, rfl⟩
      simp only [← ht]
      by_cases huser : change.identityRemote = t.user
      · have hadd : t.addConnection change.identityRemote change.handle = (none, t) :=
          if_pos huser
        rw [hadd]
      · have hadd : t.addConnection change.identityRemote change.handle =
            (some t.allocated, t.added change.identityRemote change.handle) := if_neg huser
        rw [hadd]
        exact bare_sendOn (SteamConnection.send_bare _ _ _)
    · rw [if_neg hserver, if_neg hstatus, if_neg (fun h => h.elim hserver hstatus)]

theorem keyed_bare : s.bare.Keyed ↔ s.Keyed :=
  ⟨fun h => ⟨h.connections, h.peers, h.idle, h.server, h.unique⟩,
    fun h => ⟨h.connections, h.peers, h.idle, h.server, h.unique⟩⟩

theorem Keyed.of_bare {t : SteamMultiplayerPeer} (hk : s.Keyed) (h : t.bare = s.bare) : t.Keyed :=
  keyed_bare.1 (h ▸ keyed_bare.2 hk)

theorem Keyed.register (hk : s.Keyed) {id : SteamId} {ref : Nat} {peer : SteamPeerId}
    (hget : s.connectionsBySteamId64.get? id = some ref) (hunset : (s.heap ref).peerId = .unset)
    (hpeer : peer ≠ .unset) (hmode : s.activeMode ≠ .none) : (s.register ref peer).Keyed := by
  have hother (r : Nat) (hr : r ≠ ref) : (s.register ref peer).heap r = s.heap r :=
    Function.update_of_ne hr _ _
  apply Keyed.mk
  · intro id' r hr
    obtain ⟨hlt, hid⟩ := hk.connections id' r hr
    refine ⟨hlt, ?_⟩
    by_cases h : r = ref
    · subst h
      simp only [SteamMultiplayerPeer.register, emitSignal, Function.update_self]
      exact hid
    · rw [hother r h]
      exact hid
  · intro peer' r hr
    change (s.peerIdToSteamId.set peer ref).get? peer' = some r at hr
    rw [Dict.get?_set] at hr
    split at hr
    · next heq =>
      cases hr
      refine ⟨(hk.connections id ref hget).1, ?_, heq ▸ hpeer⟩
      simp only [SteamMultiplayerPeer.register, emitSignal, Function.update_self]
      exact heq.symm
    · obtain ⟨hlt, hid, hset⟩ := hk.peers peer' r hr
      refine ⟨hlt, ?_, hset⟩
      have h : r ≠ ref := by
        intro heq
        rw [heq, hunset] at hid
        exact hset hid.symm
      rw [hother r h]
      exact hid
  · intro h
    exact absurd h hmode
  · exact hk.server
  · exact hk.unique

theorem Keyed.added (hk : s.Keyed) (id : SteamId) (handle : SteamHandle) :
    (s.added id handle).Keyed := by
  have hold (r : Nat) (hr : r < s.allocated) : (s.added id handle).heap r = s.heap r :=
    Function.update_of_ne (Nat.ne_of_lt hr) _ _
  apply Keyed.mk
  · intro id' r hr
    change (s.connectionsBySteamId64.set id s.allocated).get? id' = some r at hr
    rw [Dict.get?_set] at hr
    split at hr
    · next heq =>
      cases hr
      refine ⟨Nat.lt_succ_self _, ?_⟩
      simp only [SteamMultiplayerPeer.added, Function.update_self]
      exact heq.symm
    · obtain ⟨hlt, hid⟩ := hk.connections id' r hr
      rw [hold r hlt]
      exact ⟨Nat.lt_succ_of_lt hlt, hid⟩
  · intro peer r hr
    obtain ⟨hlt, hid, hset⟩ := hk.peers peer r hr
    rw [hold r hlt]
    exact ⟨Nat.lt_succ_of_lt hlt, hid, hset⟩
  · intro hmode
    refine ⟨(hk.idle hmode).1, ?_⟩
    intro id' r hr
    change (s.connectionsBySteamId64.set id s.allocated).get? id' = some r at hr
    rw [Dict.get?_set] at hr
    split at hr
    · cases hr
      simp only [SteamMultiplayerPeer.added, Function.update_self]
      rfl
    · rw [hold r (hk.connections id' r hr).1]
      exact (hk.idle hmode).2 id' r hr
  · exact hk.server
  · exact hk.unique

theorem Keyed.drop (hk : s.Keyed) (hmode : s.activeMode ≠ .none) (ref : Nat)
    (peer : SteamPeerId) : (s.drop ref peer).Keyed := by
  apply Keyed.mk
  · intro id r hr
    change (s.connectionsBySteamId64.erase _).get? id = some r at hr
    rw [Dict.get?_erase] at hr
    split at hr
    · cases hr
    · exact hk.connections id r hr
  · intro peer' r hr
    change (s.peerIdToSteamId.erase peer).get? peer' = some r at hr
    rw [Dict.get?_erase] at hr
    split at hr
    · cases hr
    · exact hk.peers peer' r hr
  · intro h
    exact absurd h hmode
  · exact hk.server
  · exact hk.unique

theorem Keyed.clearConnections (hk : s.Keyed) : s.clearConnections.Keyed := by
  apply Keyed.mk
  · intro id ref h
    cases h
  · exact hk.peers
  · intro h
    refine ⟨(hk.idle h).1, ?_⟩
    intro id ref hr
    cases hr
  · exact hk.server
  · exact hk.unique

theorem Keyed.of_empty (hmode : s.activeMode = .none) (hunique : s.uniqueId = 0)
    (hconnections : s.connectionsBySteamId64 = .empty) (hpeers : s.peerIdToSteamId = .empty) :
    s.Keyed := by
  apply Keyed.mk
  · intro id ref h
    rw [hconnections] at h
    cases h
  · intro peer ref h
    rw [hpeers] at h
    cases h
  · intro _
    refine ⟨hpeers, ?_⟩
    intro id ref h
    rw [hconnections] at h
    cases h
  · rw [isServer, hunique, hmode]
    decide
  · rw [hunique]
    decide

theorem Keyed.close (hk : s.Keyed) : s.close.Keyed := by
  rw [SteamMultiplayerPeer.close]
  split
  · exact hk
  · split
    · exact hk
    · exact .of_empty rfl rfl rfl rfl

theorem Keyed.disconnectPeer (hk : s.Keyed) (peer : SteamPeerId) (force closes : Bool) :
    (s.disconnectPeer peer force closes).Keyed := by
  rw [disconnectPeer_eq]
  cases hd : s.disconnects peer closes with
  | none => exact hk
  | some ref =>
    have hactive := (disconnects_spec hd).1
    have hmode : s.activeMode ≠ .none := by simpa [isActive] using hactive
    have hdrop := hk.drop hmode ref peer
    simp only
    split
    · exact hdrop.clearConnections.close
    · exact hdrop

theorem Keyed.receive (hk : s.Keyed) (id : SteamId) (msg : SteamMessage) (raw : Nat → Bool) :
    (s.receive id msg raw).Keyed := by
  cases receive_bare hk id msg raw with
  | inl h =>
    obtain ⟨ref, peer, hset, hbare⟩ := h
    obtain ⟨hget, _, hunset, hpeer, hmode⟩ := setsUp_spec hk hset
    exact (hk.register hget hunset hpeer hmode).of_bare hbare
  | inr h =>
    obtain ⟨_, hbare | hmessage⟩ := h
    · exact hk.of_bare hbare
    · rw [hmessage.2.2, processMessage]
      split
      · exact hk
      · exact ⟨hk.connections, hk.peers, hk.idle, hk.server, hk.unique⟩

theorem Keyed.noticed (hk : s.Keyed) : s.noticed.Keyed := by
  rw [SteamMultiplayerPeer.noticed]
  split
  · exact hk
  · exact ⟨hk.connections, hk.peers, hk.idle, hk.server, hk.unique⟩

theorem Keyed.connectionMade (hk : s.Keyed) (change : StatusChange) :
    (s.connectionMade change).Keyed := by
  have hbare := connectionMade_bare (s := s) change
  split at hbare
  · refine Keyed.of_bare ?_ hbare
    rw [addConnection_snd]
    split
    · exact hk.noticed
    · exact hk.noticed.added _ _
  · exact hk.of_bare hbare

theorem Keyed.connectionClosed (hk : s.Keyed) (change : StatusChange) :
    (s.connectionClosed change).Keyed := by
  rw [SteamMultiplayerPeer.connectionClosed]
  split
  · obtain ⟨t, ht⟩ : ∃ t, t = if s.connectionStatus = .connected then
        s.disconnectPeer .server true change.closes else s := ⟨_, rfl⟩
    have hkt : t.Keyed := by
      rw [ht]
      split
      · exact hk.disconnectPeer _ _ _
      · exact hk
    simp only [← ht]
    split
    · exact hkt.close
    · exact hkt
  · split
    · exact hk
    · split
      · exact hk
      · exact hk.disconnectPeer _ _ _

theorem Keyed.fresh (user : SteamId) : (fresh user).Keyed := .of_empty rfl rfl rfl rfl

theorem Keyed.createHost (hk : s.Keyed) (port : Int) (socket : SteamHandle) :
    (s.createHost port socket).2.Keyed := by
  rw [SteamMultiplayerPeer.createHost]
  split
  · exact hk
  · split
    · exact hk
    · split
      · exact ⟨hk.connections, hk.peers, hk.idle, hk.server, hk.unique⟩
      · apply Keyed.mk
        · exact hk.connections
        · exact hk.peers
        · exact fun h => by cases h
        · exact iff_of_true (decide_eq_true rfl) rfl
        · change SteamPeerId.server ≠ .unset
          decide

theorem Keyed.createClient (hk : s.Keyed) (port : Int) (handle : SteamHandle) (id : ClientId) :
    (s.createClient port handle id).2.Keyed := by
  rw [SteamMultiplayerPeer.createClient]
  split
  · exact hk
  · next hactive =>
    have hmode : s.activeMode = .none := by simpa [isActive] using hactive
    split
    · exact hk
    · split
      · refine ⟨hk.connections, hk.peers, hk.idle, ?_, ?_⟩
        · change decide ((0 : SteamPeerId) = .server) = true ↔ s.activeMode = .server
          rw [hmode]
          decide
        · change (0 : SteamPeerId) ≠ .unset
          decide
      · have hclient : ¬ SteamMode.client = .server := by decide
        have hserver : ¬ decide (id.1 = .server) = true :=
          fun h => id.ne_server (of_decide_eq_true h)
        exact ⟨hk.connections, hk.peers, (fun h => by cases h), iff_of_false hserver hclient,
          id.ne_unset⟩

theorem createHost_fresh (user : SteamId) (socket : { handle : SteamHandle // handle ≠ .invalid }) :
    ((fresh user).createHost 1 socket.1).2 = { fresh user with
      listenSocket := socket.1
      uniqueId := .server
      activeMode := .server
      connectionStatus := .connected } := by
  have hport : ¬ (1 : Int) ≤ 0 := by decide
  simp only [createHost, if_neg hport, if_neg socket.2]
  rfl

theorem createClient_fresh (user : SteamId) (handle : { handle : SteamHandle // handle ≠ .invalid })
    (id : ClientId) : ((fresh user).createClient 1 handle.1 id).2 = { fresh user with
      connection := handle.1
      uniqueId := id.1
      activeMode := .client
      connectionStatus := .connecting } := by
  have hport : ¬ (1 : Int) ≤ 0 := by decide
  simp only [createClient, if_neg hport, if_neg handle.2]
  rfl

theorem Keyed.step (hk : s.Keyed) (event : SteamEvent) : (s.step event).Keyed := by
  cases event with
  | createHost port socket => exact hk.createHost port socket
  | createClient port handle id => exact hk.createClient port handle id
  | close => exact hk.close
  | statusChanged change =>
    change (s.networkConnectionStatusChanged change).Keyed
    rw [networkConnectionStatusChanged]
    cases s.statusKind change with
    | ignored => exact hk
    | made => exact hk.connectionMade change
    | closed => exact hk.connectionClosed change
  | receive id msg raw => exact hk.receive id msg raw
  | putPacket buffer raw => exact hk.of_bare (bare_putPacket buffer raw)
  | disconnectPeer peer force closes => exact hk.disconnectPeer peer force closes
  | getPacket => exact ⟨hk.connections, hk.peers, hk.idle, hk.server, hk.unique⟩
  | setTargetPeer peer => exact ⟨hk.connections, hk.peers, hk.idle, hk.server, hk.unique⟩
  | setTransferMode mode => exact ⟨hk.connections, hk.peers, hk.idle, hk.server, hk.unique⟩

end SteamMultiplayerPeer

/-- The connection of a client to a host that listens on socket 1. -/
def clientConnected (handle : SteamHandle) (id : SteamId) : SteamEvent :=
  .statusChanged ⟨handle, 1, id, -1, .findingRoute, .connected, true, fun _ => true⟩

/-- A client tells its peer id. -/
def clientSetup (id : SteamId) (peer : SteamPeerId) : SteamEvent :=
  .receive id ⟨setupPeerPayload peer, sendReliable⟩ (fun _ => true)

end Godaemon
