import Godaemon.Steam.HostConnections

namespace Godaemon
set_option autoImplicit true

namespace SteamHost

open SteamMultiplayerPeer

variable {identity : SteamHandle → SteamId} {s : SteamHost}

theorem Hosting.status (hi : s.Hosting identity) {handle : SteamHandle}
    {state : ConnectionState} (hleads : (s.status handle).leadsTo state) (misplaced : Bool) :
    Hosting identity ⟨s.peer, Function.update s.status handle state, misplaced⟩ := by
  refine ⟨hi.keyed, hi.mode, hi.loopback, hi.socket, ?_, hi.distinct, hi.connected, hi.pending⟩
  intro ref hlt
  obtain ⟨hid, hmade⟩ := hi.objects ref hlt
  refine ⟨hid, ?_⟩
  by_cases heq : (s.peer.heap ref).handle = handle
  · simp only [heq, Function.update_self]
    rw [heq] at hmade
    exact ConnectionState.isMade_of_leadsTo hmade hleads
  · simp only [Function.update_of_ne heq]
    exact hmade

theorem Tidy.status (hx : s.Tidy) {handle : SteamHandle} {state : ConnectionState}
    (hopen : ¬ state.isClosed) :
    Tidy ⟨s.peer, Function.update s.status handle state, s.misplaced⟩ := by
  have hclosed (other : SteamHandle)
      (h : (Function.update s.status handle state other).isClosed) :
      (s.status other).isClosed := by
    by_cases heq : other = handle
    · rw [heq, Function.update_self] at h
      exact absurd h hopen
    · rwa [Function.update_of_ne heq] at h
  exact ⟨fun other h => hx.gone other (hclosed other h), hx.own, hx.once, hx.paired,
    fun other h => hx.answered other (hclosed other h)⟩

theorem Tidy.added (hi : s.Hosting identity) (hx : s.Tidy) {handle : SteamHandle}
    (id : SteamId) :
    Tidy ⟨s.peer.added id handle, Function.update s.status handle .connected, s.misplaced⟩ := by
  have hstatus : Tidy ⟨s.peer, Function.update s.status handle .connected, s.misplaced⟩ :=
    hx.status Bool.false_ne_true
  refine ⟨?_, hx.own, hx.once, hx.paired, hstatus.answered⟩
  intro other hclosed hholds
  cases hi.holds_of_added hholds with
  | inl heq =>
    simp only [heq, Function.update_self] at hclosed
    cases hclosed
  | inr hheld => exact hstatus.gone other hclosed hheld

theorem Hosting.statusKind_eq (hi : s.Hosting identity) {handle : SteamHandle}
    {state : ConnectionState} (hleads : (s.status handle).leadsTo state) (closes : Bool) :
    s.peer.statusKind (s.statusChange identity handle state closes) =
      if state = .connected then .made
      else if state.isClosed ∧ s.status handle ≠ .findingRoute then .closed
      else .ignored := by
  have hchain (old next : ConnectionState) (h : old.leadsTo next) :
      (if old = .none ∧ next = .connecting then StatusKind.ignored
      else if (old = .connecting ∨ old = .findingRoute) ∧ next = .connected then .made
      else if (old = .connecting ∨ old = .connected) ∧
        (next = .closedByPeer ∨ next = .problemDetectedLocally) then .closed
      else .ignored) =
        if next = .connected then .made
        else if next.isClosed ∧ old ≠ .findingRoute then .closed
        else .ignored := by
    cases old <;> cases next <;> first | rfl | cases h
  have hsocket := hi.socket
  have huser : ¬ (-1 : Int) = 1 := by decide
  simp only [statusKind, statusChange, hi.loopback, hi.server, Bool.false_eq_true, ↓reduceIte,
    Bool.not_true, not_true_eq_false, false_and, ne_eq, hsocket, or_self, and_false,
    not_false_eq_true, true_and, huser]
  exact hchain (s.status handle) state hleads

theorem Hosting.changed_made (hi : s.Hosting identity) {handle : SteamHandle}
    (hleads : (s.status handle).leadsTo .connected) (closes : Bool) :
    s.changed identity handle .connected closes =
      ⟨(s.peer.addConnection (identity handle) handle).2,
        Function.update s.status handle .connected, s.misplaced⟩ := by
  have hkind := hi.statusKind_eq hleads closes
  rw [if_pos rfl] at hkind
  simp only [changed, networkConnectionStatusChanged, hkind, connectionMade, if_pos hi.server,
    ConnectionState.isClosed, Bool.false_and, Bool.or_false]
  rfl

theorem Hosting.changed_ignored (hi : s.Hosting identity) {handle : SteamHandle}
    {state : ConnectionState} (hleads : (s.status handle).leadsTo state) (closes : Bool)
    (hstate : state ≠ .connected)
    (hclosed : ¬ (state.isClosed ∧ s.status handle ≠ .findingRoute)) :
    s.changed identity handle state closes =
      ⟨s.peer, Function.update s.status handle state, s.misplaced⟩ := by
  have hkind := hi.statusKind_eq hleads closes
  rw [if_neg hstate, if_neg hclosed] at hkind
  simp only [changed, networkConnectionStatusChanged, hkind, spares_self, Bool.and_self,
    Bool.not_true, Bool.and_false, Bool.or_false]

theorem Hosting.changed_closed (hi : s.Hosting identity) {handle : SteamHandle}
    {state : ConnectionState} (hleads : (s.status handle).leadsTo state) (closes : Bool)
    (hclosed : state.isClosed) (hroute : s.status handle ≠ .findingRoute) :
    (s.changed identity handle state closes).peer =
      match s.removes identity handle closes with
      | none => s.peer
      | some ref => s.peer.drop ref (s.peer.heap ref).peerId := by
  have hkind := hi.statusKind_eq hleads closes
  have hstate : state ≠ .connected := by
    intro heq
    rw [heq] at hclosed
    cases hclosed
  rw [if_neg hstate, if_pos ⟨hclosed, hroute⟩] at hkind
  simp only [changed, networkConnectionStatusChanged, hkind]
  exact connectionClosed_host hi.keyed hi.server _

theorem Hosting.removes_spec (hi : s.Hosting identity) {handle : SteamHandle} {closes : Bool}
    {ref : Nat} (h : s.removes identity handle closes = some ref) :
    s.peer.peerIdToSteamId.get? (s.peer.heap ref).peerId = some ref ∧
      ∃ c, s.peer.connectionsBySteamId64.get? (identity handle) = some c := by
  obtain ⟨peer, hpeer, hd⟩ := Option.bind_eq_some_iff.1 h
  obtain ⟨c, hget, _⟩ := Option.map_eq_some_iff.1 hpeer
  have hin := (disconnects_spec hd).2.1
  rw [(hi.keyed.peers peer ref hin).2.1]
  exact ⟨hin, c, hget⟩

theorem Hosting.changed (hi : s.Hosting identity) {handle : SteamHandle}
    {state : ConnectionState} (hleads : (s.status handle).leadsTo state) (closes : Bool) :
    (s.changed identity handle state closes).Hosting identity := by
  by_cases hstate : state = .connected
  · subst hstate
    rw [hi.changed_made hleads, addConnection_snd]
    split
    · exact hi.status hleads _
    · exact hi.added (ConnectionState.not_isMade_of_leadsTo_connected hleads) _
  · by_cases hclosed : state.isClosed ∧ s.status handle ≠ .findingRoute
    · have hpeer := hi.changed_closed hleads closes hclosed.1 hclosed.2
      obtain ⟨t, ht⟩ : ∃ t, t = s.changed identity handle state closes := ⟨_, rfl⟩
      have hstatus : t.status = Function.update s.status handle state := by
        rw [ht]
        rfl
      rw [← ht] at hpeer ⊢
      obtain ⟨peer, status, misplaced⟩ := t
      simp only at hpeer hstatus
      rw [hpeer, hstatus]
      cases hremoves : s.removes identity handle closes with
      | none => exact hi.status hleads _
      | some ref => exact (hi.drop (hi.removes_spec hremoves).1).status hleads _
    · rw [hi.changed_ignored hleads closes hstate hclosed]
      exact hi.status hleads _

theorem Tidy.kept_iff (hx : s.Tidy) {handle : SteamHandle} {state : ConnectionState}
    (hclosed : state.isClosed) :
    Tidy ⟨s.peer, Function.update s.status handle state, s.misplaced⟩ ↔
      ¬ s.peer.Holds handle ∧
        (0 < s.peer.connectedCount handle → 0 < s.peer.disconnectedCount handle) := by
  have hself : (Function.update s.status handle state handle).isClosed := by
    rw [Function.update_self]
    exact hclosed
  apply Iff.intro
  · intro h
    refine ⟨h.gone handle hself, ?_⟩
    intro hpos
    have hone := h.answered handle hself hpos
    simp only at hone
    omega
  · intro h
    obtain ⟨hgone, hanswered⟩ := h
    refine ⟨?_, hx.own, hx.once, hx.paired, ?_⟩
    · intro other hother
      by_cases heq : other = handle
      · rw [heq]
        exact hgone
      · simp only [Function.update_of_ne heq] at hother
        exact hx.gone other hother
    · intro other hother hpos
      by_cases heq : other = handle
      · rw [heq] at hpos ⊢
        have honce := hx.once handle
        have hpos' := hanswered hpos
        simp only
        omega
      · simp only [Function.update_of_ne heq] at hother
        exact hx.answered other hother hpos

theorem Hosting.not_holds_drop (hi : s.Hosting identity) {ref : Nat}
    (hget : s.peer.peerIdToSteamId.get? (s.peer.heap ref).peerId = some ref) :
    ¬ (s.peer.drop ref (s.peer.heap ref).peerId).Holds (s.peer.heap ref).handle := by
  intro h
  have hlt := (hi.keyed.peers _ ref hget).1
  obtain ⟨r, hr, hentry⟩ := h
  change (s.peer.heap r).handle = _ at hr
  cases hentry with
  | inl hconnection =>
    obtain ⟨id, hid⟩ := hconnection
    rw [drop_connections] at hid
    split at hid
    · cases hid
    · next hne =>
      obtain ⟨hltr, hkey⟩ := hi.keyed.connections id r hid
      rw [hi.distinct r ref hltr hlt hr] at hkey
      exact hne hkey.symm
  | inr hpeer =>
    obtain ⟨other, hother⟩ := hpeer
    rw [drop_peers] at hother
    split at hother
    · cases hother
    · next hne =>
      obtain ⟨hltr, hkey, _⟩ := hi.keyed.peers other r hother
      rw [hi.distinct r ref hltr hlt hr] at hkey
      exact hne hkey.symm

/-- Removing a connection takes nothing from others exactly if it is the closed one, in both
tables. -/
theorem Hosting.spares_drop_iff (hi : s.Hosting identity) {handle : SteamHandle} {ref c : Nat}
    (hget : s.peer.peerIdToSteamId.get? (s.peer.heap ref).peerId = some ref)
    (hentry : s.peer.connectionsBySteamId64.get? (identity handle) = some c) :
    (s.peer.spares handle s.peer.connectionsBySteamId64
        (s.peer.drop ref (s.peer.heap ref).peerId).connectionsBySteamId64 &&
      s.peer.spares handle s.peer.peerIdToSteamId
        (s.peer.drop ref (s.peer.heap ref).peerId).peerIdToSteamId) = true ↔
      (s.peer.heap ref).handle = handle ∧
        s.peer.connectionsBySteamId64.get? (identity handle) = some ref := by
  have hlt := (hi.keyed.peers _ ref hget).1
  have hid := (hi.objects ref hlt).1
  rw [Bool.and_eq_true, spares_iff, spares_iff]
  apply Iff.intro
  · intro h
    obtain ⟨hconnections, hpeers⟩ := h
    have hhandle : (s.peer.heap ref).handle = handle := by
      apply (hpeers _ ref hget).resolve_right
      rw [drop_peers, if_pos rfl]
      exact fun h => by cases h
    have hc : (s.peer.heap c).handle = handle := by
      apply (hconnections _ c hentry).resolve_right
      rw [drop_connections, hid, hhandle, if_pos rfl]
      exact fun h => by cases h
    refine ⟨hhandle, ?_⟩
    have hltc := (hi.keyed.connections _ c hentry).1
    rw [← hi.distinct c ref hltc hlt (hc.trans hhandle.symm)]
    exact hentry
  · intro h
    obtain ⟨hhandle, hboth⟩ := h
    apply And.intro
    · intro key r hr
      rw [drop_connections]
      split
      · next hkey =>
        rw [hkey, hid, hhandle, hboth] at hr
        cases hr
        exact .inl hhandle
      · exact .inr hr
    · intro key r hr
      rw [drop_peers]
      split
      · next hkey =>
        rw [hkey, hget] at hr
        cases hr
        exact .inl hhandle
      · exact .inr hr

theorem changed_eq (identity : SteamHandle → SteamId) (s : SteamHost) (handle : SteamHandle)
    (state : ConnectionState)
    (closes : Bool) : s.changed identity handle state closes =
      ⟨(s.changed identity handle state closes).peer, Function.update s.status handle state,
        s.misplaced || (state.isClosed && !(
          s.peer.spares handle s.peer.connectionsBySteamId64
            (s.changed identity handle state closes).peer.connectionsBySteamId64 &&
          s.peer.spares handle s.peer.peerIdToSteamId
            (s.changed identity handle state closes).peer.peerIdToSteamId))⟩ := rfl

theorem Tidy.dropped (hi : s.Hosting identity) (hx : s.Tidy) {state : ConnectionState}
    {ref : Nat} (hget : s.peer.peerIdToSteamId.get? (s.peer.heap ref).peerId = some ref) :
    Tidy ⟨s.peer.drop ref (s.peer.heap ref).peerId,
      Function.update s.status (s.peer.heap ref).handle state, s.misplaced⟩ := by
  have hgone := hi.not_holds_drop hget
  apply Tidy.mk
  · intro other hother hholds
    by_cases heq : other = (s.peer.heap ref).handle
    · rw [heq] at hholds
      exact hgone hholds
    · simp only [Function.update_of_ne heq] at hother
      exact hx.gone other hother hholds.of_drop
  · exact hx.own
  · intro other
    exact (hx.drop_once hi hget other).1
  · intro other
    exact (hx.drop_once hi hget other).2
  · intro other hother hpos
    simp only [connectedCount_drop] at hpos
    simp only [disconnectedCount_drop]
    by_cases heq : other = (s.peer.heap ref).handle
    · rw [heq, if_pos rfl, (hi.counts hget).2]
    · simp only [Function.update_of_ne heq] at hother
      rw [if_neg (Ne.symm heq)]
      exact hx.answered other hother hpos

theorem changed_tidy_iff (hi : s.Hosting identity) (hx : s.Tidy) {handle : SteamHandle}
    {state : ConnectionState} (hleads : (s.status handle).leadsTo state) (closes : Bool)
    (hclosed : state.isClosed) (hroute : s.status handle ≠ .findingRoute) :
    (s.changed identity handle state closes).Tidy ↔
      match s.removes identity handle closes with
      | some ref => (s.peer.heap ref).handle = handle ∧
        s.peer.connectionsBySteamId64.get? (identity handle) = some ref
      | none => ¬ s.peer.Holds handle ∧
        (0 < s.peer.connectedCount handle → 0 < s.peer.disconnectedCount handle) := by
  have hform := changed_eq identity s handle state closes
  rw [hi.changed_closed hleads closes hclosed hroute, hclosed, Bool.true_and] at hform
  rw [hform]
  cases hremoves : s.removes identity handle closes with
  | none =>
    simp only [spares_self, Bool.and_self, Bool.not_true, Bool.or_false]
    exact hx.kept_iff hclosed
  | some ref =>
    obtain ⟨hget, c, hentry⟩ := hi.removes_spec hremoves
    have hspares := hi.spares_drop_iff hget hentry
    simp only
    rw [← hspares]
    apply Iff.intro
    · intro h
      have hown := h.own
      simp only [Bool.or_eq_false_iff, Bool.not_eq_false'] at hown
      exact hown.2
    · intro h
      obtain ⟨hhandle, _⟩ := hspares.1 h
      rw [h, Bool.not_true, Bool.or_false, ← hhandle]
      exact hx.dropped hi hget

theorem change_tidy_iff (hi : s.Hosting identity) (hx : s.Tidy) {handle : SteamHandle}
    {state : ConnectionState} (hleads : (s.status handle).leadsTo state) (closes : Bool) :
    (s.changed identity handle state closes).Tidy ↔
      s.Admits identity (.change handle state closes) := by
  rw [Admits, forall_prop_of_true hleads]
  by_cases hclosed : state.isClosed ∧ s.status handle ≠ .findingRoute
  · rw [forall_prop_of_true hclosed.1, forall_prop_of_true hclosed.2]
    exact changed_tidy_iff hi hx hleads closes hclosed.1 hclosed.2
  · refine iff_of_true ?_ (fun h h' => absurd ⟨h, h'⟩ hclosed)
    by_cases hstate : state = .connected
    · subst hstate
      rw [hi.changed_made hleads, addConnection_snd]
      split
      · exact hx.status Bool.false_ne_true
      · exact hx.added hi _
    · rw [hi.changed_ignored hleads closes hstate hclosed]
      by_cases hopen : state.isClosed
      · -- a connection that is still finding its route is in no table
        have hroute : s.status handle = .findingRoute := not_not.1 (fun h => hclosed ⟨hopen, h⟩)
        have hunmade : ¬ (s.status handle).isMade := by
          rw [hroute]
          exact Bool.false_ne_true
        exact (hx.kept_iff hopen).2 ⟨fun h => hunmade (hi.made_of_holds h),
          fun h => absurd (hi.made_of_connected h) hunmade⟩
      · exact hx.status hopen

theorem Hosting.receive (hi : s.Hosting identity) (hx : s.Tidy) (id : SteamId)
    (msg : SteamMessage) (raw : Nat → Bool) :
    Hosting identity { s with peer := s.peer.receive id msg raw } ∧
      Tidy { s with peer := s.peer.receive id msg raw } := by
  cases receive_bare hi.keyed id msg raw with
  | inl h =>
    obtain ⟨ref, peer, hset, hbare⟩ := h
    obtain ⟨hget, _, hunset, hpeer, _⟩ := setsUp_spec hi.keyed hset
    have hi' := hi.register hx hget hunset hpeer
    have hx' : Tidy { s with peer := s.peer.register ref peer } := hx.register hget
    exact ⟨hi'.of_bare hbare, hx'.of_bare hbare⟩
  | inr h =>
    obtain ⟨_, hbare | hmessage⟩ := h
    · exact ⟨hi.of_bare hbare, hx.of_bare hbare⟩
    · rw [hmessage.2.2, processMessage]
      split
      · exact ⟨hi, hx⟩
      · have hk := hi.keyed
        exact ⟨⟨⟨hk.connections, hk.peers, hk.idle, hk.server, hk.unique⟩, hi.mode, hi.loopback,
          hi.socket, hi.objects, hi.distinct, hi.connected, hi.pending⟩,
          ⟨hx.gone, hx.own, hx.once, hx.paired, hx.answered⟩⟩

theorem Hosting.disconnectPeer (hi : s.Hosting identity) (hx : s.Tidy) (peer : SteamPeerId)
    (force closes : Bool) :
    Hosting identity { s with peer := s.peer.disconnectPeer peer force closes } ∧
      Tidy { s with peer := s.peer.disconnectPeer peer force closes } := by
  rw [disconnectPeer_host hi.mode]
  cases hd : s.peer.disconnects peer closes with
  | none => exact ⟨hi, hx⟩
  | some ref =>
    have hget := (disconnects_spec hd).2.1
    exact ⟨hi.drop hget, hx.drop hi hget⟩

/-- A step of the host keeps its invariant, and its connections tidy exactly if it is admitted. -/
theorem step_spec (hi : s.Hosting identity) (hx : s.Tidy) (event : HostEvent) :
    (s.step identity event).Hosting identity ∧
      ((s.step identity event).Tidy ↔ s.Admits identity event) := by
  have hk := hi.keyed
  have hframe (t : SteamMultiplayerPeer) (ht : t.bare = s.peer.bare) :
      Hosting identity { s with peer := t } ∧ (Tidy { s with peer := t } ↔ True) :=
    ⟨hi.of_bare ht, iff_true_intro (hx.of_bare ht)⟩
  cases event with
  | change handle state closes =>
    rw [step]
    split
    · next hleads => exact ⟨hi.changed hleads closes, change_tidy_iff hi hx hleads closes⟩
    · next hleads => exact ⟨hi, iff_of_true hx (fun h => absurd h hleads)⟩
  | receive id msg raw =>
    obtain ⟨hi', hx'⟩ := hi.receive hx id msg raw
    exact ⟨hi', iff_true_intro hx'⟩
  | getPacket =>
    exact ⟨⟨⟨hk.connections, hk.peers, hk.idle, hk.server, hk.unique⟩, hi.mode, hi.loopback,
      hi.socket, hi.objects, hi.distinct, hi.connected, hi.pending⟩,
      iff_true_intro ⟨hx.gone, hx.own, hx.once, hx.paired, hx.answered⟩⟩
  | setTargetPeer peer => exact hframe _ rfl
  | setTransferMode mode => exact hframe _ rfl
  | putPacket buffer raw => exact hframe _ (bare_putPacket buffer raw)
  | disconnectPeer peer force closes =>
    obtain ⟨hi', hx'⟩ := hi.disconnectPeer hx peer force closes
    exact ⟨hi', iff_true_intro hx'⟩

theorem start_peer (user : SteamId) (socket : { handle : SteamHandle // handle ≠ .invalid }) :
    (start user socket).peer = { fresh user with
      listenSocket := socket.1
      uniqueId := .server
      activeMode := .server
      connectionStatus := .connected } := createHost_fresh user socket

theorem start_spec (identity : SteamHandle → SteamId) (user : SteamId)
    (socket : { handle : SteamHandle // handle ≠ .invalid }) :
    (start user socket).Hosting identity ∧ (start user socket).Tidy := by
  have hkeyed : (start user socket).peer.Keyed := (Keyed.fresh user).createHost 1 socket.1
  obtain ⟨s, hs⟩ : ∃ s, s = start user socket := ⟨_, rfl⟩
  have hpeer := start_peer user socket
  have hstatus : s.status = fun _ => .none := by rw [hs]; rfl
  have hown : s.misplaced = false := by rw [hs]; rfl
  rw [← hs] at hkeyed hpeer ⊢
  have hallocated : s.peer.allocated = 0 := by rw [hpeer]; rfl
  have hconnected (handle : SteamHandle) : s.peer.connectedCount handle = 0 := by rw [hpeer]; rfl
  have hquiet (handle : SteamHandle) : s.peer.disconnectedCount handle = 0 := by rw [hpeer]; rfl
  apply And.intro
  · apply Hosting.mk hkeyed
    · rw [hpeer]
    · rw [hpeer]
      rfl
    · rw [hpeer]
      exact socket.2
    · intro ref hlt
      rw [hallocated] at hlt
      exact absurd hlt (Nat.not_lt_zero ref)
    · intro ref ref' hlt
      rw [hallocated] at hlt
      exact absurd hlt (Nat.not_lt_zero ref)
    · intro handle
      rw [hconnected]
      apply iff_of_false (Nat.lt_irrefl 0)
      intro h
      obtain ⟨ref, hlt, _⟩ := h
      rw [hallocated] at hlt
      exact Nat.not_lt_zero ref hlt
    · intro peer ref _
      exact hquiet _
  · refine ⟨?_, hown, ?_, ?_, ?_⟩
    · intro handle hclosed
      rw [hstatus] at hclosed
      cases hclosed
    · intro handle
      rw [hquiet]
      exact Nat.zero_le 1
    · intro handle hpos
      rw [hquiet] at hpos
      exact absurd hpos (Nat.lt_irrefl 0)
    · intro handle hclosed
      rw [hstatus] at hclosed
      cases hclosed

/-- The connections of a host are tidy throughout a run exactly if every closure is admitted. -/
theorem lifecycle_iff (identity : SteamHandle → SteamId) (user : SteamId)
    (socket : { handle : SteamHandle // handle ≠ .invalid }) (events : List HostEvent) :
    Runs.Always (step identity) Tidy (start user socket) events ↔
      Runs.Guarded (step identity) (Admits identity) (start user socket) events := by
  apply Runs.always_iff_guarded (I := Hosting identity)
  · intro s event hi hx _
    exact (step_spec hi hx event).1
  · intro s event hi hx
    exact (step_spec hi hx event).2
  · exact (start_spec identity user socket).1
  · exact (start_spec identity user socket).2

/-- A client reconnects while its old connection is still open. When that is closed, the host
removes the new one. -/
theorem old_closure_removes_new :
    ¬ Runs.Always (step (fun _ => 100)) Tidy (start 7 ⟨1, by decide⟩)
      [.change 11 .connecting true, .change 11 .connected true,
        .change 12 .connecting true, .change 12 .connected true,
        .receive 100 ⟨setupPeerPayload 5, sendReliable⟩ (fun _ => true),
        .change 11 .closedByPeer true] := by
  intro h
  have hmisplaced : (Runs.run (step (fun _ => 100)) (start 7 ⟨1, by decide⟩)
      [.change 11 .connecting true, .change 11 .connected true,
        .change 12 .connecting true, .change 12 .connected true,
        .receive 100 ⟨setupPeerPayload 5, sendReliable⟩ (fun _ => true),
        .change 11 .closedByPeer true]).misplaced = true := by
    decide +kernel
  rw [h.last.own] at hmisplaced
  cases hmisplaced

end SteamHost

end Godaemon
