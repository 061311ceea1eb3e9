import Godaemon.Steam.Connections

namespace Godaemon
set_option autoImplicit true

namespace SteamMultiplayerPeer

variable (s : SteamMultiplayerPeer)

/-- A peer id leads to a connection exactly if the connection is in the other table and has that
id. Ids are not shared, and clients do not have reserved ones. -/
structure OneToOne : Prop where
  agree : ∀ peer ref, peer ≠ .unset → (s.peerIdToSteamId.get? peer = some ref ↔
    s.connectionsBySteamId64.get? (s.heap ref).steamId = some ref ∧ (s.heap ref).peerId = peer)
  distinct : ∀ id id' ref ref', s.connectionsBySteamId64.get? id = some ref →
    s.connectionsBySteamId64.get? id' = some ref' → (s.heap ref).peerId = (s.heap ref').peerId →
    (s.heap ref).peerId ≠ .unset → id = id'
  clients : ∀ id ref, s.connectionsBySteamId64.get? id = some ref →
    (s.heap ref).peerId ≠ 0 ∧ (s.heap ref).peerId ≠ .server

/-- The tables of a host are one-to-one. -/
def HostOneToOne : Prop := s.isServer → s.OneToOne

/-- A host adds a connection only where there is none with a peer id, and a client sets up a peer
id that is neither reserved nor in use. -/
def AdmitsPeer (event : SteamEvent) : Prop :=
  s.isServer →
    match event with
    | .statusChanged change => s.statusKind change = .made → change.identityRemote = s.user ∨
      ∀ peer, s.peerIdOf change.identityRemote = some peer → peer = .unset
    | .receive id msg _ => ∀ ref peer, s.setsUp id msg = some (ref, peer) →
      peer ≠ 0 ∧ peer ≠ .server ∧ peer ∉ s.peerIdToSteamId
    | _ => True

variable {s}

theorem oneToOne_bare : s.bare.OneToOne ↔ s.OneToOne :=
  ⟨fun h => ⟨h.agree, h.distinct, h.clients⟩, fun h => ⟨h.agree, h.distinct, h.clients⟩⟩

theorem oneToOne_congr {t : SteamMultiplayerPeer} (h : t.bare = s.bare) :
    t.OneToOne ↔ s.OneToOne := by
  rw [← oneToOne_bare, h, oneToOne_bare]

theorem OneToOne.of_agree (hk : s.Keyed)
    (hagree : ∀ peer ref, peer ≠ .unset → (s.peerIdToSteamId.get? peer = some ref ↔
      s.connectionsBySteamId64.get? (s.heap ref).steamId = some ref ∧ (s.heap ref).peerId = peer))
    (hclients : ∀ id ref, s.connectionsBySteamId64.get? id = some ref →
      (s.heap ref).peerId ≠ 0 ∧ (s.heap ref).peerId ≠ .server) : s.OneToOne := by
  apply OneToOne.mk hagree _ hclients
  intro id id' ref ref' hget hget' heq hset
  have hid := (hk.connections id ref hget).2
  have hid' := (hk.connections id' ref' hget').2
  have hpeer := (hagree _ ref hset).2 ⟨hid.symm ▸ hget, rfl⟩
  have hpeer' := (hagree _ ref' hset).2 ⟨hid'.symm ▸ hget', heq.symm⟩
  rw [hpeer] at hpeer'
  cases hpeer'
  exact hid.symm.trans hid'

theorem added_oneToOne_iff (hk : s.Keyed) (ho : s.OneToOne) (id : SteamId)
    (handle : SteamHandle) :
    (s.added id handle).OneToOne ↔ ∀ peer, s.peerIdOf id = some peer → peer = .unset := by
  have hold (r : Nat) (hr : r < s.allocated) : (s.added id handle).heap r = s.heap r :=
    Function.update_of_ne (Nat.ne_of_lt hr) _ _
  have hnew : (s.added id handle).heap s.allocated = .new id handle := Function.update_self _ _ _
  have hconnections (i : SteamId) : (s.added id handle).connectionsBySteamId64.get? i =
      if i = id then some s.allocated else s.connectionsBySteamId64.get? i := Dict.get?_set _
  apply Iff.intro
  · intro h peer hpeer
    by_contra hset
    obtain ⟨ref, hget, hid⟩ := Option.map_eq_some_iff.1 hpeer
    obtain ⟨hlt, hkey⟩ := hk.connections id ref hget
    have hin := (ho.agree peer ref hset).2 ⟨hkey.symm ▸ hget, hid⟩
    have hout := ((h.agree peer ref hset).1 hin).1
    rw [hold ref hlt, hkey, hconnections, if_pos rfl] at hout
    exact Nat.ne_of_lt hlt (Option.some.inj hout).symm
  · intro h
    apply OneToOne.of_agree (hk.added id handle)
    · intro peer ref hset
      change s.peerIdToSteamId.get? peer = some ref ↔ _
      by_cases hlt : ref < s.allocated
      · rw [hold ref hlt, ho.agree peer ref hset, hconnections]
        apply and_congr_left
        intro hid
        split
        · next hkey =>
          apply iff_of_false
          · intro hget
            rw [hkey] at hget
            exact hset (h peer (Option.map_eq_some_iff.2 ⟨ref, hget, hid⟩))
          · intro hget
            exact Nat.ne_of_lt hlt (Option.some.inj hget).symm
        · rfl
      · apply iff_of_false
        · intro hget
          exact hlt (hk.peers peer ref hget).1
        · intro hget
          obtain ⟨hget, hid⟩ := hget
          by_cases heq : ref = s.allocated
          · rw [heq, hnew] at hid
            exact hset hid.symm
          · obtain ⟨hlt', _⟩ := (hk.added id handle).connections _ ref hget
            exact hlt (Nat.lt_of_le_of_ne (Nat.le_of_lt_succ hlt') heq)
    · intro id' ref hget
      rw [hconnections] at hget
      split at hget
      · cases hget
        rw [hnew]
        change SteamPeerId.unset ≠ 0 ∧ SteamPeerId.unset ≠ .server
        decide
      · rw [hold ref (hk.connections id' ref hget).1]
        exact ho.clients id' ref hget

theorem register_oneToOne_iff (hk : s.Keyed) (ho : s.OneToOne) {id : SteamId} {ref : Nat}
    {peer : SteamPeerId} (hget : s.connectionsBySteamId64.get? id = some ref)
    (hunset : (s.heap ref).peerId = .unset) (hpeer : peer ≠ .unset)
    (hmode : s.activeMode ≠ .none) :
    (s.register ref peer).OneToOne ↔ peer ≠ 0 ∧ peer ≠ .server ∧ peer ∉ s.peerIdToSteamId := by
  have hother (r : Nat) (hr : r ≠ ref) : (s.register ref peer).heap r = s.heap r :=
    Function.update_of_ne hr _ _
  have hself : (s.register ref peer).heap ref = { s.heap ref with
      peerId := peer } := Function.update_self _ _ _
  have hpeers (p : SteamPeerId) : (s.register ref peer).peerIdToSteamId.get? p =
      if p = peer then some ref else s.peerIdToSteamId.get? p := Dict.get?_set _
  have hkey := (hk.connections id ref hget).2
  apply Iff.intro
  · intro h
    have hclient := h.clients id ref hget
    rw [hself] at hclient
    refine ⟨hclient.1, hclient.2, ?_⟩
    intro hmem
    obtain ⟨r, hr⟩ := (Dict.mem_iff_get? _).1 hmem
    obtain ⟨hin, hid⟩ := (ho.agree peer r hpeer).1 hr
    have hne : r ≠ ref := by
      intro heq
      rw [heq, hunset] at hid
      exact hpeer hid.symm
    have hout := (h.agree peer r hpeer).2 (by rw [hother r hne]; exact ⟨hin, hid⟩)
    rw [hpeers, if_pos rfl] at hout
    exact hne (Option.some.inj hout).symm
  · intro h
    obtain ⟨hzero, hserver, hfree⟩ := h
    apply OneToOne.of_agree (hk.register hget hunset hpeer hmode)
    · intro p r hset
      rw [hpeers]
      by_cases hr : r = ref
      · rw [hr, hself]
        change _ ↔ s.connectionsBySteamId64.get? (s.heap ref).steamId = some ref ∧ peer = p
        simp only [hkey, hget, true_and]
        split
        · next heq => exact iff_of_true rfl heq.symm
        · next hne =>
          apply iff_of_false
          · intro hin
            have hid := (hk.peers p ref hin).2.1
            rw [hunset] at hid
            exact hset hid.symm
          · intro heq
            exact hne heq.symm
      · rw [hother r hr]
        split
        · next heq =>
          apply iff_of_false
          · intro hin
            exact hr (Option.some.inj hin).symm
          · intro hin
            have hmem := (ho.agree p r hset).2 hin
            rw [heq] at hmem
            exact hfree ((Dict.mem_iff_get? _).2 ⟨r, hmem⟩)
        · exact ho.agree p r hset
    · intro id' r hr
      by_cases hrr : r = ref
      · rw [hrr, hself]
        exact ⟨hzero, hserver⟩
      · rw [hother r hrr]
        exact ho.clients id' r hr

theorem drop_oneToOne (hk : s.Keyed) (ho : s.OneToOne) {ref : Nat} {peer : SteamPeerId}
    (hget : s.peerIdToSteamId.get? peer = some ref) (hmode : s.activeMode ≠ .none) :
    (s.drop ref peer).OneToOne := by
  obtain ⟨_, hid, hset⟩ := hk.peers peer ref hget
  have hconnections (i : SteamId) : (s.drop ref peer).connectionsBySteamId64.get? i =
      if i = (s.heap ref).steamId then none else s.connectionsBySteamId64.get? i :=
    Dict.get?_erase _
  have hpeers (p : SteamPeerId) : (s.drop ref peer).peerIdToSteamId.get? p =
      if p = peer then none else s.peerIdToSteamId.get? p := Dict.get?_erase _
  have hin := ((ho.agree peer ref hset).1 hget).1
  apply OneToOne.of_agree (hk.drop hmode ref peer)
  · intro p r hp
    change _ ↔ (s.drop ref peer).connectionsBySteamId64.get? (s.heap r).steamId = some r ∧
      (s.heap r).peerId = p
    rw [hpeers, hconnections]
    by_cases hr : (s.heap r).steamId = (s.heap ref).steamId
    · rw [if_pos hr]
      split
      · simp
      · next hne =>
        apply iff_of_false
        · intro h
          obtain ⟨hr', hpr⟩ := (ho.agree p r hp).1 h
          rw [hr, hin] at hr'
          cases hr'
          exact hne (hpr.symm.trans hid)
        · simp
    · rw [if_neg hr]
      split
      · next heq =>
        apply iff_of_false
        · simp
        · intro h
          have hr' := (ho.agree p r hp).2 h
          rw [heq, hget] at hr'
          cases hr'
          exact hr rfl
      · exact ho.agree p r hp
  · intro id r hr
    rw [hconnections] at hr
    split at hr
    · cases hr
    · exact ho.clients id r hr

theorem oneToOne_idle (hk : s.Keyed) (hmode : s.activeMode = .none) : s.OneToOne := by
  obtain ⟨hpeers, hunset⟩ := hk.idle hmode
  apply OneToOne.of_agree hk
  · intro peer ref hset
    rw [hpeers]
    apply iff_of_false
    · intro h
      cases h
    · intro h
      exact hset (h.2.symm.trans (hunset _ ref h.1))
  · intro id ref hget
    rw [hunset id ref hget]
    decide

theorem isServer_congr {t : SteamMultiplayerPeer} (h : t.bare = s.bare) :
    t.isServer = s.isServer := by
  have hserver : t.bare.isServer = s.bare.isServer := by rw [h]
  exact hserver

theorem receive_isServer (hk : s.Keyed) (id : SteamId) (msg : SteamMessage) (raw : Nat → Bool) :
    (s.receive id msg raw).isServer = s.isServer := by
  cases receive_bare hk id msg raw with
  | inl h =>
    obtain ⟨ref, peer, _, hbare⟩ := h
    exact (isServer_congr hbare).trans rfl
  | inr h =>
    obtain ⟨_, hbare | hmessage⟩ := h
    · exact isServer_congr hbare
    · rw [hmessage.2.2, processMessage]
      split
      · rfl
      · rfl

theorem close_not_server (hs : ¬ s.isServer) : ¬ s.close.isServer := by
  rw [close]
  split
  · exact hs
  · split
    · exact hs
    · change ¬ decide ((0 : SteamPeerId) = .server) = true
      decide

theorem disconnectPeer_not_server (hs : ¬ s.isServer) (peer : SteamPeerId)
    (force closes : Bool) : ¬ (s.disconnectPeer peer force closes).isServer := by
  rw [disconnectPeer_eq]
  cases s.disconnects peer closes with
  | none => exact hs
  | some ref =>
    simp only
    split
    · apply close_not_server
      exact hs
    · exact hs

theorem networkConnectionStatusChanged_not_server (hs : ¬ s.isServer) (change : StatusChange) :
    ¬ (s.networkConnectionStatusChanged change).isServer := by
  rw [networkConnectionStatusChanged]
  cases s.statusKind change with
  | ignored => exact hs
  | made =>
    have hbare := connectionMade_bare (s := s) change
    split at hbare
    · rw [isServer_congr hbare, addConnection_snd, noticed, if_neg hs]
      split
      · exact hs
      · exact hs
    · rwa [isServer_congr hbare]
  | closed =>
    have hnot : s.isServer = false := Bool.eq_false_iff.2 hs
    simp only [connectionClosed, hnot, Bool.not_false, ↓reduceIte]
    obtain ⟨t, ht⟩ : ∃ t, t = if s.connectionStatus = .connected then
        s.disconnectPeer .server true change.closes else s := ⟨_, rfl⟩
    have hst : ¬ t.isServer := by
      rw [ht]
      split
      · exact disconnectPeer_not_server hs _ _ _
      · exact hs
    rw [← ht]
    split
    · exact close_not_server hst
    · exact hst

theorem step_not_server (hk : s.Keyed) (hs : ¬ s.isServer) (event : SteamEvent) :
    (s.step event).HostOneToOne := by
  cases event with
  | createHost port socket =>
    change (s.createHost port socket).2.HostOneToOne
    rw [createHost]
    split
    · exact fun h => absurd h hs
    · next hactive =>
      split
      · exact fun h => absurd h hs
      · split
        · exact fun h => absurd h hs
        · have ho := oneToOne_idle hk (by simpa [isActive] using hactive)
          exact fun _ => ⟨ho.agree, ho.distinct, ho.clients⟩
  | createClient port handle id =>
    have hclient := hk.step (.createClient port handle id)
    change (s.createClient port handle id).2.Keyed at hclient
    change (s.createClient port handle id).2.HostOneToOne
    intro h
    have hmode := hclient.server.1 h
    rw [createClient] at hmode h
    split at hmode
    · exact absurd (hk.server.2 hmode) hs
    · next hactive =>
      have hnone : s.activeMode = .none := by simpa [isActive] using hactive
      split at hmode
      · exact absurd (hk.server.2 hmode) hs
      · split at hmode
        · exact absurd (hnone.symm.trans hmode) (by decide)
        · cases hmode
  | close => exact fun h => absurd h (close_not_server hs)
  | statusChanged change =>
    exact fun h => absurd h (networkConnectionStatusChanged_not_server hs change)
  | receive id msg raw =>
    intro h
    change (s.receive id msg raw).isServer = true at h
    rw [receive_isServer hk] at h
    exact absurd h hs
  | putPacket buffer raw =>
    intro h
    change (((s.putPacket buffer raw).map Prod.snd).getD s).isServer = true at h
    rw [isServer_congr (bare_putPacket buffer raw)] at h
    exact absurd h hs
  | disconnectPeer peer force closes =>
    exact fun h => absurd h (disconnectPeer_not_server hs peer force closes)
  | getPacket => exact fun h => absurd h hs
  | setTargetPeer peer => exact fun h => absurd h hs
  | setTransferMode mode => exact fun h => absurd h hs

theorem disconnectPeer_oneToOne (hk : s.Keyed) (hs : s.isServer) (ho : s.OneToOne)
    (peer : SteamPeerId) (force closes : Bool) : (s.disconnectPeer peer force closes).OneToOne := by
  have hmode := hk.server.1 hs
  rw [disconnectPeer_host hmode]
  cases hd : s.disconnects peer closes with
  | none => exact ho
  | some ref =>
    apply drop_oneToOne hk ho (disconnects_spec hd).2.1
    rw [hmode]
    decide

theorem receive_oneToOne_iff (hk : s.Keyed) (ho : s.OneToOne) (id : SteamId) (msg : SteamMessage)
    (raw : Nat → Bool) :
    (s.receive id msg raw).OneToOne ↔ ∀ ref peer, s.setsUp id msg = some (ref, peer) →
      peer ≠ 0 ∧ peer ≠ .server ∧ peer ∉ s.peerIdToSteamId := by
  cases receive_bare hk id msg raw with
  | inl h =>
    obtain ⟨ref, peer, hset, hbare⟩ := h
    obtain ⟨hget, _, hunset, hpeer, hmode⟩ := setsUp_spec hk hset
    rw [oneToOne_congr hbare, register_oneToOne_iff hk ho hget hunset hpeer hmode, hset]
    apply Iff.intro
    · intro h ref' peer' heq
      cases heq
      exact h
    · intro h
      exact h ref peer rfl
  | inr h =>
    obtain ⟨hnone, hother⟩ := h
    rw [hnone]
    refine iff_of_true ?_ (fun _ _ h => by cases h)
    cases hother with
    | inl hbare => exact (oneToOne_congr hbare).2 ho
    | inr hmessage =>
      rw [hmessage.2.2, processMessage]
      split
      · exact ho
      · exact ⟨ho.agree, ho.distinct, ho.clients⟩

/-- A step of a host keeps its tables one-to-one exactly if it is admitted. -/
theorem step_oneToOne_iff (hk : s.Keyed) (hp : s.HostOneToOne) (event : SteamEvent) :
    (s.step event).HostOneToOne ↔ s.AdmitsPeer event := by
  by_cases hs : s.isServer
  · have ho := hp hs
    have hmode := hk.server.1 hs
    have hactive : s.isActive = true := by simp [isActive, hmode]
    cases event with
    | createHost port socket =>
      refine iff_of_true ?_ (fun _ => trivial)
      change (s.createHost port socket).2.HostOneToOne
      rw [createHost, if_pos hactive]
      exact hp
    | createClient port handle id =>
      refine iff_of_true ?_ (fun _ => trivial)
      change (s.createClient port handle id).2.HostOneToOne
      rw [createClient, if_pos hactive]
      exact hp
    | close =>
      refine iff_of_true ?_ (fun _ => trivial)
      change s.close.HostOneToOne
      rw [close]
      split
      · exact hp
      · split
        · exact hp
        · intro h
          change decide ((0 : SteamPeerId) = .server) = true at h
          exact absurd h (by decide)
    | statusChanged change =>
      rw [AdmitsPeer, forall_prop_of_true hs]
      change (s.networkConnectionStatusChanged change).HostOneToOne ↔ _
      rw [networkConnectionStatusChanged]
      cases hkind : s.statusKind change with
      | ignored => exact iff_of_true hp (fun h => by cases h)
      | made =>
        rw [forall_prop_of_true rfl]
        simp only [connectionMade, if_pos hs, addConnection_snd]
        split
        · next huser => exact iff_of_true hp (.inl huser)
        · next huser =>
          rw [or_iff_right huser, ← added_oneToOne_iff hk ho _ change.handle, HostOneToOne]
          exact forall_prop_of_true hs
      | closed =>
        refine iff_of_true (fun _ => ?_) (fun h => by cases h)
        simp only [connectionClosed, hs, Bool.not_true, Bool.false_eq_true, ↓reduceIte]
        split
        · exact ho
        · split
          · exact ho
          · exact disconnectPeer_oneToOne hk hs ho _ _ _
    | receive id msg raw =>
      rw [AdmitsPeer, forall_prop_of_true hs]
      refine Iff.trans ?_ (receive_oneToOne_iff hk ho id msg raw)
      apply forall_prop_of_true
      exact (receive_isServer hk id msg raw).trans hs
    | putPacket buffer raw =>
      refine iff_of_true (fun _ => ?_) (fun _ => trivial)
      exact (oneToOne_congr (bare_putPacket buffer raw)).2 ho
    | disconnectPeer peer force closes =>
      refine iff_of_true (fun _ => ?_) (fun _ => trivial)
      exact disconnectPeer_oneToOne hk hs ho peer force closes
    | getPacket =>
      exact iff_of_true (fun _ => ⟨ho.agree, ho.distinct, ho.clients⟩) (fun _ => trivial)
    | setTargetPeer peer =>
      exact iff_of_true (fun _ => ⟨ho.agree, ho.distinct, ho.clients⟩) (fun _ => trivial)
    | setTransferMode mode =>
      exact iff_of_true (fun _ => ⟨ho.agree, ho.distinct, ho.clients⟩) (fun _ => trivial)
  · exact iff_of_true (step_not_server hk hs event) (fun h => absurd h hs)

/-- The tables of a host are one-to-one throughout a run exactly if every step of the run is
admitted. -/
theorem one_to_one_iff (user : SteamId) (events : List SteamEvent) :
    Runs.Always step HostOneToOne (fresh user) events ↔
      Runs.Guarded step AdmitsPeer (fresh user) events := by
  apply Runs.always_iff_guarded (I := Keyed)
  · intro s event hk _ _
    exact hk.step event
  · intro s event hk hp
    exact step_oneToOne_iff hk hp event
  · exact .fresh user
  · intro h
    change decide ((0 : SteamPeerId) = .server) = true at h
    exact absurd h (by decide)

/-- A client takes the id of the host. -/
theorem client_takes_server_id :
    ¬ Runs.Always step HostOneToOne (fresh 7)
      [.createHost 1 1, clientConnected 11 100, clientSetup 100 .server] := by
  intro h
  obtain ⟨s, hs⟩ : ∃ s, s = Runs.run step (fresh 7)
      [.createHost 1 1, clientConnected 11 100, clientSetup 100 .server] := ⟨_, rfl⟩
  have hlast := h.last
  rw [← hs] at hlast
  have hserver : s.isServer := by
    rw [hs]
    decide +kernel
  have hget : s.connectionsBySteamId64.get? 100 = some 0 := by
    rw [hs]
    decide +kernel
  have hpeer : (s.heap 0).peerId = .server := by
    rw [hs]
    decide +kernel
  exact ((hlast hserver).clients 100 0 hget).2 hpeer

end SteamMultiplayerPeer

end Godaemon
