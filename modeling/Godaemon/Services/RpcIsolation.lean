import Godaemon.Services.RpcVisibility
import Godaemon.Services.VisibilityRuns

namespace Godaemon
set_option autoImplicit true

namespace RpcWorld

open ReplicationService RpcApi

variable {S N : Type} [DecidableEq N]

/-- The server sends nothing to any client but the sender because of a packet. -/
def Isolated (w : RpcWorld S N) (T : ServerTree S N) (isInstanceValid : N → Bool)
    (s : RpcState N (ReplicationService N)) (client : Int) (bytes : List UInt8) : Prop :=
  ∀ command ∈ ((w.serverApi T isInstanceValid s.services.peers).inboundRpc client bytes s).commands,
    ∀ p ∈ s.services.peers, p ≠ 1 → p ≠ client → command.peer ≠ p

/-- The packet is a broadcast of a method that the client may call, and the server can send the
method on to another client that receives it. -/
def Leaks (w : RpcWorld S N) (T : ServerTree S N) (isInstanceValid : N → Bool)
    (s : RpcState N (ReplicationService N)) (client : Int) (node : N) (data : RpcData) : Prop :=
  data.toPeer = 0 ∧
    ∃ config, (w.serverApi T isInstanceValid s.services.peers).methodAt node data.methodIdx =
      some config ∧ (w.serverApi T isInstanceValid s.services.peers).Allowed s client node config ∧
    ∃ found, (w.serverApi T isInstanceValid s.services.peers).resolveRpc node config.name s =
      .ok found ∧ ∃ p ∈ s.services.peers, w.SendsOn T s.services node config found.1 client p

variable {w : RpcWorld S N} {T : ServerTree S N} {isInstanceValid : N → Bool}

theorem mem_forwarded {s : RpcState N (ReplicationService N)} {client p : Int}
    {peers audience : List Int} :
    (∃ command ∈ w.forwarded T isInstanceValid peers s client node config args audience,
        command.peer = p) ↔
      p ∈ audience ∧ ∃ found,
        (w.serverApi T isInstanceValid peers).resolveRpc node config.name s = .ok found ∧
          w.SendsOn T s.services node config found.1 client p := by
  simp only [forwarded]
  cases (w.serverApi T isInstanceValid peers).resolveRpc node config.name s with
  | error e => simp
  | ok found =>
    simp only [List.mem_map, List.mem_filter, decide_eq_true_eq, Except.ok.injEq,
      exists_eq_left']
    constructor
    · rintro ⟨_, ⟨q, hq, rfl⟩, hp⟩
      simp only [packet, isClient_serverApi, Bool.false_eq_true, ↓reduceIte] at hp
      exact hp ▸ hq
    · intro hp
      exact ⟨_, ⟨p, hp, rfl⟩, rfl⟩

theorem isolated_of_nil {s : RpcState N (ReplicationService N)} {client : Int}
    (h : ((w.serverApi T isInstanceValid s.services.peers).inboundRpc client bytes s).commands =
      []) : w.Isolated T isInstanceValid s client bytes := by
  intro command hcommand
  rw [h] at hcommand
  cases hcommand

theorem not_leaks_of_none {s : RpcState N (ReplicationService N)} {client : Int} {data : RpcData}
    (hmethod : (w.serverApi T isInstanceValid s.services.peers).methodAt node data.methodIdx =
      none) : ¬ w.Leaks T isInstanceValid s client node data := by
  intro h
  obtain ⟨_, config, hc, _⟩ := h
  rw [hmethod] at hc
  cases hc

theorem leaks_iff {s : RpcState N (ReplicationService N)} {client : Int} {data : RpcData}
    (hmethod : (w.serverApi T isInstanceValid s.services.peers).methodAt node data.methodIdx =
      some config) :
    w.Leaks T isInstanceValid s client node data ↔ data.toPeer = 0 ∧
      (w.serverApi T isInstanceValid s.services.peers).Allowed s client node config ∧
      ∃ found, (w.serverApi T isInstanceValid s.services.peers).resolveRpc node config.name s =
        .ok found ∧
        ∃ p ∈ s.services.peers, w.SendsOn T s.services node config found.1 client p := by
  apply Iff.intro
  · intro h
    obtain ⟨hto, config', hc, hrest⟩ := h
    rw [hmethod] at hc
    cases hc
    exact ⟨hto, hrest⟩
  · intro h
    obtain ⟨hto, hrest⟩ := h
    exact ⟨hto, config, hmethod, hrest⟩

theorem mem_inboundRpc_hidden {s : RpcState N (ReplicationService N)} {data : RpcData}
    (hidle : s.commands = []) (hpeers : ∀ p ∈ s.services.peers, 0 < p) (client : ClientPeer)
    (hfound : (w.serverApi T isInstanceValid s.services.peers).findRpc client bytes s =
      (some (data, node, config), s))
    (hallowed : (w.serverApi T isInstanceValid s.services.peers).Allowed s client node config)
    (hhidden : ¬ s.services.Observes T node client) (p : Int) :
    (∃ command ∈ ((w.serverApi T isInstanceValid s.services.peers).inboundRpc client bytes
        s).commands, command.peer = p) ↔
      (data.toPeer = 0 ∧ p ∈ s.services.peers) ∧ ∃ found,
        (w.serverApi T isInstanceValid s.services.peers).resolveRpc node config.name s =
          .ok found ∧ w.SendsOn T s.services node config found.1 client p := by
  have haudience : p ∈ audience T s.services.peers s.services node client data.toPeer ↔
      data.toPeer = 0 ∧ p ∈ s.services.peers := by
    rw [mem_audience]
    apply Iff.intro
    · intro h
      exact h.resolve_right (fun h => hhidden h.2.2.1)
    · exact .inl
  rw [(inboundRpc_accepted client.one_lt hpeers hfound hallowed).2, hidle, List.nil_append,
    mem_forwarded, haudience]

/-- A client's packet that names a node it does not observe reaches no other client, exactly
unless the packet is a broadcast that the server sends on. -/
theorem isolated_iff (w : RpcWorld S N) (T : ServerTree S N) (isInstanceValid : N → Bool)
    (repository : Repository N) (ratelimits : Ratelimits N) (services : ReplicationService N)
    (hpeers : ∀ p ∈ services.peers, 0 < p) (client : ClientPeer) (bytes : List UInt8)
    (data : RpcData) (node : N)
    (hdata : decompressRpc w.codec false client bytes = some data)
    (hobject : (repository.getObject isInstanceValid data.objectId).1 = some node)
    (hhidden : ¬ services.Observes T node client) :
    w.Isolated T isInstanceValid (.idle repository ratelimits services) client bytes ↔
      ¬ w.Leaks T isInstanceValid (.idle repository ratelimits services) client node data := by
  have hfind := findRpc_of_object (w.serverApi T isInstanceValid services.peers)
    (.idle repository ratelimits services) hdata hobject
  cases hmethod : (w.serverApi T isInstanceValid services.peers).methodAt node data.methodIdx with
  | none =>
    rw [hmethod, Option.map_none] at hfind
    apply iff_of_true
    · apply isolated_of_nil
      simp only [inboundRpc, RpcState.idle] at hfind ⊢
      rw [hfind]
    · exact not_leaks_of_none hmethod
  | some config =>
    rw [hmethod, Option.map_some] at hfind
    have hfrom : data.fromPeer = client := (decompressRpc_server hdata).1
    rw [leaks_iff hmethod]
    by_cases hallowed : (w.serverApi T isInstanceValid services.peers).Allowed
        (.idle repository ratelimits services) client node config
    · have hmem := mem_inboundRpc_hidden rfl hpeers client hfind hallowed hhidden
      apply Iff.intro
      · intro hiso h
        obtain ⟨hto, _, found, hfound, p, hp, hsend⟩ := h
        obtain ⟨command, hcommand, hpeer⟩ := (hmem p).2 ⟨⟨hto, hp⟩, found, hfound, hsend⟩
        exact hiso command hcommand p hp hsend.1 hsend.2.1 hpeer
      · intro hleak command hcommand p hp _ _ hpeer
        obtain ⟨⟨hto, _⟩, found, hfound, hsend⟩ := (hmem p).1 ⟨command, hcommand, hpeer⟩
        exact hleak ⟨hto, hallowed, found, hfound, p, hp, hsend⟩
    · apply iff_of_true
      · apply isolated_of_nil
        exact (inboundRpc_rejected hfind (by rw [hfrom]; exact hallowed)).2
      · intro h
        obtain ⟨_, ha, _⟩ := h
        exact hallowed ha

/-- The state in which peers 2 and 3 are connected and only peer 3 sees the scene. -/
def halfHidden : ReplicationService SmallNode :=
  Runs.run (step (smallTree fun _ => some ())) .start
    [.peerConnected .two, .peerConnected .three,
      .setPeerVisibility .scene 3 (by decide) true]

/-- Peer 2 calls a method on the scene, which only peer 3 sees: not told to peer 3 by name. -/
theorem isolated_peer_three :
    pingWorld.Isolated (smallTree fun _ => some ()) (fun _ => true)
        (.idle (smallTree fun _ => some ()).repository .empty halfHidden) 2
        (compressRpc intArrayCodec false 2 3 1 0 []) ↔
      ¬ pingWorld.Leaks (smallTree fun _ => some ()) (fun _ => true)
        (.idle (smallTree fun _ => some ()).repository .empty halfHidden) 2 .scene
        ⟨2, 3, 1, 0, []⟩ :=
  isolated_iff pingWorld (smallTree fun _ => some ()) (fun _ => true)
    (smallTree fun _ => some ()).repository .empty halfHidden (by decide)
    .two (compressRpc intArrayCodec false 2 3 1 0 []) ⟨2, 3, 1, 0, []⟩ .scene
    rfl rfl (by decide)

/-- The same call as a broadcast is sent on to peer 3. -/
theorem broadcast_leaks :
    ¬ halfHidden.Observes (smallTree fun _ => some ()) .scene 2 ∧
      decompressRpc intArrayCodec false 2 (compressRpc intArrayCodec false 2 0 1 0 []) =
        some ⟨2, 0, 1, 0, []⟩ ∧
      ((smallTree fun _ => some ()).repository.getObject (fun _ => true) 1).1 = some .scene ∧
      ¬ pingWorld.Isolated (smallTree fun _ => some ()) (fun _ => true)
        (.idle (smallTree fun _ => some ()).repository .empty halfHidden) 2
        (compressRpc intArrayCodec false 2 0 1 0 []) := by
  have hsent : ∃ command ∈ ((pingWorld.serverApi (smallTree fun _ => some ()) (fun _ => true)
      halfHidden.peers).inboundRpc 2 (compressRpc intArrayCodec false 2 0 1 0 [])
        (.idle (smallTree fun _ => some ()).repository .empty halfHidden)).commands,
      command.peer = 3 := by
    decide +kernel
  refine ⟨by decide, rfl, rfl, fun h => ?_⟩
  obtain ⟨command, hcommand, hpeer⟩ := hsent
  exact h command hcommand 3 (by decide) (by decide) (by decide) hpeer

end RpcWorld

end Godaemon
