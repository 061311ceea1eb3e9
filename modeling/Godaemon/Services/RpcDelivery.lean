import Godaemon.Services.RpcIsolation

namespace Godaemon
set_option autoImplicit true

/-- The server and the clients connected to it, with what each peer has of its own. -/
structure RpcNetwork (S N : Type) [DecidableEq N] where
  world : RpcWorld S N
  tree : ServerTree S N
  services : ReplicationService N
  clients : List ClientPeer
  nodup : clients.Nodup
  connected : services.peers = clients.map ClientPeer.id
  isInstanceValid : Int → N → Bool
  ratelimits : Int → Ratelimits N
  clientRepository : Int → Repository N
  clientOwner : Int → N → Option Int

namespace RpcNetwork

variable {S N : Type} [DecidableEq N] (net : RpcNetwork S N)

def serverApi : RpcApi S N (ReplicationService N) :=
  net.world.serverApi net.tree (net.isInstanceValid 1) net.services.peers

def serverState : RpcState N (ReplicationService N) :=
  .idle net.tree.repository (net.ratelimits 1) net.services

/-- The RPC layer of a client. Services install no hooks there. -/
def clientApi (p : Int) : RpcApi S N Unit where
  uniqueId := p
  peers := [1]
  tree := net.tree.toSceneTree
  owner := net.clientOwner p
  data := net.world.data
  codec := net.world.codec
  hasMethod := net.world.hasMethod
  isInstanceValid := net.isInstanceValid p
  isQueuedForDeletion := net.world.isQueuedForDeletion
  objectChannels := net.world.objectChannels
  time := net.world.time
  hooks := {}

/-- A client takes in its share of the packets that the server has sent. -/
def receive (p : Int) (commands : List Command) : RpcState N Unit :=
  (commands.filter (fun c => c.peer = p)).foldl
    (fun s c => (net.clientApi p).recvCommand 1 c.bytes s)
    (.idle (net.clientRepository p) (net.ratelimits p) ())

/-- What runs on a peer, the server having done its part. -/
def runs (server : RpcState N (ReplicationService N)) (p : Int) : List (RpcCall N) :=
  if p = 1 then server.calls
  else if p ∈ net.services.peers then (net.receive p server.commands).calls else []

/-- A node that all peers know by the server's id for it, and a method of it without a rate
limit, whose name is used once. -/
structure Callable (node : N) (c : ReplicationMethodConfig) : Prop where
  alive : ∀ p, net.isInstanceValid p node = true
  known : ∀ p ∈ net.services.peers,
    (net.clientRepository p).idToObject.get? (net.tree.repository.getId node) = some node
  not_queued : net.world.isQueuedForDeletion node = false
  has_method : net.world.hasMethod node c.name = true
  once : net.world.data.OccursOnce methodField (net.tree.script node) c
  idx_lt : net.world.data.freshIdx methodField (net.tree.script node) c < maxRpcMethods
  ratelimit : c.ratelimit = 0

/-- The owner of a node on the server. -/
def owner (node : N) : Int := net.tree.getNodeOwner net.world.owner node

/-- A call by a client with target `t` is for this peer. -/
def ForPeer (node : N) (c : ReplicationMethodConfig) (client t p : Int) : Prop :=
  c.canTheySend (net.owner node) client = true ∧
    if p = 1 then c.getRecvFilterFlag .server = true ∧ (t = 0 ∨ t = 1)
    else p ∈ net.services.peers ∧ p ≠ client ∧ c.canTheyRecv (net.owner node) p = true ∧
      net.services.Observes net.tree node p ∧
        (t = 0 ∨ t = p ∧ net.services.Observes net.tree node client)

/-- A call by the server with target `t` is for this peer. -/
def ForPeerOfServer (node : N) (c : ReplicationMethodConfig) (t p : Int) : Prop :=
  if p = 1 then c.getCallLocal = true
  else p ∈ net.services.peers ∧ c.canTheyRecv (net.owner node) p = true ∧
    net.services.Observes net.tree node p ∧ (t = 0 ∨ t = p ∨ t < 0 ∧ t ≠ -p)

instance (node : N) (c : ReplicationMethodConfig) (client t p : Int) :
    Decidable (net.ForPeer node c client t p) := by
  unfold ForPeer
  infer_instance

instance (node : N) (c : ReplicationMethodConfig) (t p : Int) :
    Decidable (net.ForPeerOfServer node c t p) := by
  unfold ForPeerOfServer
  infer_instance

variable {net} {node : N} {c : ReplicationMethodConfig}

theorem peer_range (hp : p ∈ net.services.peers) : 1 < p ∧ p < 2 ^ 31 := by
  rw [net.connected, List.mem_map] at hp
  obtain ⟨q, _, rfl⟩ := hp
  exact ⟨q.one_lt, q.lt⟩

theorem peers_nodup : net.services.peers.Nodup := by
  rw [net.connected]
  apply net.nodup.map_on
  intro p _ q _ h
  cases p
  cases q
  cases h
  rfl

theorem id_range (node : N) : 0 ≤ net.tree.repository.getId node ∧
    net.tree.repository.getId node < maxId ∧
      net.tree.repository.idToObject.get? (net.tree.repository.getId node) = some node :=
  net.tree.coherent.getId_of_mem (net.tree.registered node)

theorem Callable.recvCommand (h : net.Callable node c) (hp : p ∈ net.services.peers)
    (hfrom : 0 < fromPeer ∧ fromPeer < 2 ^ 31)
    (hcodec : net.world.codec.Inverts (.array args)) :
    ((net.clientApi p).recvCommand 1
      (net.serverApi.packet (net.tree.repository.getId node) node c
        (net.world.data.freshIdx methodField (net.tree.script node) c) args fromPeer p).bytes
      (.idle (net.clientRepository p) (net.ratelimits p) ())).calls =
        [⟨node, c.name, args, fromPeer⟩] := by
  obtain ⟨h1, h2⟩ := peer_range hp
  obtain ⟨hid0, hid1, _⟩ := net.id_range node
  obtain ⟨hidx0, hconfig⟩ := h.once.inverse
  have hidx1 := h.idx_lt
  simp only [maxRpcMethods, maxRpcMethodBits] at hidx1
  have hclient : (net.clientApi p).isClient = true := decide_eq_true (by
    change p ≠ 1
    omega)
  have hdata : decompressRpc net.world.codec (net.clientApi p).isClient 1
      (rpcBytes net.world.codec true fromPeer p (net.tree.repository.getId node)
        (net.world.data.freshIdx methodField (net.tree.script node) c) args) =
        some ⟨fromPeer, p, net.tree.repository.getId node,
          net.world.data.freshIdx methodField (net.tree.script node) c, args⟩ := by
    rw [hclient, decompressRpc_rpcBytes hcodec,
      Bytes.residue_of_nonneg (w := 4) (by omega) (by omega),
      Bytes.residue_of_nonneg (w := 4) (by omega) (by omega),
      Bytes.residue_of_nonneg (w := 4) hid0 (by rw [maxId_eq] at hid1; omega),
      Bytes.residue_of_nonneg (w := 1) hidx0 (by omega)]
    rfl
  have hobject : ((net.clientRepository p).getObject (net.isInstanceValid p)
      (net.tree.repository.getId node)).1 = some node := by
    simp only [Repository.getObject, h.known p hp, h.alive p, ↓reduceIte]
  have hserver : (net.clientApi p).isServer = false := decide_eq_false (by
    change ¬ p = 1
    omega)
  have hmethod : (net.clientApi p).methodAt node
      (net.world.data.freshIdx methodField (net.tree.script node) c) = some c :=
    RpcApi.methodAt_of_config hconfig h.has_method
  have hfind := RpcApi.findRpc_of_object (net.clientApi p)
    (.idle (net.clientRepository p) (net.ratelimits p) ()) hdata hobject
  rw [hmethod, Option.map_some] at hfind
  have hlast : (net.serverApi.packet (net.tree.repository.getId node) node c
      (net.world.data.freshIdx methodField (net.tree.script node) c) args fromPeer p).bytes =
        rpcBytes net.world.codec true fromPeer p (net.tree.repository.getId node)
          (net.world.data.freshIdx methodField (net.tree.script node) c) args ++
            [NetCommand.rpc.byte] := rfl
  have hne : p ≠ 1 := by omega
  rw [RpcApi.recvCommand, hlast, List.getLast?_append, if_pos (by rfl), List.dropLast_concat]
  have hfilters : (net.clientApi p).hooks.inboundFilters = [] := rfl
  simp only [RpcApi.inboundRpc, hfind, hserver, Bool.false_and, Bool.false_eq_true, ↓reduceIte,
    RpcApi.checkRpcRatelimit_unlimited _ _ _ _ h.ratelimit, Bool.not_true, hfilters,
    RpcApi.runFilters, RpcApi.routeRpc, if_neg hne]
  rfl

theorem Callable.methodAt (h : net.Callable node c)
    (hc : net.world.data.freshConfig methodField (net.tree.script node) methodIdx = some c) :
    net.serverApi.methodAt node methodIdx = some c :=
  RpcApi.methodAt_of_config hc h.has_method

theorem Callable.resolveRpc (h : net.Callable node c) {s : RpcState N (ReplicationService N)}
    (hs : s.repository = net.tree.repository) :
    net.serverApi.resolveRpc node c.name s =
      .ok (c, net.world.data.freshIdx methodField (net.tree.script node) c) := by
  have hserver : net.serverApi.isServer = true := rfl
  have hvalid : net.serverApi.isInstanceValid node = true := h.alive 1
  have hid : s.repository.getId node ≠ -1 := by
    rw [hs]
    exact net.tree.getId_ne_neg_one node
  have hqueued : net.serverApi.isQueuedForDeletion node = false := h.not_queued
  have hmethod : net.serverApi.hasMethod node c.name = true := h.has_method
  exact RpcApi.resolveRpc_once hserver hvalid hid hqueued h.once h.idx_lt hmethod

theorem filter_packets {l : List Int} (hl : l.Nodup) (f : Int → Command)
    (hf : ∀ p, (f p).peer = p) (p : Int) :
    (l.map f).filter (fun command => command.peer = p) = if p ∈ l then [f p] else [] := by
  induction l with
  | nil => rfl
  | cons q l ih =>
    obtain ⟨hq, hl'⟩ := List.nodup_cons.1 hl
    simp only [List.map_cons, List.filter_cons, hf, ih hl', List.mem_cons]
    by_cases hqp : q = p
    · subst hqp
      simp only [decide_true, ↓reduceIte, hq, or_false]
    · have hpq : p ≠ q := fun he => hqp he.symm
      simp only [hqp, hpq, decide_false, Bool.false_eq_true, ↓reduceIte, false_or]

theorem Callable.runs_client (h : net.Callable node c) (hone : p ≠ 1) {l : List Int}
    (hl : l.Nodup) (hfrom : 0 < fromPeer ∧ fromPeer < 2 ^ 31)
    (hcodec : net.world.codec.Inverts (.array args))
    {server : RpcState N (ReplicationService N)}
    (hserver : server.commands = l.map (net.serverApi.packet (net.tree.repository.getId node) node
      c (net.world.data.freshIdx methodField (net.tree.script node) c) args fromPeer)) :
    net.runs server p =
      if p ∈ net.services.peers ∧ p ∈ l then [⟨node, c.name, args, fromPeer⟩] else [] := by
  rw [runs, if_neg hone, receive, hserver, filter_packets hl _ (fun _ => rfl)]
  by_cases hp : p ∈ net.services.peers
  · by_cases hm : p ∈ l
    · rw [if_pos hp, if_pos hm, if_pos ⟨hp, hm⟩]
      exact h.recvCommand hp hfrom hcodec
    · rw [if_pos hp, if_neg hm, if_neg (fun hb => hm hb.2)]
      rfl
  · rw [if_neg hp, if_neg (fun hb => hp hb.1)]

open RpcWorld in
theorem Callable.forwarded (h : net.Callable node c) (client : Int) (audience : List Int) :
    net.world.forwarded net.tree (net.isInstanceValid 1) net.services.peers net.serverState client
        node c args audience =
      (audience.filter (fun p => p ≠ 1 ∧ p ≠ client ∧ c.canTheyRecv (net.owner node) p = true ∧
        net.services.Observes net.tree node p)).map
          (net.serverApi.packet (net.tree.repository.getId node) node c
            (net.world.data.freshIdx methodField (net.tree.script node) c) args client) := by
  have hresolve := h.resolveRpc (s := net.serverState) rfl
  have hrepository : (net.serverState).repository = net.tree.repository := rfl
  have hservices : (net.serverState).services = net.services := rfl
  rw [serverApi] at hresolve ⊢
  simp only [RpcWorld.forwarded, hresolve, hrepository, hservices]
  apply congrArg (List.map _)
  apply List.filter_congr
  intro p _
  rw [decide_eq_decide]
  have howner : net.tree.getNodeOwner net.world.owner node = net.owner node := rfl
  simp only [SendsOn, howner]
  tauto

theorem audience_nodup (client t : Int) :
    (RpcWorld.audience net.tree net.services.peers net.services node client t).Nodup := by
  simp only [RpcWorld.audience]
  split
  · exact net.peers_nodup
  · split
    · exact List.nodup_singleton _
    · exact List.nodup_nil

/-- A call by a client runs where it is for, once, and nowhere else. -/
theorem Callable.runs_inbound (h : net.Callable node c) (client : ClientPeer)
    {bytes : List UInt8} {data : RpcData}
    (hdata : decompressRpc net.world.codec false client bytes = some data)
    (hobject : data.objectId = net.tree.repository.getId node)
    (hc : net.world.data.freshConfig methodField (net.tree.script node) data.methodIdx = some c)
    (hcodec : net.world.codec.Inverts (.array data.args)) (p : Int) :
    net.runs (net.serverApi.inboundRpc client bytes net.serverState) p =
      if net.ForPeer node c client data.toPeer p then [⟨node, c.name, data.args, client⟩]
      else [] := by
  obtain ⟨_, _, hget⟩ := net.id_range node
  have hfound : ((net.serverState).repository.getObject (net.isInstanceValid 1)
      data.objectId).1 = some node := by
    rw [hobject]
    simp only [serverState, RpcState.idle, Repository.getObject, hget, h.alive, ↓reduceIte]
  have hfind := RpcApi.findRpc_of_object net.serverApi net.serverState hdata hfound
  rw [h.methodAt hc, Option.map_some] at hfind
  obtain ⟨hfrom, hto⟩ := decompressRpc_server hdata
  have hpos : ∀ p ∈ net.services.peers, 0 < p := fun p hp => by
    have := net.peer_range hp
    omega
  have hclient := client.one_lt
  by_cases hsend : c.canTheySend (net.owner node) client = true
  · have hallowed : net.serverApi.Allowed net.serverState client node c :=
      ⟨fun _ => hsend, by rw [RpcApi.checkRpcRatelimit_unlimited _ _ _ _ h.ratelimit]⟩
    obtain ⟨hcalls, hcommands⟩ := RpcWorld.inboundRpc_accepted hclient hpos hfind hallowed
    rw [show (net.serverState).calls = [] from rfl, List.nil_append] at hcalls
    rw [show (net.serverState).commands = [] from rfl, List.nil_append,
      h.forwarded] at hcommands
    by_cases hone : p = 1
    · rw [runs, if_pos hone]
      refine hcalls.trans ?_
      simp only [ForPeer, hsend, hone, ↓reduceIte, true_and, and_comm]
    · refine (h.runs_client hone ((audience_nodup _ _).filter _) ⟨by omega, client.lt⟩ hcodec
        hcommands).trans ?_
      apply if_congr ?_ rfl rfl
      simp only [ForPeer, hsend, hone, ↓reduceIte, true_and, List.mem_filter, decide_eq_true_eq,
        ne_eq, not_false_eq_true, RpcWorld.mem_audience]
      constructor
      · rintro ⟨hp, ⟨h0, _⟩ | ⟨_, _, hobs, rfl⟩, hne, hrecv, hvis⟩
        · exact ⟨hp, hne, hrecv, hvis, .inl h0⟩
        · exact ⟨hp, hne, hrecv, hvis, .inr ⟨rfl, hobs⟩⟩
      · rintro ⟨hp, hne, hrecv, hvis, h0 | ⟨rfl, hobs⟩⟩
        · exact ⟨hp, .inl ⟨h0, hp⟩, hne, hrecv, hvis⟩
        · have hpp := hpos _ hp
          exact ⟨hp, .inr ⟨by omega, hone, hobs, rfl⟩, hne, hrecv, hvis⟩
  · have hnot : ¬ net.serverApi.Allowed net.serverState data.fromPeer node c := fun ha =>
      hsend (hfrom ▸ ha.1 rfl)
    obtain ⟨hcalls, hcommands⟩ := RpcApi.inboundRpc_rejected hfind hnot
    have hno : ¬ net.ForPeer node c client data.toPeer p := fun hf => hsend hf.1
    rw [if_neg hno]
    by_cases hone : p = 1
    · rw [runs, if_pos hone]
      exact hcalls
    · rw [h.runs_client hone List.nodup_nil ⟨by omega, client.lt⟩ hcodec hcommands,
        if_neg (fun hb => by cases hb.2)]

theorem targetPeers_eq (t : Int) : net.serverApi.targetPeers t node c =
    (if t ≤ 0 then (if t < 0 then net.services.peers.erase (-t) else net.services.peers)
      else [t]).filter (fun p => c.canTheyRecv (net.owner node) p) := rfl

theorem targetPeers_nodup (t : Int) : (net.serverApi.targetPeers t node c).Nodup := by
  rw [targetPeers_eq]
  apply List.Nodup.filter
  split
  · split
    · exact net.peers_nodup.erase _
    · exact net.peers_nodup
  · exact List.nodup_singleton t

theorem pos_of_mem_targetPeers (hp : p ∈ net.serverApi.targetPeers t node c) : 0 < p := by
  rw [targetPeers_eq, List.mem_filter] at hp
  have hm := hp.1
  split at hm
  · split at hm
    · have := net.peer_range (List.mem_of_mem_erase hm)
      omega
    · have := net.peer_range hm
      omega
  · rw [List.mem_singleton] at hm
    omega

theorem mem_targetPeers (hp : p ∈ net.services.peers) :
    p ∈ net.serverApi.targetPeers t node c ↔
      c.canTheyRecv (net.owner node) p = true ∧ (t = 0 ∨ t = p ∨ t < 0 ∧ t ≠ -p) := by
  have hrange := net.peer_range hp
  rw [targetPeers_eq, List.mem_filter, and_comm]
  apply and_congr_right
  intro _
  by_cases hle : t ≤ 0
  · rw [if_pos hle]
    by_cases hlt : t < 0
    · rw [if_pos hlt, net.peers_nodup.mem_erase_iff]
      simp only [hp, and_true]
      omega
    · rw [if_neg hlt]
      simp only [hp, true_iff]
      omega
  · rw [if_neg hle, List.mem_singleton]
    omega

/-- A call by the server runs where it is for, once, and nowhere else. -/
theorem Callable.runs_outbound (h : net.Callable node c) (t : Int)
    (hcodec : net.world.codec.Inverts (.array args)) (p : Int) :
    net.runs (net.serverApi.outboundRpc t node c.name args net.serverState).2 p =
      if net.ForPeerOfServer node c t p then [⟨node, c.name, args, 1⟩] else [] := by
  have hself : (1 : Int) = if (net.serverState).srsOverride ≠ 0 then (net.serverState).srsOverride
    else 1 := rfl
  have hidle : (net.serverState).srsOverride = 0 := rfl
  obtain ⟨services, _, hout⟩ := RpcWorld.outboundRpc_server t args
    (h.resolveRpc (s := net.serverState) rfl) (fun _ => net.pos_of_mem_targetPeers) hself
  rw [serverApi, hout]
  by_cases hone : p = 1
  · -- on the server the method runs if it is called locally
    rw [runs, if_pos hone]
    simp only [ForPeerOfServer, hone, ↓reduceIte, RpcApi.callLocal, RpcWorld.isClient_serverApi,
      hidle, decide_true, Bool.or_true, Bool.and_true]
    split
    · rfl
    · rfl
  · have hnodup : ((net.serverApi.targetPeers t node c).filter
        (fun q => (net.serverState).services.Observes net.tree node q ∧ q ≠ 1)).Nodup :=
      (net.targetPeers_nodup t).filter _
    have hfrom : (0 : Int) < 1 ∧ (1 : Int) < 2 ^ 31 := ⟨by decide, by decide⟩
    refine (h.runs_client hone hnodup hfrom hcodec ?_).trans ?_
    · simp only [RpcApi.callLocal, RpcWorld.isClient_serverApi, hidle]
      split
      · rfl
      · rfl
    · apply if_congr ?_ rfl rfl
      simp only [ForPeerOfServer, hone, ↓reduceIte, List.mem_filter, decide_eq_true_eq,
        ne_eq, not_false_eq_true, and_true]
      apply and_congr_right
      intro hp
      rw [mem_targetPeers hp, and_assoc]
      apply and_congr_right
      intro _
      exact and_comm

/-- A call runs once on each peer that it is for, and on no other: a client's call whose packet
the server takes in, and a call by the server. -/
theorem delivered_exactly (net : RpcNetwork S N) (node : N) (c : ReplicationMethodConfig)
    (h : net.Callable node c) :
    (∀ (client : ClientPeer) (bytes : List UInt8) (data : RpcData),
      decompressRpc net.world.codec false client bytes = some data →
      data.objectId = net.tree.repository.getId node →
      net.world.data.freshConfig methodField (net.tree.script node) data.methodIdx = some c →
      net.world.codec.Inverts (.array data.args) →
      ∀ p, net.runs (net.serverApi.inboundRpc client bytes net.serverState) p =
        if net.ForPeer node c client data.toPeer p then [⟨node, c.name, data.args, client⟩]
        else []) ∧
    ∀ (t : Int) (args : List Variant), net.world.codec.Inverts (.array args) →
      ∀ p, net.runs (net.serverApi.outboundRpc t node c.name args net.serverState).2 p =
        if net.ForPeerOfServer node c t p then [⟨node, c.name, args, 1⟩] else [] := by
  constructor
  · intro client bytes data hdata hobject hc hcodec p
    exact h.runs_inbound client hdata hobject hc hcodec p
  · intro t args hcodec p
    exact h.runs_outbound t hcodec p

end RpcNetwork

/-- Peers 2 and 3 are connected, and only peer 3 sees the scene. -/
def pingNetwork : RpcNetwork Unit SmallNode where
  world := pingWorld
  tree := smallTree fun _ => some ()
  services := RpcWorld.halfHidden
  clients := [.two, .three]
  nodup := by decide
  connected := by decide
  isInstanceValid _ _ := true
  ratelimits _ := .empty
  clientRepository _ := (smallTree fun _ => some ()).repository
  clientOwner _ _ := none

/-- Peer 3 calls a method on the scene for everyone: it runs on the server only, with nobody
else to see the scene. -/
theorem RpcNetwork.delivered_ping :
    ∃ c bytes, pingNetwork.Callable .scene c ∧
      (∀ p, pingNetwork.runs (pingNetwork.serverApi.inboundRpc 3 bytes pingNetwork.serverState) p =
        if pingNetwork.ForPeer .scene c 3 0 p then [⟨.scene, c.name, [], 3⟩] else []) ∧
      ∀ p, pingNetwork.runs
          (pingNetwork.serverApi.outboundRpc 0 .scene c.name [] pingNetwork.serverState).2 p =
        if pingNetwork.ForPeerOfServer .scene c 0 p then [⟨.scene, c.name, [], 1⟩] else [] := by
  have hcall : pingNetwork.Callable .scene { instanceId := 0, name := "ping", sendFilter := 7 } := {
    alive := fun _ => rfl
    known := by decide
    not_queued := rfl
    has_method := by decide
    once := rfl
    idx_lt := by decide
    ratelimit := rfl }
  have hcodec : pingNetwork.world.codec.Inverts (.array []) :=
    intArrayCodec_inverts [] (by decide)
  obtain ⟨hin, hout⟩ := RpcNetwork.delivered_exactly pingNetwork .scene _ hcall
  exact ⟨_, compressRpc intArrayCodec false 3 0 1 0 [], hcall,
    hin .three _ ⟨3, 0, 1, 0, []⟩ rfl rfl rfl hcodec,
    hout 0 [] hcodec⟩

end Godaemon
