import Godaemon.Api.RemoteSender

namespace Godaemon
set_option autoImplicit true

/-- What the RPC layer of a server is asked to do, and what it sees around it then. What it has to
do with the nodes changes in between. -/
inductive ServerTurn (S N σ : Type) where
  | call (api : RpcApi S N σ) (server : api.isServer = true) (peer : Int) (object : N)
    (method : String) (args : List Variant)
  | packet (api : RpcApi S N σ) (server : api.isServer = true) (client : Int)
    (bytes : List UInt8)
  | elsewhere (repository : Repository N) (services : σ)

def serverStep [DecidableEq N] (s : RpcState N σ) : ServerTurn S N σ → RpcState N σ
  | .call api _ peer object method args => (api.outboundRpc peer object method args s).2
  | .packet api _ client bytes => api.recvCommand client bytes s
  | .elsewhere repository services => { s with repository := repository, services := services }

/-- The packets for a peer, in the order in which they were sent. -/
def RpcState.mail (s : RpcState N σ) (peer : Int) : List Command :=
  s.commands.filter (fun c => c.peer = peer)

/-- The RPC layer of a client, and the nodes it knows. Services install no hooks there. -/
structure RpcClient (S N : Type) where
  peer : ClientPeer
  api : RpcApi S N Unit
  uniqueId : api.uniqueId = peer
  hooks : api.hooks = {}
  repository : Repository N

namespace RpcClient

variable {S N : Type} [DecidableEq N] (client : RpcClient S N)

/-- A packet arrives at a time. -/
def arrive (s : RpcState N Unit) (arrival : Command × ℚ) : RpcState N Unit :=
  { client.api with time := arrival.2 }.recvCommand 1 arrival.1.bytes s

def start : RpcState N Unit := .idle client.repository .empty ()

/-- What a packet calls, as far as the client knows its node and method. -/
def reads (command : Command) : Option (RpcData × N × ReplicationMethodConfig) :=
  (client.api.findRpc 1 command.bytes.dropLast client.start).1

def callOf (command : Command) : Option (RpcCall N) :=
  (client.reads command).map (fun found =>
    ⟨found.2.1, found.2.2.name, found.1.args, found.1.fromPeer⟩)

/-- What a packet counts against, if its method has a rate limit: the sender, the node and the
method. -/
def limitKey (command : Command) : Option (Int × N × ReplicationMethodConfig) :=
  match client.reads command with
  | none => none
  | some (data, object, config) =>
    if |config.ratelimit| < 1 / 100000 then none else some (data.fromPeer, object, config)

/-- Two packets that count against the same limit arrive further apart than it allows. -/
def Apart (a b : Command × ℚ) : Prop :=
  ∀ key, client.limitKey a.1 = some key → client.limitKey b.1 = some key →
    a.2 + key.2.2.ratelimit < b.2

end RpcClient

/-- A packet of a server, whatever it says. -/
def FromServer (command : Command) : Prop :=
  ∃ codec fromPeer id methodIdx args, command.bytes =
    rpcBytes codec true fromPeer command.peer id methodIdx args ++ [NetCommand.rpc.byte]

namespace RpcApi

variable {S N σ : Type} [DecidableEq N] {api : RpcApi S N σ} {s : RpcState N σ} {id : Int}

/-- All packets so far are packets of a server. -/
def Serves (s : RpcState N σ) : Prop := ∀ c ∈ s.commands, FromServer c

theorem fromServer_compressRpc (codec : VariantCodec) (fromPeer toPeer id methodIdx : Int)
    (args : List Variant) (mode : TransferMode) (channel : Int)
    (h : compressRpc codec true fromPeer toPeer id methodIdx args ≠ []) :
    FromServer ⟨toPeer, compressRpc codec true fromPeer toPeer id methodIdx args ++
      [NetCommand.rpc.byte], mode, channel⟩ := by
  rw [compressRpc_of_ne_nil h]
  exact ⟨codec, fromPeer, id, methodIdx, args, rfl⟩

theorem serves_sendRpcs (hserver : api.isServer = true) (targets : List Int) (h : Serves s) :
    Serves (api.sendRpcs fromPeer object method methodIdx args mode channel targets s) := by
  induction targets generalizing s with
  | nil => exact h
  | cons toPeer targets ih =>
    have hto : (if api.isClient then (1 : Int) else toPeer) = toPeer := by
      have hone : api.uniqueId = 1 := decide_eq_true_iff.1 hserver
      rw [isClient, decide_eq_false (fun h => h hone)]
      rfl
    simp only [sendRpcs]
    split
    · exact ih h
    · split
      · exact ih h
      · split
        · exact ih h
        · next hbytes =>
          apply ih
          intro c hc
          rcases List.mem_append.1 hc with hc | hc
          · exact h c hc
          · rw [hserver] at hbytes
            rw [List.mem_singleton.1 hc, hto, hserver]
            exact fromServer_compressRpc api.codec fromPeer toPeer
              (s.repository.getId object) methodIdx args mode channel hbytes

theorem serves_sendOut (hserver : api.isServer = true) (h : Serves s) :
    Serves (api.sendOut peer object method config methodIdx args s) :=
  serves_sendRpcs hserver _ h

theorem serves_outboundRpc (hserver : api.isServer = true) (h : Serves s) :
    Serves (api.outboundRpc peer object method args s).2 := by
  rw [outboundRpc_eq]
  split
  · exact h
  · simp only [callLocal]
    split
    · exact serves_sendOut hserver h
    · exact serves_sendOut hserver h

theorem serves_forwardRpc (hserver : api.isServer = true) (peers : List Int) (h : Serves s) :
    Serves (api.forwardRpc fromPeer skipPeer object config args peers s) := by
  induction peers generalizing s with
  | nil => exact h
  | cons p peers ih =>
    simp only [forwardRpc]
    split
    · exact ih h
    · split
      · split
        · exact ih (serves_outboundRpc hserver h)
        · exact ih h
      · split
        · exact ih (serves_outboundRpc hserver h)
        · exact ih h

theorem serves_routeRpc (hserver : api.isServer = true) (h : Serves s) :
    Serves (api.routeRpc id fromPeer toPeer object config args s) := by
  simp only [routeRpc]
  split
  · split
    · exact h
    · exact h
  · split
    · exact h
    · split
      · split
        · exact serves_outboundRpc (s := { s with
            srsOverride := fromPeer }) hserver h
        · exact h
      · split
        · exact serves_forwardRpc hserver _ h
        · exact serves_forwardRpc hserver _ h

theorem serves_inboundRpc (hserver : api.isServer = true) (h : Serves s) :
    Serves (api.inboundRpc id bytes s) := by
  obtain ⟨repository, hfind⟩ := api.findRpc_state id bytes s
  rw [inboundRpc]
  split
  · next t ht =>
    rw [ht] at hfind
    obtain rfl : t = _ := hfind
    exact h
  · next data object config t ht =>
    rw [ht] at hfind
    obtain rfl : t = _ := hfind
    obtain ⟨ratelimits, hlimit⟩ := api.checkRpcRatelimit_state { s with repository := repository }
      data.fromPeer object config
    split
    · exact h
    · simp only
      rw [hlimit]
      split
      · exact h
      · split
        · exact h
        · exact serves_routeRpc hserver h

theorem serves_recvCommand (hserver : api.isServer = true) (h : Serves s) :
    Serves (api.recvCommand id bytes s) := by
  rw [recvCommand]
  split
  · exact serves_inboundRpc hserver h
  · exact h

theorem serverStep_serves (turn : ServerTurn S N σ) (h : Serves s) :
    Serves (serverStep s turn) := by
  cases turn with
  | call api server peer object method args => exact serves_outboundRpc server h
  | packet api server client bytes => exact serves_recvCommand server h
  | elsewhere repository services => exact h

theorem serves_run (turns : List (ServerTurn S N σ)) (h : Serves s) :
    Serves (Runs.run serverStep s turns) :=
  (Runs.always_of_step (fun _ turn hs => serverStep_serves turn hs) h turns).last

omit [DecidableEq N] in
theorem findRpc_congr {s' : RpcState N σ} (h : s'.repository = s.repository) :
    (api.findRpc id bytes s').1 = (api.findRpc id bytes s).1 := by
  simp only [findRpc, h]
  split
  · rfl
  · split
    · rfl
    · split
      · rfl
      · rfl

/-- What counts the calls of a method of a node by a peer. -/
def limiterOf (ratelimits : Ratelimits N) (key : Int × N × ReplicationMethodConfig) :
    RateLimiter :=
  ((ratelimits.getD key.1 .empty).getD key.2.1 .empty).getD key.2.2
    { count := 1, duration := key.2.2.ratelimit }

theorem limiterOf_set (ratelimits : Ratelimits N) (key key' : Int × N × ReplicationMethodConfig)
    (rl : RateLimiter) :
    let objects := ratelimits.getD key.1 .empty
    let configs := objects.getD key.2.1 .empty
    limiterOf (ratelimits.set key.1 (objects.set key.2.1 (configs.set key.2.2 rl))) key' =
      if key' = key then rl else limiterOf ratelimits key' := by
  obtain ⟨peer, object, config⟩ := key
  obtain ⟨peer', object', config'⟩ := key'
  simp only [limiterOf, Dict.getD_set, Prod.mk.injEq]
  by_cases hpeer : peer' = peer
  · subst hpeer
    by_cases hobject : object' = object
    · subst hobject
      simp only [↓reduceIte, Dict.getD_set, true_and]
    · simp only [↓reduceIte, Dict.getD_set, hobject, false_and, and_false]
  · simp only [hpeer, ↓reduceIte, false_and]

theorem checkRpcRatelimit_limited (api : RpcApi S N σ) (s : RpcState N σ) (peer : Int)
    (object : N) (h : ¬ |config.ratelimit| < 1 / 100000) :
    let checked := (limiterOf s.peerConfigRatelimits (peer, object, config)).check api.time peer
    (api.checkRpcRatelimit peer object config s).1 = checked.1 ∧
      ∀ key, limiterOf (api.checkRpcRatelimit peer object config s).2.peerConfigRatelimits key =
        if key = (peer, object, config) then checked.2
        else limiterOf s.peerConfigRatelimits key := by
  rw [checkRpcRatelimit, if_neg h]
  exact ⟨rfl, fun key => limiterOf_set s.peerConfigRatelimits (peer, object, config) key _⟩

end RpcApi

namespace RpcClient

variable {S N : Type} [DecidableEq N] (client : RpcClient S N)

/-- The times of the packets that count against a limit. -/
def timesOf (past : List (Command × ℚ)) (key : Int × N × ReplicationMethodConfig) : List ℚ :=
  (past.filter (fun a => client.limitKey a.1 = some key)).map Prod.snd

/-- The client has the nodes it had, and its limiters have let these packets through. -/
structure Counts (s : RpcState N Unit) (past : List (Command × ℚ)) : Prop where
  repository : s.repository = client.repository
  limiters : ∀ key, (RpcApi.limiterOf s.peerConfigRatelimits key).Remembers key.2.2.ratelimit key.1
    (client.timesOf past key)

/-- The packet is for the client, from a server, and calls what the client knows. -/
structure Welcome (command : Command) : Prop where
  sent : FromServer command
  mail : command.peer = client.peer
  known : (client.reads command).isSome

/-- The client's rate limit lets a packet through. -/
def Passes (s : RpcState N Unit) (arrival : Command × ℚ) : Prop :=
  ∀ key, client.limitKey arrival.1 = some key →
    ((RpcApi.limiterOf s.peerConfigRatelimits key).check arrival.2 key.1).1 = true

variable {client} {s : RpcState N Unit}

theorem start_counts : client.Counts client.start [] :=
  ⟨rfl, fun _ => RateLimiter.remembers_new _ _⟩

omit [DecidableEq N] in
theorem findRpc_at (hs : s.repository = client.repository)
    (hreads : client.reads command = some (data, object, config)) (time : ℚ) :
    RpcApi.findRpc { client.api with time := time } 1 command.bytes.dropLast s =
      (some (data, object, config), s) := by
  have hfound : (client.api.findRpc 1 command.bytes.dropLast s).1 =
      some (data, object, config) := by
    rw [← hreads, reads]
    exact RpcApi.findRpc_congr hs
  have hpair : client.api.findRpc 1 command.bytes.dropLast s =
      (some (data, object, config), (client.api.findRpc 1 command.bytes.dropLast s).2) := by
    rw [← hfound]
  have hsame := (RpcApi.findRpc_some hpair).1
  rw [hsame] at hpair
  exact hpair

/-- The client runs what comes from the server, for the server sends it packets with its id. -/
theorem routeRpc_from_server (api : RpcApi S N Unit) (hto : toPeer ≠ 1) :
    api.routeRpc 1 fromPeer toPeer object config args s = s.call object config.name args := by
  rw [RpcApi.routeRpc, if_neg hto, if_pos rfl]

omit [DecidableEq N] in
theorem Welcome.toPeer_ne_one (h : client.Welcome command)
    (hreads : client.reads command = some (data, object, config)) : data.toPeer ≠ 1 := by
  obtain ⟨codec, fromPeer, objectId, methodIdx, args, hbytes⟩ := h.sent
  have hpair : client.api.findRpc 1 command.bytes.dropLast client.start =
      (some (data, object, config), client.start) := findRpc_at rfl hreads client.api.time
  have hdata := (RpcApi.findRpc_some hpair).2.1
  have hclient : client.api.isClient = true := by
    apply decide_eq_true
    rw [client.uniqueId]
    exact client.peer.ne_one
  rw [hbytes, List.dropLast_concat, hclient] at hdata
  have h1 := client.peer.one_lt
  have h2 := client.peer.lt
  rw [(target_of_decompressRpc hdata).1, h.mail,
    Bytes.residue_of_nonneg (w := 4) (by omega) (by omega)]
  exact client.peer.ne_one

theorem arrive_eq (a : Command × ℚ) (hs : s.repository = client.repository)
    (ha : client.Welcome a.1) (hreads : client.reads a.1 = some (data, object, config)) :
    client.arrive s a =
      let checked := RpcApi.checkRpcRatelimit { client.api with time := a.2 } data.fromPeer object
        config s
      if checked.1 then { checked.2 with
        remoteSender := 0
        calls := checked.2.calls ++ [⟨object, config.name, data.args, data.fromPeer⟩] }
      else checked.2 := by
  have hlast : a.1.bytes.getLast? = some NetCommand.rpc.byte := by
    obtain ⟨codec, fromPeer, objectId, methodIdx, args, hbytes⟩ := ha.sent
    rw [hbytes, List.getLast?_append]
    rfl
  obtain ⟨api, hapi⟩ : ∃ api : RpcApi S N Unit, api = { client.api with time := a.2 } := ⟨_, rfl⟩
  have hserver : api.isServer = false := by
    rw [hapi]
    apply decide_eq_false
    rw [client.uniqueId]
    exact client.peer.ne_one
  have hfilters : api.hooks.inboundFilters = [] := by
    rw [hapi, client.hooks]
  have hfind := findRpc_at hs hreads a.2
  have hto := ha.toPeer_ne_one hreads
  rw [← hapi] at hfind
  rw [arrive, ← hapi, RpcApi.recvCommand, if_pos hlast, RpcApi.inboundRpc, hfind]
  simp only [hserver, Bool.false_and, Bool.false_eq_true, ↓reduceIte, hfilters, RpcApi.runFilters,
    Bool.not_true, routeRpc_from_server api hto]
  cases (api.checkRpcRatelimit data.fromPeer object config s).1 with
  | true => rfl
  | false => rfl

theorem passes_iff (a : Command × ℚ) (hreads : client.reads a.1 = some (data, object, config)) :
    client.Passes s a ↔ (RpcApi.checkRpcRatelimit { client.api with time := a.2 } data.fromPeer
      object config s).1 = true := by
  rw [Passes, limitKey, hreads]
  simp only
  by_cases hlimit : |config.ratelimit| < 1 / 100000
  · rw [if_pos hlimit, RpcApi.checkRpcRatelimit, if_pos hlimit]
    exact iff_of_true (fun key hkey => by cases hkey) rfl
  · rw [if_neg hlimit, (RpcApi.checkRpcRatelimit_limited _ s data.fromPeer object hlimit).1]
    constructor
    · exact fun h => h _ rfl
    · intro h key hkey
      cases hkey
      exact h

theorem arrive_calls (a : Command × ℚ) (hs : s.repository = client.repository)
    (ha : client.Welcome a.1) : ∃ call, client.callOf a.1 = some call ∧
      (client.arrive s a).repository = client.repository ∧
      (client.Passes s a → (client.arrive s a).calls = s.calls ++ [call]) ∧
      (¬ client.Passes s a → (client.arrive s a).calls = s.calls) := by
  obtain ⟨⟨data, object, config⟩, hreads⟩ := Option.isSome_iff_exists.1 ha.known
  obtain ⟨ratelimits, hstate⟩ := RpcApi.checkRpcRatelimit_state
    { client.api with time := a.2 } s data.fromPeer object config
  refine ⟨⟨object, config.name, data.args, data.fromPeer⟩, by rw [callOf, hreads]; rfl, ?_⟩
  rw [arrive_eq a hs ha hreads, passes_iff a hreads]
  simp only [hstate]
  by_cases hpass : (RpcApi.checkRpcRatelimit { client.api with time := a.2 } data.fromPeer object
      config s).1 = true
  · rw [if_pos hpass]
    exact ⟨hs, fun _ => rfl, fun hnot => absurd hpass hnot⟩
  · rw [if_neg hpass]
    exact ⟨hs, fun h => absurd h hpass, fun _ => rfl⟩

theorem mem_timesOf : t ∈ client.timesOf past key ↔
    ∃ a ∈ past, client.limitKey a.1 = some key ∧ a.2 = t := by
  rw [timesOf, List.mem_map]
  constructor
  · intro h
    obtain ⟨a, ha, ht⟩ := h
    rw [List.mem_filter, decide_eq_true_iff] at ha
    exact ⟨a, ha.1, ha.2, ht⟩
  · intro h
    obtain ⟨a, ha, hkey, ht⟩ := h
    exact ⟨a, List.mem_filter.2 ⟨ha, decide_eq_true hkey⟩, ht⟩

theorem timesOf_append (past : List (Command × ℚ)) (a : Command × ℚ)
    (key : Int × N × ReplicationMethodConfig) :
    client.timesOf (past ++ [a]) key =
      client.timesOf past key ++ (if client.limitKey a.1 = some key then [a.2] else []) := by
  rw [timesOf, List.filter_append, List.map_append, timesOf]
  by_cases hkey : client.limitKey a.1 = some key
  · rw [if_pos hkey, List.filter_cons, if_pos (decide_eq_true hkey)]
    rfl
  · rw [if_neg hkey, List.filter_cons, if_neg (fun h => hkey (of_decide_eq_true h))]
    rfl

theorem Counts.passes_iff (h : client.Counts s past) (a : Command × ℚ) :
    client.Passes s a ↔ ∀ b ∈ past, client.Apart b a := by
  constructor
  · intro hpass b hb key hkey hkey'
    have hall := ((h.limiters key).check_iff a.2).1 (hpass key hkey')
    exact hall b.2 (mem_timesOf.2 ⟨b, hb, hkey, rfl⟩)
  · intro hall key hkey
    rw [(h.limiters key).check_iff]
    intro t ht
    obtain ⟨b, hb, hkey', rfl⟩ := mem_timesOf.1 ht
    exact hall b hb key hkey' hkey

theorem Counts.arrive (h : client.Counts s past) (ha : client.Welcome a.1)
    (hlate : ∀ b ∈ past, b.2 ≤ a.2) (hpass : client.Passes s a) :
    client.Counts (client.arrive s a) (past ++ [a]) := by
  obtain ⟨⟨data, object, config⟩, hreads⟩ := Option.isSome_iff_exists.1 ha.known
  obtain ⟨_, _, hrepository, _⟩ := arrive_calls a h.repository ha
  refine ⟨hrepository, fun key => ?_⟩
  have hchecked := (RpcClient.passes_iff a hreads).1 hpass
  rw [timesOf_append, arrive_eq a h.repository ha hreads, if_pos hchecked]
  simp only
  by_cases hlimit : |config.ratelimit| < 1 / 100000
  · have hkey : client.limitKey a.1 = none := by
      rw [limitKey, hreads]
      simp only
      rw [if_pos hlimit]
    rw [hkey, if_neg (fun he => by cases he), List.append_nil, RpcApi.checkRpcRatelimit,
      if_pos hlimit]
    exact h.limiters key
  · have hkey : client.limitKey a.1 = some (data.fromPeer, object, config) := by
      rw [limitKey, hreads]
      simp only
      rw [if_neg hlimit]
    rw [(RpcApi.checkRpcRatelimit_limited _ s data.fromPeer object hlimit).2, hkey]
    by_cases hsame : key = (data.fromPeer, object, config)
    · rw [if_pos hsame, hsame, if_pos rfl]
      apply (h.limiters _).check
      · intro t ht
        obtain ⟨b, hb, _, rfl⟩ := mem_timesOf.1 ht
        exact hlate b hb
      · exact hpass _ hkey
    · rw [if_neg hsame, if_neg (fun he => hsame (Option.some.inj he).symm), List.append_nil]
      exact h.limiters key

/-- Packets arrive in the order of their times, after others that have all passed. They all pass if
no two of all these come too soon after each other. -/
theorem Counts.guarded_iff (h : client.Counts s past)
    (harrivals : ∀ a ∈ arrivals, client.Welcome a.1)
    (hlate : ∀ b ∈ past, ∀ a ∈ arrivals, b.2 ≤ a.2)
    (hsorted : arrivals.Pairwise (fun a b => a.2 ≤ b.2)) :
    Runs.Guarded client.arrive client.Passes s arrivals ↔
      (∀ b ∈ past, ∀ a ∈ arrivals, client.Apart b a) ∧ arrivals.Pairwise client.Apart := by
  induction arrivals generalizing s past with
  | nil => exact iff_of_true trivial ⟨fun _ _ _ ha => (by cases ha), .nil⟩
  | cons a arrivals ih =>
    obtain ⟨hnext, hsorted'⟩ := List.pairwise_cons.1 hsorted
    obtain ⟨ha, harrivals'⟩ := List.forall_mem_cons.1 harrivals
    have hrest (hpass : client.Passes s a) := ih
      (h.arrive ha (fun b hb => hlate b hb a List.mem_cons_self) hpass) harrivals'
      (by
        intro b hb c hc
        rcases List.mem_append.1 hb with hb | hb
        · exact hlate b hb c (List.mem_cons_of_mem _ hc)
        · rw [List.mem_singleton.1 hb]
          exact hnext c hc) hsorted'
    rw [List.pairwise_cons]
    constructor
    · intro hguarded
      obtain ⟨hpass, hguarded'⟩ := hguarded
      obtain ⟨hpast, hpairwise⟩ := (hrest hpass).1 hguarded'
      refine ⟨fun b hb c hc => ?_, fun c hc => ?_, hpairwise⟩
      · rcases List.mem_cons.1 hc with rfl | hc
        · exact (h.passes_iff _).1 hpass b hb
        · exact hpast b (List.mem_append_left _ hb) c hc
      · exact hpast a (List.mem_append_right _ (List.mem_singleton.2 rfl)) c hc
    · intro happart
      obtain ⟨hpast, hfirst, hpairwise⟩ := happart
      have hpass : client.Passes s a :=
        (h.passes_iff a).2 (fun b hb => hpast b hb a List.mem_cons_self)
      refine ⟨hpass, (hrest hpass).2 ⟨fun b hb c hc => ?_, hpairwise⟩⟩
      rcases List.mem_append.1 hb with hb | hb
      · exact hpast b hb c (List.mem_cons_of_mem _ hc)
      · rw [List.mem_singleton.1 hb]
        exact hfirst c hc

theorem calls_le (hs : s.repository = client.repository)
    (harrivals : ∀ a ∈ arrivals, client.Welcome a.1) :
    (Runs.run client.arrive s arrivals).calls.length ≤ s.calls.length + arrivals.length := by
  induction arrivals generalizing s with
  | nil => exact Nat.le_refl _
  | cons a arrivals ih =>
    obtain ⟨ha, harrivals'⟩ := List.forall_mem_cons.1 harrivals
    obtain ⟨call, _, hrepository, hpass, hfail⟩ := arrive_calls a hs ha
    have hrest := ih hrepository harrivals'
    have hone : (client.arrive s a).calls.length ≤ s.calls.length + 1 := by
      by_cases hp : client.Passes s a
      · rw [hpass hp, List.length_append]
        exact Nat.le_refl _
      · rw [hfail hp]
        exact Nat.le_succ _
    rw [Runs.run_cons, List.length_cons]
    omega

theorem calls_eq_iff (hs : s.repository = client.repository)
    (harrivals : ∀ a ∈ arrivals, client.Welcome a.1) :
    (Runs.run client.arrive s arrivals).calls.map some =
        s.calls.map some ++ arrivals.map (fun a => client.callOf a.1) ↔
      Runs.Guarded client.arrive client.Passes s arrivals := by
  induction arrivals generalizing s with
  | nil => exact iff_of_true (List.append_nil _).symm trivial
  | cons a arrivals ih =>
    obtain ⟨ha, harrivals'⟩ := List.forall_mem_cons.1 harrivals
    obtain ⟨call, hcall, hrepository, hpass, hfail⟩ := arrive_calls a hs ha
    rw [Runs.run_cons, Runs.Guarded, List.map_cons, hcall]
    by_cases hp : client.Passes s a
    · rw [← ih hrepository harrivals', hpass hp, List.map_append, List.append_assoc]
      exact ⟨fun h => ⟨hp, h⟩, fun h => h.2⟩
    · -- a call is missing
      refine iff_of_false (fun h => ?_) (fun h => hp h.1)
      have hle := calls_le hrepository harrivals'
      have hlength := congrArg List.length h
      rw [hfail hp] at hle
      simp only [List.length_map, List.length_append, List.length_cons] at hlength
      omega

/-- Of the packets that a server sends to a client, for nodes and methods that the client knows, all
are executed exactly if those that count against the same rate limit arrive far enough apart. -/
theorem all_accepted_iff (client : RpcClient S N) (server : RpcState N σ)
    (hserver : server.commands = []) (turns : List (ServerTurn S N σ))
    (arrivals : List (Command × ℚ))
    (hmail : arrivals.map Prod.fst = (Runs.run serverStep server turns).mail client.peer)
    (hsorted : arrivals.Pairwise (fun a b => a.2 ≤ b.2))
    (hknown : ∀ a ∈ arrivals, (client.reads a.1).isSome) :
    (Runs.run client.arrive client.start arrivals).calls.map some =
        arrivals.map (fun a => client.callOf a.1) ↔
      arrivals.Pairwise client.Apart := by
  have hstart : RpcApi.Serves server := by
    intro c hc
    rw [hserver] at hc
    cases hc
  have harrivals : ∀ a ∈ arrivals, client.Welcome a.1 := by
    intro a ha
    have hsent : a.1 ∈ (Runs.run serverStep server turns).mail client.peer := by
      rw [← hmail]
      exact List.mem_map_of_mem ha
    rw [RpcState.mail, List.mem_filter, decide_eq_true_iff] at hsent
    exact ⟨RpcApi.serves_run turns hstart a.1 hsent.1, hsent.2, hknown a ha⟩
  have hcalls := calls_eq_iff (s := client.start) rfl harrivals
  rw [show client.start.calls = [] from rfl, List.map_nil, List.nil_append] at hcalls
  rw [hcalls, start_counts.guarded_iff harrivals (fun b hb => by cases hb) hsorted]
  exact ⟨fun h => h.2, fun h => ⟨fun b hb => (by cases hb), h⟩⟩

/-- The RPC layer of a peer, with a method that may be called once in a second. -/
def tickApi (peer : Int) : RpcApi Unit SmallNode Unit :=
  { ObjectHistory.pingApi with
    uniqueId := peer
    data := {
      scripts := .discrete
      scriptReplicationMap := fun _ => some { methodConfig := [
        { instanceId := 0, name := "ping", sendFilter := 7, ratelimit := 1 }] } } }

def tickClient : RpcClient Unit SmallNode where
  peer := .two
  api := tickApi 2
  uniqueId := rfl
  hooks := rfl
  repository := (smallTree fun _ => some ()).repository

def tickServer : RpcState SmallNode Unit :=
  .idle (smallTree fun _ => some ()).repository .empty ()

/-- The server calls the method on client 2 twice. -/
def tickTurns : List (ServerTurn Unit SmallNode Unit) :=
  [.call (tickApi 1) rfl 2 .scene "ping" [], .call (tickApi 1) rfl 2 .scene "ping" []]

/-- The packets arrive at these times. -/
def tickArrivals (times : List ℚ) : List (Command × ℚ) :=
  ((Runs.run serverStep tickServer tickTurns).mail 2).zip times

theorem all_accepted_iff_ticks :
    (Runs.run tickClient.arrive tickClient.start (tickArrivals [0, 2])).calls.map some =
        (tickArrivals [0, 2]).map (fun a => tickClient.callOf a.1) ↔
      (tickArrivals [0, 2]).Pairwise tickClient.Apart :=
  all_accepted_iff tickClient tickServer rfl tickTurns (tickArrivals [0, 2]) (by decide +kernel)
    (by decide +kernel) (by decide +kernel)

/-- If both arrive at the same time, the second is not executed. -/
theorem second_tick_dropped :
    (tickArrivals [0, 0]).map Prod.fst = (Runs.run serverStep tickServer tickTurns).mail 2 ∧
      (tickArrivals [0, 0]).Pairwise (fun a b => a.2 ≤ b.2) ∧
      (∀ a ∈ tickArrivals [0, 0], (tickClient.reads a.1).isSome) ∧
      ¬ (Runs.run tickClient.arrive tickClient.start (tickArrivals [0, 0])).calls.map some =
        (tickArrivals [0, 0]).map (fun a => tickClient.callOf a.1) := by
  refine ⟨by decide +kernel, by decide +kernel, by decide +kernel, fun h => ?_⟩
  have hlength := congrArg List.length h
  rw [List.length_map, List.length_map] at hlength
  have hone : (Runs.run tickClient.arrive tickClient.start
      (tickArrivals [0, 0])).calls.length = 1 := by
    decide +kernel
  have htwo : (tickArrivals [0, 0]).length = 2 := by decide +kernel
  omega

end RpcClient

end Godaemon
