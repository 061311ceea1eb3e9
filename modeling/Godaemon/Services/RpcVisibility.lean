import Mathlib.Tactic.NormNum
import Godaemon.Api.Rpc
import Godaemon.Services.VisibilityCache

namespace Godaemon
set_option autoImplicit true

namespace ReplicationService

variable {S N : Type} [DecidableEq N] (T : ServerTree S N)

/-- Keep an RPC away from the peers that do not observe its node. -/
def targetPeerModifier (_fromPeer : Int) (targetPeers : List Int) (node : N) (_method : String)
    (_args : List Variant) (s : ReplicationService N) : List Int × ReplicationService N :=
  let (validPeers, s) := s.getObservingPeers T node
  if targetPeers = [0] then (validPeers, s)
  else
    match targetPeers with
    | [] => ([], s)
    | first :: _ =>
      if first > 0 then (targetPeers.filter (fun p => p ∈ validPeers), s)
      else (targetPeers.filter (fun p => p ∈ validPeers ∧ p ≠ -first), s)

/-- Between two clients, both must observe the node. -/
def rpcFilter (fromPeer toPeer : Int) (node : N) (_method : String) (_args : List Variant)
    (s : ReplicationService N) : Bool × ReplicationService N :=
  if fromPeer = 1 ∨ toPeer ≤ 1 then (true, s)
  else
    let (validPeers, s) := s.getObservingPeers T node
    (fromPeer ∈ validPeers && toPeer ∈ validPeers, s)

def rpcHooks : RpcHooks N (ReplicationService N) where
  targetPeerModifiers := [targetPeerModifier T]
  inboundFilters := [rpcFilter T]

/-- Does the peer observe the node? -/
def Observes (s : ReplicationService N) (node : N) (p : Int) : Prop :=
  p ∈ (s.getObservingPeers T node).1

instance (s : ReplicationService N) (node : N) (p : Int) : Decidable (s.Observes T node p) :=
  inferInstanceAs (Decidable (_ ∈ _))

/-- Queries, and nothing else, lead from one state to the other. -/
def Asked (s s' : ReplicationService N) : Prop := ∃ asked, Queried T s s' asked

variable {T} {s s' s'' : ReplicationService N}

theorem Asked.refl : Asked T s s := ⟨_, .refl⟩

theorem Asked.trans (h : Asked T s s') (h' : Asked T s' s'') : Asked T s s'' := by
  obtain ⟨_, h⟩ := h
  obtain ⟨_, h'⟩ := h'
  exact ⟨_, h.trans h'⟩

theorem asked_getObservingPeers : Asked T s (s.getObservingPeers T node).2 :=
  ⟨_, (getObservingPeers_spec T s node).2⟩

theorem observes_iff : s.Observes T node p ↔
    (p ∈ s.clients ∧ s.sees T node p = true) ∨ s.clientCreatedScenes.get? node = some p :=
  (getObservingPeers_spec T s node).1 p

theorem Asked.observes (h : Asked T s s') : s'.Observes T node p ↔ s.Observes T node p := by
  obtain ⟨_, h⟩ := h
  have hc : s'.clientCreatedScenes = s.clientCreatedScenes := by rw [h.frame]
  rw [observes_iff, observes_iff, h.sees_eq, clients, clients, h.peers, hc]

theorem Asked.peers (h : Asked T s s') : s'.peers = s.peers := by
  obtain ⟨_, h⟩ := h
  exact h.peers

theorem targetPeerModifier_spec (fromPeer : Int) (node : N) (method : String) (args : List Variant)
    (s : ReplicationService N) (h : ∀ p ∈ targetPeers, 0 < p) :
    (targetPeerModifier T fromPeer targetPeers node method args s).1 =
        targetPeers.filter (fun p => s.Observes T node p) ∧
      Asked T s (targetPeerModifier T fromPeer targetPeers node method args s).2 := by
  have hne : targetPeers ≠ [0] := by
    rintro rfl
    exact absurd (h 0 List.mem_cons_self) (by decide)
  simp only [targetPeerModifier, if_neg hne]
  cases targetPeers with
  | nil => exact ⟨rfl, asked_getObservingPeers⟩
  | cons first targets =>
    have hpos : first > 0 := h first List.mem_cons_self
    simp only [if_pos hpos]
    exact ⟨rfl, asked_getObservingPeers⟩

/-- Between two clients a packet passes if both observe the node. -/
theorem rpcFilter_spec (toPeer : Int) (node : N) (method : String) (args : List Variant)
    (s : ReplicationService N) (hfrom : fromPeer ≠ 1) :
    (rpcFilter T fromPeer toPeer node method args s).1 =
        decide (toPeer ≤ 1 ∨ s.Observes T node fromPeer ∧ s.Observes T node toPeer) ∧
      Asked T s (rpcFilter T fromPeer toPeer node method args s).2 := by
  simp only [rpcFilter, hfrom, false_or]
  by_cases hto : toPeer ≤ 1
  · simp only [hto, ↓reduceIte, true_or, decide_true, true_and]
    exact .refl
  · simp only [hto, ↓reduceIte, false_or]
    exact ⟨by rw [Bool.decide_and]; rfl, asked_getObservingPeers⟩

theorem asked_targetPeerModifier : Asked T s
    (targetPeerModifier T fromPeer targetPeers node method args s).2 := by
  simp only [targetPeerModifier]
  split
  · exact asked_getObservingPeers
  · cases targetPeers with
    | nil => exact asked_getObservingPeers
    | cons first targets =>
      simp only
      split
      · exact asked_getObservingPeers
      · exact asked_getObservingPeers

theorem asked_rpcFilter : Asked T s (rpcFilter T fromPeer toPeer node method args s).2 := by
  simp only [rpcFilter]
  split
  · exact .refl
  · exact asked_getObservingPeers

end ReplicationService

/-- What the RPC layers of all peers share: the scripts' replication, the serializer, which
methods exist, and the nodes' state on the server. -/
structure RpcWorld (S N : Type) where
  data : ReplicationData S
  codec : VariantCodec
  owner : N → Option Int
  hasMethod : N → String → Bool
  isQueuedForDeletion : N → Bool
  objectChannels : N → Option Int
  time : ℚ

namespace RpcWorld

variable {S N : Type} [DecidableEq N] (w : RpcWorld S N) (T : ServerTree S N)

/-- The RPC layer of the server, with the hooks of the ReplicationService and no others. -/
def serverApi (isInstanceValid : N → Bool) (peers : List Int) :
    RpcApi S N (ReplicationService N) where
  uniqueId := 1
  peers := peers
  tree := T.toSceneTree
  owner := w.owner
  data := w.data
  codec := w.codec
  hasMethod := w.hasMethod
  isInstanceValid := isInstanceValid
  isQueuedForDeletion := w.isQueuedForDeletion
  objectChannels := w.objectChannels
  time := w.time
  hooks := ReplicationService.rpcHooks T

variable {w : RpcWorld S N} {T : ServerTree S N} {isInstanceValid : N → Bool} {peers : List Int}

@[simp] theorem isServer_serverApi : (w.serverApi T isInstanceValid peers).isServer = true := rfl

@[simp] theorem isClient_serverApi : (w.serverApi T isInstanceValid peers).isClient = false := rfl

end RpcWorld

namespace RpcApi

variable {S N σ : Type} [DecidableEq N] {api : RpcApi S N σ} {s s' : RpcState N σ} {id : Int}
  {data : RpcData}

/-- The packet that an RPC is sent in. -/
def packet (api : RpcApi S N σ) (id : Int) (object : N) (config : ReplicationMethodConfig)
    (methodIdx : Int) (args : List Variant) (fromPeer toPeer : Int) : Command where
  peer := if api.isClient then 1 else toPeer
  bytes := rpcBytes api.codec api.isServer fromPeer toPeer id methodIdx args ++
    [NetCommand.rpc.byte]
  transferMode := config.getTransferMode
  channel := (api.objectChannels object).getD 0

theorem sendRpcs_spec {methodIdx : Int} (hfilters : api.hooks.outboundFilters = [])
    (hid : s.repository.getId object ≠ -1) (hidx : methodIdx < maxRpcMethods)
    (targets : List Int) :
    api.sendRpcs fromPeer object method methodIdx args config.getTransferMode
        ((api.objectChannels object).getD 0) targets s =
      { s with
        commands := s.commands ++ (targets.filter (fun p => p ≠ fromPeer)).map
          (api.packet (s.repository.getId object) object config methodIdx args fromPeer) } := by
  induction targets generalizing s with
  | nil => simp [sendRpcs]
  | cons toPeer targets ih =>
    simp only [sendRpcs, hfilters, runFilters]
    by_cases hto : toPeer = fromPeer
    · simp only [hto, ↓reduceIte]
      rw [ih hid, List.filter_cons_of_neg (by simp)]
    · simp only [hto, ↓reduceIte, Bool.not_true, Bool.false_eq_true]
      rw [compressRpc_eq hid hidx, if_neg rpcBytes_ne_nil, ih (by exact hid),
        List.filter_cons_of_pos (by simpa using hto)]
      simp only [RpcState.sendCommand, List.map_cons, packet, List.append_assoc,
        List.singleton_append]

theorem resolveRpc_ok {methodIdx : Int}
    (h : api.resolveRpc object method s = .ok (config, methodIdx)) :
    s.repository.getId object ≠ -1 ∧ methodIdx < maxRpcMethods := by
  simp only [resolveRpc] at h
  split at h
  · cases h
  · split at h
    · cases h
    · next hid =>
      split at h
      · cases h
      · split at h
        · cases h
        · split at h
          · cases h
          · split at h
            · cases h
            · split at h
              · cases h
              · next hidx =>
                split at h
                · cases h
                · cases h
                  rw [not_or] at hidx
                  exact ⟨hid, by omega⟩

theorem resolveRpc_congr (h : s'.repository = s.repository) :
    api.resolveRpc object method s' = api.resolveRpc object method s := by
  simp only [resolveRpc, h]

omit [DecidableEq N] in
theorem methodAt_of_config
    (hc : api.data.freshConfig methodField (api.tree.script object) methodIdx = some config)
    (hmethod : api.hasMethod object config.name = true) :
    api.methodAt object methodIdx = some config := by
  cases hs : api.tree.script object with
  | none =>
    rw [hs] at hc
    cases hc
  | some script =>
    rw [hs] at hc
    simp only [methodAt, hs, hc, hmethod, ↓reduceIte]

theorem resolveRpc_once (hserver : api.isServer = true)
    (hvalid : api.isInstanceValid object = true) (hid : s.repository.getId object ≠ -1)
    (hqueued : api.isQueuedForDeletion object = false)
    (honce : api.data.OccursOnce methodField (api.tree.script object) config)
    (hidx : api.data.freshIdx methodField (api.tree.script object) config < maxRpcMethods)
    (hmethod : api.hasMethod object config.name = true) :
    api.resolveRpc object config.name s =
      .ok (config, api.data.freshIdx methodField (api.tree.script object) config) := by
  have hrange : ¬ (api.data.freshIdx methodField (api.tree.script object) config ≥ maxRpcMethods ∨
      api.data.freshIdx methodField (api.tree.script object) config = -1) := by
    have h0 := honce.inverse.1
    omega
  have hconfig : api.data.objectToConfig methodField (api.tree.script object) config.name =
      some config := honce.objectToConfig
  cases hscript : api.tree.script object with
  | none =>
    have hm := honce.mem
    rw [hscript] at hm
    cases hm
  | some script =>
    rw [hscript] at hrange hconfig
    simp only [resolveRpc, hserver, hid, hvalid, hqueued, hscript, hconfig, hrange, hmethod,
      Bool.not_true, Bool.and_false, Bool.false_eq_true, ↓reduceIte]

/-- The sender may call the method, and has room for another call of it. -/
def Allowed (api : RpcApi S N σ) (s : RpcState N σ) (fromPeer : Int) (object : N)
    (config : ReplicationMethodConfig) : Prop :=
  (api.isServer = true → config.canTheySend (api.getNodeOwner object) fromPeer = true) ∧
    (api.checkRpcRatelimit fromPeer object config s).1 = true

instance (api : RpcApi S N σ) (s : RpcState N σ) (fromPeer : Int) (object : N)
    (config : ReplicationMethodConfig) : Decidable (api.Allowed s fromPeer object config) :=
  inferInstanceAs (Decidable ((_ → _) ∧ _))

theorem checkRpcRatelimit_unlimited (api : RpcApi S N σ) (s : RpcState N σ) (peer : Int)
    (object : N) (h : config.ratelimit = 0) :
    api.checkRpcRatelimit peer object config s = (true, s) := by
  have hz : |config.ratelimit| < 1 / 100000 := by
    rw [h]
    norm_num
  rw [checkRpcRatelimit, if_pos hz]

theorem inboundRpc_rejected
    (hfound : api.findRpc id bytes s = (some (data, object, config), s))
    (h : ¬ api.Allowed s data.fromPeer object config) :
    (api.inboundRpc id bytes s).calls = s.calls ∧
      (api.inboundRpc id bytes s).commands = s.commands := by
  simp only [inboundRpc, hfound]
  split
  · exact ⟨rfl, rfl⟩
  · next hsend =>
    have hrate : (api.checkRpcRatelimit data.fromPeer object config s).1 = false := by
      rw [← Bool.not_eq_true]
      intro hr
      apply h
      apply And.intro _ hr
      intro hserver
      simpa [hserver] using hsend
    obtain ⟨_, hs⟩ := api.checkRpcRatelimit_state s data.fromPeer object config
    simp only [hrate, Bool.not_false, ↓reduceIte]
    rw [hs]
    exact ⟨rfl, rfl⟩

end RpcApi

namespace RpcWorld

open ReplicationService RpcApi

variable {S N : Type} [DecidableEq N] {w : RpcWorld S N} {T : ServerTree S N}
  {isInstanceValid : N → Bool} {peers : List Int} {s : RpcState N (ReplicationService N)}
  {id : Int}

/-- The server sends to the targets that may receive and observe the node, its sender left out.
-/
theorem outboundRpc_server {methodIdx : Int} (peer : Int) (args : List Variant)
    (hres : (w.serverApi T isInstanceValid peers).resolveRpc object method s =
      .ok (config, methodIdx))
    (hpos : ∀ p ∈ (w.serverApi T isInstanceValid peers).targetPeers peer object config, 0 < p)
    (hfrom : fromPeer = if s.srsOverride ≠ 0 then s.srsOverride else 1) :
    ∃ services, Asked T s.services services ∧
      (w.serverApi T isInstanceValid peers).outboundRpc peer object method args s =
        (.ok, (w.serverApi T isInstanceValid peers).callLocal object config args
          { s with
            services := services
            commands := s.commands ++
              (((w.serverApi T isInstanceValid peers).targetPeers peer object config).filter
                (fun p => s.services.Observes T object p ∧ p ≠ fromPeer)).map
                  ((w.serverApi T isInstanceValid peers).packet (s.repository.getId object) object
                    config methodIdx args fromPeer) }) := by
  obtain ⟨hid, hidx⟩ := resolveRpc_ok hres
  obtain ⟨htargets, hasked⟩ := targetPeerModifier_spec (T := T) fromPeer object method args
    s.services hpos
  refine ⟨_, hasked, ?_⟩
  have hfilters : (w.serverApi T isInstanceValid peers).hooks.outboundFilters = [] := rfl
  have hchannels : (w.serverApi T isInstanceValid peers).hooks.channelModifiers = [] := rfl
  have hmodifiers : (w.serverApi T isInstanceValid peers).hooks.targetPeerModifiers =
    [targetPeerModifier T] := rfl
  have hself : (w.serverApi T isInstanceValid peers).uniqueId = 1 := rfl
  simp only [outboundRpc, hres, hself, ← hfrom, hchannels, modifyChannel, hmodifiers,
    modifyTargets]
  rw [sendRpcs_spec hfilters (by exact hid) hidx, htargets, List.filter_filter]
  simp only [Bool.decide_and, Bool.and_comm]

/-- A client's call of a method is sent on to a peer: both the config that the packet names and
the one that the method's name leads to let the peer receive it, and it observes the node. -/
def SendsOn (w : RpcWorld S N) (T : ServerTree S N) (services : ReplicationService N) (object : N)
    (config config' : ReplicationMethodConfig) (fromPeer p : Int) : Prop :=
  p ≠ 1 ∧ p ≠ fromPeer ∧ config.canTheyRecv (T.getNodeOwner w.owner object) p = true ∧
    config'.canTheyRecv (T.getNodeOwner w.owner object) p = true ∧ services.Observes T object p

instance (services : ReplicationService N) (object : N)
    (config config' : ReplicationMethodConfig) (fromPeer p : Int) :
    Decidable (w.SendsOn T services object config config' fromPeer p) :=
  inferInstanceAs (Decidable (_ ∧ _ ∧ _ ∧ _ ∧ _))

/-- The packets in which a client's call goes on to those of some peers that it is sent on to. -/
def forwarded (w : RpcWorld S N) (T : ServerTree S N) (isInstanceValid : N → Bool)
    (peers : List Int) (s : RpcState N (ReplicationService N)) (fromPeer : Int) (object : N)
    (config : ReplicationMethodConfig) (args : List Variant) (audience : List Int) :
    List Command :=
  match (w.serverApi T isInstanceValid peers).resolveRpc object config.name s with
  | .error _ => []
  | .ok (config', methodIdx) =>
    (audience.filter (fun p => w.SendsOn T s.services object config config' fromPeer p)).map
      ((w.serverApi T isInstanceValid peers).packet (s.repository.getId object) object config'
        methodIdx args fromPeer)

theorem forwarded_congr {s' : RpcState N (ReplicationService N)}
    (hr : s'.repository = s.repository) (ha : Asked T s.services s'.services) :
    w.forwarded T isInstanceValid peers s' fromPeer object config args audience =
      w.forwarded T isInstanceValid peers s fromPeer object config args audience := by
  simp only [forwarded, resolveRpc_congr hr, hr]
  cases (w.serverApi T isInstanceValid peers).resolveRpc object config.name s with
  | error e => rfl
  | ok found =>
    simp only
    congr 1
    apply List.filter_congr
    intro p _
    rw [decide_eq_decide]
    simp only [SendsOn, ha.observes]

theorem targetPeers_single (w : RpcWorld S N) (T : ServerTree S N) (isInstanceValid : N → Bool)
    (peers : List Int) (object : N) (config : ReplicationMethodConfig) (hp : 0 < p) :
    (w.serverApi T isInstanceValid peers).targetPeers p object config =
      if config.canTheyRecv (T.getNodeOwner w.owner object) p then [p] else [] := by
  have hle : ¬ p ≤ 0 := by omega
  simp only [targetPeers, isServer_serverApi, ↓reduceIte, if_neg hle, List.filter_cons,
    List.filter_nil]
  rfl

theorem outboundRpc_forward (w : RpcWorld S N) (T : ServerTree S N) (isInstanceValid : N → Bool)
    (peers : List Int) (args : List Variant) (hsrs : s.srsOverride = fromPeer)
    (hfrom : 0 < fromPeer)
    (hp : 0 < p) (hrecv : config.canTheyRecv (T.getNodeOwner w.owner object) p = true)
    (hone : p ≠ 1) :
    ∃ services, Asked T s.services services ∧
      ((w.serverApi T isInstanceValid peers).outboundRpc p object config.name args s).2 =
        { s with
          services := services
          commands := s.commands ++
            w.forwarded T isInstanceValid peers s fromPeer object config args [p] } := by
  cases hres : (w.serverApi T isInstanceValid peers).resolveRpc object config.name s with
  | error e =>
    refine ⟨s.services, .refl, ?_⟩
    simp only [outboundRpc, forwarded, hres, List.append_nil]
  | ok found =>
    obtain ⟨config', methodIdx⟩ := found
    have hne : s.srsOverride ≠ 0 := by omega
    have hsend : fromPeer = if s.srsOverride ≠ 0 then s.srsOverride else 1 := by
      rw [if_pos hne, hsrs]
    have htargets := targetPeers_single w T isInstanceValid peers object config' hp
    obtain ⟨services, hasked, hout⟩ := outboundRpc_server p args hres
      (by
        intro q hq
        rw [htargets] at hq
        split at hq
        · rw [List.mem_singleton] at hq
          omega
        · cases hq) hsend
    refine ⟨services, hasked, ?_⟩
    rw [hout]
    simp only [callLocal, isClient_serverApi, Bool.false_or, hne, decide_false, Bool.and_false,
      Bool.false_eq_true, ↓reduceIte, forwarded, hres, htargets, List.filter_cons,
      List.filter_nil, SendsOn, hone, ne_eq, not_false_eq_true, hrecv, true_and]
    by_cases hc : config'.canTheyRecv (T.getNodeOwner w.owner object) p = true
    · simp only [hc, ↓reduceIte, true_and, List.filter_cons, List.filter_nil, and_comm]
    · simp only [hc, Bool.false_eq_true, ↓reduceIte, false_and, and_false, decide_false,
        List.filter_nil, List.map_nil]

theorem forwarded_cons :
    w.forwarded T isInstanceValid peers s fromPeer object config args (p :: audience) =
      w.forwarded T isInstanceValid peers s fromPeer object config args [p] ++
        w.forwarded T isInstanceValid peers s fromPeer object config args audience := by
  simp only [forwarded]
  cases (w.serverApi T isInstanceValid peers).resolveRpc object config.name s with
  | error e => rfl
  | ok found =>
    simp only [List.filter_cons, List.filter_nil]
    split <;> rfl

theorem forwarded_singleton_of_not (h : ∀ config', ¬ w.SendsOn T s.services object config config'
    fromPeer p) :
    w.forwarded T isInstanceValid peers s fromPeer object config args [p] = [] := by
  simp only [forwarded]
  cases (w.serverApi T isInstanceValid peers).resolveRpc object config.name s with
  | error e => rfl
  | ok found => simp only [List.filter_cons, List.filter_nil, h, decide_false, Bool.false_eq_true,
      ↓reduceIte, List.map_nil]

theorem forwardRpc_server (w : RpcWorld S N) (T : ServerTree S N) (isInstanceValid : N → Bool)
    (peers : List Int) (object : N) (config : ReplicationMethodConfig) (args : List Variant)
    (hsrs : s.srsOverride = fromPeer) (hfrom : 0 < fromPeer)
    (audience : List Int) (hpos : ∀ p ∈ audience, 0 < p) :
    ∃ services, Asked T s.services services ∧
      (w.serverApi T isInstanceValid peers).forwardRpc fromPeer 0 object config args audience s =
        { s with
          services := services
          commands := s.commands ++
            w.forwarded T isInstanceValid peers s fromPeer object config args audience } := by
  induction audience generalizing s with
  | nil =>
    refine ⟨s.services, .refl, ?_⟩
    simp only [forwardRpc, forwarded]
    split <;> simp
  | cons p audience ih =>
    have hp : 0 < p := hpos p List.mem_cons_self
    have hrest : ∀ q ∈ audience, 0 < q := fun q hq => hpos q (List.mem_cons_of_mem _ hq)
    have howner : (w.serverApi T isInstanceValid peers).getNodeOwner object =
      T.getNodeOwner w.owner object := rfl
    simp only [forwardRpc]
    rw [forwarded_cons]
    by_cases hskip : p = 0 ∨ p = 1 ∨ p = fromPeer
    · rw [if_pos hskip, forwarded_singleton_of_not, List.nil_append]
      · exact ih hsrs hrest
      · intro config' h
        rcases hskip with h0 | h1 | h2
        · omega
        · exact h.1 h1
        · exact h.2.1 h2
    · rw [if_neg hskip]
      simp only [gt_iff_lt, lt_irrefl, ↓reduceIte, Bool.true_and, howner]
      by_cases hrecv : config.canTheyRecv (T.getNodeOwner w.owner object) p = true
      · rw [if_pos hrecv]
        obtain ⟨services, hasked, hout⟩ :=
          outboundRpc_forward w T isInstanceValid peers args hsrs hfrom
          hp hrecv
          (fun h => hskip (.inr (.inl h)))
        rw [hout]
        obtain ⟨services', hasked', hforward⟩ := ih (s := { s with
          services := services
          commands := s.commands ++
            w.forwarded T isInstanceValid peers s fromPeer object config args [p] }) hsrs hrest
        have hsame : w.forwarded T isInstanceValid peers { s with
            services := services
            commands := s.commands ++
              w.forwarded T isInstanceValid peers s fromPeer object config args [p] }
            fromPeer object config args audience =
              w.forwarded T isInstanceValid peers s fromPeer object config args audience :=
          forwarded_congr rfl hasked
        refine ⟨services', hasked.trans hasked', ?_⟩
        rw [hforward, hsame, List.append_assoc]
      · rw [if_neg hrecv, forwarded_singleton_of_not, List.nil_append]
        · exact ih hsrs hrest
        · exact fun config' h => hrecv h.2.2.1

/-- The peers that the server may send a client's call on to. -/
def audience (T : ServerTree S N) (peers : List Int) (services : ReplicationService N)
    (object : N) (fromPeer toPeer : Int) : List Int :=
  if toPeer = 0 then peers
  else if toPeer ≠ 1 ∧ services.Observes T object fromPeer then [toPeer] else []

theorem mem_audience : p ∈ audience T peers services object fromPeer toPeer ↔
    toPeer = 0 ∧ p ∈ peers ∨
      toPeer ≠ 0 ∧ toPeer ≠ 1 ∧ services.Observes T object fromPeer ∧ p = toPeer := by
  simp only [audience]
  by_cases h0 : toPeer = 0
  · simp [h0]
  · by_cases h1 : toPeer ≠ 1 ∧ services.Observes T object fromPeer
    · simp [h0, h1]
    · have hno : ¬ (toPeer ≠ 1 ∧ services.Observes T object fromPeer ∧ p = toPeer) :=
        fun h => h1 ⟨h.1, h.2.1⟩
      simp [h0, h1, hno]

theorem forwarded_nil :
    w.forwarded T isInstanceValid peers s fromPeer object config args [] = [] := by
  simp only [forwarded]
  split
  · rfl
  · rfl

theorem routeRpc_broadcast (w : RpcWorld S N) (T : ServerTree S N) (isInstanceValid : N → Bool)
    (peers : List Int) (object : N) (config : ReplicationMethodConfig) (args : List Variant)
    (hid : 1 < id) (hpeers : ∀ p ∈ peers, 0 < p) (hremote : s.remoteSender = id) :
    ((w.serverApi T isInstanceValid peers).routeRpc id id 0 object config args s).calls =
        s.calls ++ (if config.getRecvFilterFlag .server = true then
          [⟨object, config.name, args, id⟩] else []) ∧
      ((w.serverApi T isInstanceValid peers).routeRpc id id 0 object config args s).commands =
        s.commands ++ w.forwarded T isInstanceValid peers s id object config args peers := by
  have hserver : ¬ id = 1 := by omega
  have hid0 : 0 < id := by omega
  have hz : ¬ (0 : Int) = 1 := by decide
  simp only [routeRpc, hz, hserver, ↓reduceIte, gt_iff_lt, lt_irrefl, neg_zero]
  obtain ⟨s', hs', hcalls, hrep, hserv, hcommands⟩ : ∃ s' : RpcState N (ReplicationService N),
      (if ¬ (0 : Int) = 1 ∧ config.getRecvFilterFlag .server = true then
        s.call object config.name args else s) = s' ∧
      s'.calls = s.calls ++ (if config.getRecvFilterFlag .server = true then
        [⟨object, config.name, args, id⟩] else []) ∧
      s'.repository = s.repository ∧ s'.services = s.services ∧ s'.commands = s.commands := by
    apply Exists.intro _
    apply And.intro rfl
    by_cases hflag : config.getRecvFilterFlag .server = true
    · simp only [hz, not_false_eq_true, hflag, and_self, ↓reduceIte, RpcState.call, hremote]
    · simp only [hflag, and_false, Bool.false_eq_true, ↓reduceIte, List.append_nil, and_self]
  simp only [hs']
  have hsrs : RpcState.srsOverride { s' with srsOverride := id } = id := rfl
  obtain ⟨services, _, hforward⟩ := forwardRpc_server w T isInstanceValid peers object config
    args hsrs hid0 peers hpeers
  have hsame : w.forwarded T isInstanceValid peers { s' with srsOverride := id } id object config
      args peers = w.forwarded T isInstanceValid peers s id object config args peers :=
    forwarded_congr hrep (hserv ▸ .refl)
  apply And.intro
  · exact (congrArg RpcState.calls hforward).trans hcalls
  · exact (congrArg RpcState.commands hforward).trans (by rw [hsame, hcommands])

theorem routeRpc_self (w : RpcWorld S N) (T : ServerTree S N) (isInstanceValid : N → Bool)
    (peers : List Int) (object : N) (config : ReplicationMethodConfig) (args : List Variant)
    (hremote : s.remoteSender = id) :
    ((w.serverApi T isInstanceValid peers).routeRpc id id 1 object config args s).calls =
        s.calls ++ (if config.getRecvFilterFlag .server = true then
          [⟨object, config.name, args, id⟩] else []) ∧
      ((w.serverApi T isInstanceValid peers).routeRpc id id 1 object config args s).commands =
        s.commands := by
  simp only [routeRpc, ↓reduceIte]
  by_cases hflag : config.getRecvFilterFlag .server = true
  · simp only [hflag, ↓reduceIte, RpcState.call, hremote, and_self]
  · simp only [hflag, Bool.false_eq_true, ↓reduceIte, List.append_nil, and_self]

theorem routeRpc_client (w : RpcWorld S N) (T : ServerTree S N) (isInstanceValid : N → Bool)
    (peers : List Int) (object : N) (config : ReplicationMethodConfig) (args : List Variant)
    (hid : 1 < id) (hto : 1 < toPeer) :
    ((w.serverApi T isInstanceValid peers).routeRpc id id toPeer object config args s).calls =
        s.calls ∧
      ((w.serverApi T isInstanceValid peers).routeRpc id id toPeer object config args s).commands =
        s.commands ++ w.forwarded T isInstanceValid peers s id object config args [toPeer] := by
  have hserver : ¬ id = 1 := by omega
  have hid0 : 0 < id := by omega
  have h1 : toPeer ≠ 1 := by omega
  have hpos : 0 < toPeer := by omega
  have howner : (w.serverApi T isInstanceValid peers).getNodeOwner object =
    T.getNodeOwner w.owner object := rfl
  simp only [routeRpc, h1, hserver, ↓reduceIte, gt_iff_lt, hpos, howner]
  by_cases hrecv : config.canTheyRecv (T.getNodeOwner w.owner object) toPeer = true
  · simp only [hrecv, ↓reduceIte]
    have hsrs : RpcState.srsOverride { s with srsOverride := id } = id := rfl
    obtain ⟨services, _, hout⟩ := outboundRpc_forward w T isInstanceValid peers args hsrs
      hid0 hpos hrecv h1
    have hsame : w.forwarded T isInstanceValid peers { s with srsOverride := id } id object
        config args [toPeer] =
          w.forwarded T isInstanceValid peers s id object config args [toPeer] :=
      forwarded_congr rfl .refl
    apply And.intro
    · exact (congrArg RpcState.calls hout).trans rfl
    · exact (congrArg RpcState.commands hout).trans (by rw [hsame])
  · simp only [hrecv, Bool.false_eq_true, ↓reduceIte, true_and]
    rw [forwarded_singleton_of_not (fun config' h => hrecv h.2.2.1), List.append_nil]

/-- What the server does about a client's call that it accepts: it runs the method if it is
among the targets and receives, and sends the call on. -/
theorem routeRpc_server (w : RpcWorld S N) (T : ServerTree S N) (isInstanceValid : N → Bool)
    (peers : List Int) (object : N) (config : ReplicationMethodConfig) (args : List Variant)
    (hid : 1 < id) (hto : 0 ≤ toPeer) (hpeers : ∀ p ∈ peers, 0 < p)
    (hpass : 1 < toPeer → s.services.Observes T object id)
    (hremote : s.remoteSender = id) :
    ((w.serverApi T isInstanceValid peers).routeRpc id id toPeer object config args s).calls =
        s.calls ++ (if (toPeer = 0 ∨ toPeer = 1) ∧ config.getRecvFilterFlag .server = true then
          [⟨object, config.name, args, id⟩] else []) ∧
      ((w.serverApi T isInstanceValid peers).routeRpc id id toPeer object config args s).commands =
        s.commands ++ w.forwarded T isInstanceValid peers s id object config args
          (audience T peers s.services object id toPeer) := by
  have hcases : toPeer = 0 ∨ toPeer = 1 ∨ 1 < toPeer := by omega
  rcases hcases with rfl | rfl | hgt
  · simp only [true_or, true_and, audience, ↓reduceIte]
    exact routeRpc_broadcast w T isInstanceValid peers object config args hid hpeers hremote
  · simp only [or_true, true_and, audience, one_ne_zero, ↓reduceIte, ne_eq, not_true_eq_false,
      false_and, forwarded_nil, List.append_nil]
    exact routeRpc_self w T isInstanceValid peers object config args hremote
  · have h0 : toPeer ≠ 0 := by omega
    have h1 : toPeer ≠ 1 := by omega
    have hpass' := hpass hgt
    simp only [h0, h1, or_self, false_and, ↓reduceIte, List.append_nil, audience, ne_eq,
      not_false_eq_true, hpass', and_self]
    exact routeRpc_client w T isInstanceValid peers object config args hid hgt

/-- A packet that the sender is allowed passes the filter exactly if it names no other client, or
both clients observe the node. -/
theorem inboundRpc_filtered {data : RpcData} (hid : 1 < id)
    (hfound : (w.serverApi T isInstanceValid peers).findRpc id bytes s =
      (some (data, object, config), s))
    (hallowed : (w.serverApi T isInstanceValid peers).Allowed s id object config) :
    ∃ ratelimits services, Asked T s.services services ∧
      (w.serverApi T isInstanceValid peers).inboundRpc id bytes s =
        if data.toPeer ≤ 1 ∨ s.services.Observes T object id ∧
            s.services.Observes T object data.toPeer then
          { (w.serverApi T isInstanceValid peers).routeRpc id id data.toPeer object config data.args
              { s with
                peerConfigRatelimits := ratelimits
                services := services
                remoteSender := id } with
            remoteSender := 0 }
        else { s with
          peerConfigRatelimits := ratelimits
          services := services } := by
  have hdata := (findRpc_some hfound).2.1
  rw [isClient_serverApi] at hdata
  have hfrom := (decompressRpc_server hdata).1
  obtain ⟨ratelimits, hs⟩ := (w.serverApi T isInstanceValid peers).checkRpcRatelimit_state s id
    object config
  obtain ⟨hpass, hasked⟩ := rpcFilter_spec (T := T) data.toPeer object config.name data.args
    s.services (show id ≠ 1 by omega)
  have hfilters : (w.serverApi T isInstanceValid peers).hooks.inboundFilters = [rpcFilter T] :=
    rfl
  have hsend := hallowed.1 rfl
  simp only [inboundRpc, hfound, hfrom, isServer_serverApi, hsend, Bool.not_true, Bool.and_false,
    Bool.false_eq_true, ↓reduceIte, hallowed.2, hs, hfilters, runFilters]
  rcases hrun : rpcFilter T id data.toPeer object config.name data.args s.services with
    ⟨passed, services⟩
  rw [hrun] at hpass hasked
  apply Exists.intro ratelimits
  apply Exists.intro services
  apply And.intro hasked
  cases passed with
  | true => rw [if_pos (of_decide_eq_true hpass.symm)]; rfl
  | false => rw [if_neg (of_decide_eq_false hpass.symm)]; rfl

theorem inboundRpc_accepted {data : RpcData} (hid : 1 < id) (hpeers : ∀ p ∈ peers, 0 < p)
    (hfound : (w.serverApi T isInstanceValid peers).findRpc id bytes s =
      (some (data, object, config), s))
    (hallowed : (w.serverApi T isInstanceValid peers).Allowed s id object config) :
    ((w.serverApi T isInstanceValid peers).inboundRpc id bytes s).calls =
        s.calls ++ (if (data.toPeer = 0 ∨ data.toPeer = 1) ∧
            config.getRecvFilterFlag .server = true then
          [⟨object, config.name, data.args, id⟩] else []) ∧
      ((w.serverApi T isInstanceValid peers).inboundRpc id bytes s).commands =
        s.commands ++ w.forwarded T isInstanceValid peers s id object config data.args
          (audience T peers s.services object id data.toPeer) := by
  have hdata := (findRpc_some hfound).2.1
  rw [isClient_serverApi] at hdata
  have hto := (decompressRpc_server hdata).2
  obtain ⟨ratelimits, services, hasked, hin⟩ := inboundRpc_filtered hid hfound hallowed
  rw [hin]
  by_cases hvis : data.toPeer ≤ 1 ∨ s.services.Observes T object id ∧
      s.services.Observes T object data.toPeer
  · rw [if_pos hvis]
    have hroute := routeRpc_server w T isInstanceValid peers object config data.args
      (s := { s with
        peerConfigRatelimits := ratelimits
        services := services
        remoteSender := id }) hid hto hpeers
      (fun h => hasked.observes.2 (hvis.resolve_left (by omega)).1) rfl
    have hsame : w.forwarded T isInstanceValid peers { s with
        peerConfigRatelimits := ratelimits
        services := services
        remoteSender := id } id object config data.args
          (audience T peers services object id data.toPeer) =
        w.forwarded T isInstanceValid peers s id object config data.args
          (audience T peers services object id data.toPeer) :=
      forwarded_congr rfl hasked
    have haudience : audience T peers services object id data.toPeer =
        audience T peers s.services object id data.toPeer := by
      simp only [audience, hasked.observes]
    rw [← haudience, ← hsame]
    exact hroute
  · rw [if_neg hvis]
    rw [not_or] at hvis
    have h0 : data.toPeer ≠ 0 := by omega
    have h1 : data.toPeer ≠ 1 := by omega
    simp only [h0, h1, or_self, false_and, ↓reduceIte, List.append_nil, audience, ne_eq,
      not_false_eq_true, true_and]
    split
    · next hobs =>
      rw [forwarded_singleton_of_not (fun config' h => hvis.2 ⟨hobs, h.2.2.2.2⟩), List.append_nil]
    · rw [forwarded_nil, List.append_nil]

theorem sendRpcs_services (targets : List Int) :
    ((w.serverApi T isInstanceValid peers).sendRpcs fromPeer object method methodIdx args mode
      channel targets s).services = s.services := by
  have hfilters : (w.serverApi T isInstanceValid peers).hooks.outboundFilters = [] := rfl
  induction targets generalizing s with
  | nil => rfl
  | cons p targets ih =>
    simp only [sendRpcs, hfilters, runFilters, Bool.not_true, Bool.false_eq_true, ↓reduceIte]
    split
    · exact ih
    · split
      · exact ih
      · exact ih

theorem callLocal_services : ((w.serverApi T isInstanceValid peers).callLocal object config args
    s).services = s.services := by
  simp only [callLocal]
  split
  · rfl
  · rfl

theorem asked_outboundRpc : Asked T s.services
    ((w.serverApi T isInstanceValid peers).outboundRpc peer object method args s).2.services := by
  cases hres : (w.serverApi T isInstanceValid peers).resolveRpc object method s with
  | error e =>
    simp only [outboundRpc, hres]
    exact .refl
  | ok found =>
    have hchannels : (w.serverApi T isInstanceValid peers).hooks.channelModifiers = [] := rfl
    have hmodifiers : (w.serverApi T isInstanceValid peers).hooks.targetPeerModifiers =
      [targetPeerModifier T] := rfl
    simp only [outboundRpc, hres, hchannels, modifyChannel, hmodifiers, modifyTargets,
      callLocal_services, sendRpcs_services]
    exact asked_targetPeerModifier

theorem asked_runFilters : Asked T services
    (runFilters fromPeer toPeer object method args
      (w.serverApi T isInstanceValid peers).hooks.inboundFilters services).2 := by
  have hfilters : (w.serverApi T isInstanceValid peers).hooks.inboundFilters = [rpcFilter T] :=
    rfl
  simp only [hfilters, runFilters]
  have h : Asked T services (rpcFilter T fromPeer toPeer object method args services).2 :=
    asked_rpcFilter
  split
  · next he =>
    rw [he] at h
    exact h
  · next he =>
    rw [he] at h
    exact h

theorem asked_forwardRpc (audience : List Int) : Asked T s.services
    ((w.serverApi T isInstanceValid peers).forwardRpc fromPeer skipPeer object config args audience
      s).services := by
  induction audience generalizing s with
  | nil => exact .refl
  | cons p audience ih =>
    have hfilter : Asked T s.services (if skipPeer > 0 then
        runFilters fromPeer p object config.name args
          (w.serverApi T isInstanceValid peers).hooks.inboundFilters s.services
        else (true, s.services)).2 := by
      split
      · exact asked_runFilters
      · exact .refl
    simp only [forwardRpc]
    generalize (if skipPeer > 0 then
        runFilters fromPeer p object config.name args
          (w.serverApi T isInstanceValid peers).hooks.inboundFilters s.services
        else (true, s.services)) = filtered at hfilter ⊢
    obtain ⟨passed, services⟩ := filtered
    split
    · exact ih
    · split
      · refine .trans (hfilter.trans ?_) ih
        exact asked_outboundRpc (s := { s with services := services })
      · refine .trans hfilter ?_
        exact ih (s := { s with services := services })

theorem asked_routeRpc : Asked T s.services
    ((w.serverApi T isInstanceValid peers).routeRpc id fromPeer toPeer object config args
      s).services := by
  simp only [routeRpc]
  by_cases h1 : toPeer = 1
  · rw [if_pos h1]
    split
    · exact .refl
    · exact .refl
  · rw [if_neg h1]
    by_cases h2 : id = 1
    · rw [if_pos h2]
      exact .refl
    · rw [if_neg h2]
      by_cases h3 : toPeer > 0
      · rw [if_pos h3]
        split
        · refine .trans ?_ asked_outboundRpc
          exact .refl
        · exact .refl
      · rw [if_neg h3]
        refine .trans ?_ (asked_forwardRpc _)
        split
        · exact .refl
        · exact .refl

theorem findRpc_services :
    ((w.serverApi T isInstanceValid peers).findRpc id bytes s).2.services = s.services := by
  simp only [findRpc]
  split
  · rfl
  · split
    · rfl
    · split
      · rfl
      · rfl

theorem asked_inboundRpc : Asked T s.services
    ((w.serverApi T isInstanceValid peers).inboundRpc id bytes s).services := by
  have hs' : ((w.serverApi T isInstanceValid peers).findRpc id bytes s).2.services = s.services :=
    findRpc_services
  rcases hfind : (w.serverApi T isInstanceValid peers).findRpc id bytes s with ⟨found, s'⟩
  rw [hfind] at hs'
  rw [← hs']
  cases found with
  | none =>
    simp only [inboundRpc, hfind]
    exact .refl
  | some found =>
    obtain ⟨data, object, config⟩ := found
    obtain ⟨ratelimits, hrate⟩ := (w.serverApi T isInstanceValid peers).checkRpcRatelimit_state s'
      data.fromPeer object config
    simp only [inboundRpc, hfind, hrate]
    split
    · exact .refl
    · split
      · exact .refl
      · split
        · exact asked_runFilters
        · refine .trans ?_ asked_routeRpc
          exact asked_runFilters

end RpcWorld

def pingWorld : RpcWorld Unit SmallNode where
  data := pingData
  codec := intArrayCodec
  owner := fun _ => none
  hasMethod := fun _ method => method = "ping"
  isQueuedForDeletion := fun _ => false
  objectChannels := fun _ => none
  time := 0

end Godaemon
