import Godaemon.Lib.Runs
import Godaemon.Api.Rpc

namespace Godaemon
set_option autoImplicit true

namespace RpcApi

variable {S N σ : Type} [DecidableEq N] {api : RpcApi S N σ} {s s' s'' : RpcState N σ} {id : Int}

/-- All methods that run on the way from one state to the other run on one object. -/
def RunsOn (object : N) (s s' : RpcState N σ) : Prop :=
  ∀ call ∈ s'.calls, call ∈ s.calls ∨ call.object = object

omit [DecidableEq N] in
theorem RunsOn.of_eq (h : s'.calls = s.calls) : RunsOn object s s' := by
  intro call hc
  rw [h] at hc
  exact .inl hc

omit [DecidableEq N] in
theorem RunsOn.refl : RunsOn object s s := .of_eq rfl

omit [DecidableEq N] in
theorem RunsOn.trans (h : RunsOn object s s') (h' : RunsOn object s' s'') :
    RunsOn object s s'' := by
  intro call hc
  rcases h' call hc with hc | hc
  · exact h call hc
  · exact .inr hc

omit [DecidableEq N] in
theorem runsOn_call : RunsOn object s (s.call object method args) := by
  intro call hc
  rw [RpcState.call, List.mem_append, List.mem_singleton] at hc
  rcases hc with hc | rfl
  · exact .inl hc
  · exact .inr rfl

theorem calls_sendRpcs (targets : List Int) :
    (api.sendRpcs fromPeer object method methodIdx args mode channel targets s).calls =
      s.calls := by
  induction targets generalizing s with
  | nil => rfl
  | cons p targets ih =>
    simp only [sendRpcs]
    split
    · exact ih
    · split
      · exact ih
      · split
        · exact ih
        · exact ih

omit [DecidableEq N] in
theorem runsOn_callLocal (api : RpcApi S N σ) (s : RpcState N σ) :
    RunsOn object s (api.callLocal object config args s) := by
  simp only [callLocal]
  split
  · exact runsOn_call (s := { s with
      remoteSender := api.uniqueId })
  · exact .refl

theorem runsOn_outboundRpc :
    RunsOn object s (api.outboundRpc peer object method args s).2 := by
  cases hres : api.resolveRpc object method s with
  | error e =>
    simp only [outboundRpc, hres]
    exact .refl
  | ok found =>
    simp only [outboundRpc, hres]
    refine .trans ?_ (runsOn_callLocal api _)
    exact .of_eq (calls_sendRpcs _)

theorem runsOn_forwardRpc (audience : List Int) :
    RunsOn object s (api.forwardRpc fromPeer skipPeer object config args audience s) := by
  induction audience generalizing s with
  | nil => exact .refl
  | cons p audience ih =>
    simp only [forwardRpc]
    generalize (if skipPeer > 0 then runFilters fromPeer p object config.name args
      api.hooks.inboundFilters s.services else (true, s.services)) = filtered
    split
    · exact ih
    · split
      · refine .trans ?_ ih
        exact runsOn_outboundRpc (s := { s with
          services := filtered.2 })
      · exact ih (s := { s with
          services := filtered.2 })

theorem runsOn_routeRpc :
    RunsOn object s (api.routeRpc id fromPeer toPeer object config args s) := by
  simp only [routeRpc]
  by_cases h1 : toPeer = 1
  · rw [if_pos h1]
    split
    · exact runsOn_call
    · exact .refl
  · rw [if_neg h1]
    by_cases h2 : id = 1
    · rw [if_pos h2]
      exact runsOn_call
    · rw [if_neg h2]
      by_cases h3 : toPeer > 0
      · rw [if_pos h3]
        split
        · exact runsOn_outboundRpc (s := { s with
            srsOverride := fromPeer })
        · exact .refl
      · rw [if_neg h3]
        refine .trans ?_ (runsOn_forwardRpc _)
        split
        · exact runsOn_call
        · exact .refl

theorem runsOn_inboundRpc {data : RpcData}
    (h : api.findRpc id bytes s = (some (data, object, config), s')) :
    RunsOn object s' (api.inboundRpc id bytes s) := by
  obtain ⟨ratelimits, hrate⟩ := api.checkRpcRatelimit_state s' data.fromPeer object config
  simp only [inboundRpc, h, hrate]
  split
  · exact .refl
  · split
    · exact .refl
    · split
      · exact .refl
      · refine .trans ?_ runsOn_routeRpc
        exact .refl

theorem object_of_inboundRpc (hs : s.calls = []) (hc : call ∈ (api.inboundRpc id bytes s).calls) :
    ∃ data, decompressRpc api.codec api.isClient id bytes = some data ∧
      (s.repository.getObject api.isInstanceValid data.objectId).1 = some call.object := by
  cases hdata : decompressRpc api.codec api.isClient id bytes with
  | none =>
    simp only [inboundRpc, findRpc, hdata, hs] at hc
    cases hc
  | some data =>
    refine ⟨data, rfl, ?_⟩
    cases hobject : (s.repository.getObject api.isInstanceValid data.objectId).1 with
    | none =>
      simp only [inboundRpc, findRpc, hdata, hobject, hs] at hc
      cases hc
    | some object =>
      have hfind := findRpc_of_object api s hdata hobject
      cases hmethod : api.methodAt object data.methodIdx with
      | none =>
        rw [hmethod, Option.map_none] at hfind
        simp only [inboundRpc, hfind, hs] at hc
        cases hc
      | some config =>
        rw [hmethod, Option.map_some] at hfind
        rcases runsOn_inboundRpc hfind call hc with hc | he
        · rw [hs] at hc
          cases hc
        · rw [he]

end RpcApi

/-- A packet on its way from a client to the server. It carries the id that the node that it was
addressed to had when it was sent. -/
structure InFlight (N : Type) where
  client : ClientPeer
  node : N
  objectId : Int
  bytes : List UInt8
  carries : ∀ codec data, decompressRpc codec false client bytes = some data →
    data.objectId = objectId

/-- The objects of the server, the packets on their way, and what packets have run so far: the
node that each was addressed to, and the node that it ran on. -/
structure ObjectHistory (N : Type) [DecidableEq N] where
  repository : Repository N
  coherent : repository.Coherent
  inFlight : List (InFlight N)
  executed : List (N × N)

/-- What can happen to the objects and the packets. Packets arrive in any order, and in any
state of the rest of the server. -/
inductive ObjectEvent (S N σ : Type) where
  | create (node : N)
  | destroy (node : N)
  | send (client : ClientPeer) (codec : VariantCodec) (node : N) (toPeer methodIdx : Int)
    (args : List Variant)
  | deliver (k : Nat) (api : RpcApi S N σ) (ratelimits : Ratelimits N) (services : σ)

namespace ObjectHistory

variable {S N σ : Type} [DecidableEq N]

def start : ObjectHistory N := ⟨.new, .new, [], []⟩

instance (r : Repository N) (node : N) : Decidable (r.CanAdd node) :=
  inferInstanceAs (Decidable (_ ∧ _))

theorem carries_getId {r : Repository N} (hr : r.Coherent) (hnode : node ∈ r.objectToId)
    (client : ClientPeer) {codec : VariantCodec} {args : List Variant}
    (hbytes : compressRpc codec false client toPeer (r.getId node) methodIdx args ≠ [])
    (codec' : VariantCodec) (data : RpcData) (h : decompressRpc codec' false client
      (compressRpc codec false client toPeer (r.getId node) methodIdx args) = some data) :
    data.objectId = r.getId node := by
  obtain ⟨h0, h1, _⟩ := hr.getId_of_mem hnode
  rw [compressRpc_of_ne_nil hbytes] at h
  rw [(target_of_decompressRpc h).2]
  rw [maxId_eq] at h1
  exact Bytes.residue_of_nonneg h0 (by omega)

/-- One event. A node is taken out of the repository before it is freed, so that registered nodes
are valid. -/
def step (s : ObjectHistory N) : ObjectEvent S N σ → ObjectHistory N
  | .create node =>
    if h : s.repository.CanAdd node then
      { s with
        repository := (s.repository.addObject node).2
        coherent := s.coherent.addObject h }
    else s
  | .destroy node =>
    if h : node ∈ s.repository.objectToId then
      { s with
        repository := s.repository.removeObject node
        coherent := s.coherent.removeObject h }
    else s
  | .send client codec node toPeer methodIdx args =>
    if h : node ∈ s.repository.objectToId then
      if hbytes : compressRpc codec false client toPeer (s.repository.getId node) methodIdx args =
          [] then s
      else
        { s with
          inFlight := s.inFlight ++ [{
            client := client
            node := node
            objectId := s.repository.getId node
            bytes := compressRpc codec false client toPeer (s.repository.getId node) methodIdx args
            carries := carries_getId s.coherent h client hbytes }] }
    else s
  | .deliver k api ratelimits services =>
    match s.inFlight[k]? with
    | none => s
    | some packet =>
      let rpc := { api with
        uniqueId := 1
        isInstanceValid := fun _ => true }.inboundRpc packet.client packet.bytes
          (.idle s.repository ratelimits services)
      { s with
        inFlight := s.inFlight.eraseIdx k
        executed := s.executed ++ rpc.calls.map (fun call => (packet.node, call.object)) }

/-- Everything has run on the node that it was addressed to. -/
def Delivered (s : ObjectHistory N) : Prop := ∀ e ∈ s.executed, e.2 = e.1

/-- No packet on its way names an id that belongs to another node by now. -/
def Aimed (s : ObjectHistory N) : Prop :=
  ∀ packet ∈ s.inFlight, ∀ n, s.repository.idToObject.get? packet.objectId = some n →
    n = packet.node

/-- A new node gets no id that a packet to another node is on its way with. -/
def FreshId (s : ObjectHistory N) : ObjectEvent S N σ → Prop
  | .create node => s.repository.CanAdd node → ∀ packet ∈ s.inFlight,
    packet.objectId = s.repository.allocatedId → packet.node = node
  | _ => True

variable {s : ObjectHistory N}

theorem aimed_create (hs : s.Aimed) (hadd : s.repository.CanAdd node) :
    (step s (.create node : ObjectEvent S N σ)).Aimed ↔
      ∀ packet ∈ s.inFlight, packet.objectId = s.repository.allocatedId → packet.node = node := by
  simp only [step, dif_pos hadd, Aimed, Repository.addObject, ↓reduceIte, Dict.get?_set]
  constructor
  · intro h packet hp hid
    exact (h packet hp node (if_pos hid)).symm
  · intro h packet hp n hn
    split at hn
    · next hid =>
      cases hn
      exact (h packet hp hid).symm
    · exact hs packet hp n hn

theorem aimed_destroy (hs : s.Aimed) : (step s (.destroy node : ObjectEvent S N σ)).Aimed := by
  simp only [step]
  split
  · next hnode =>
    obtain ⟨id, hid⟩ := (Dict.mem_iff_get? _).1 hnode
    intro packet hp n hn
    simp only [Repository.removeObject, hid, Dict.get?_erase] at hn
    split at hn
    · cases hn
    · exact hs packet hp n hn
  · exact hs

theorem aimed_send (hs : s.Aimed) :
    (step s (.send client codec node toPeer methodIdx args : ObjectEvent S N σ)).Aimed := by
  simp only [step]
  split
  · next hnode =>
    split
    · exact hs
    · intro packet hp n hn
      rw [List.mem_append, List.mem_singleton] at hp
      rcases hp with hp | rfl
      · exact hs packet hp n hn
      · rw [(s.coherent.getId_of_mem hnode).2.2] at hn
        exact (Option.some.inj hn).symm
  · exact hs

theorem delivered_deliver (hs : s.Delivered ∧ s.Aimed) :
    (step s (.deliver k api ratelimits services : ObjectEvent S N σ)).Delivered ∧
      (step s (.deliver k api ratelimits services : ObjectEvent S N σ)).Aimed := by
  simp only [step]
  cases hk : s.inFlight[k]? with
  | none => exact hs
  | some packet =>
    have hmem : packet ∈ s.inFlight := List.mem_of_getElem? hk
    constructor
    · intro e he
      rcases List.mem_append.1 he with he | he
      · exact hs.1 e he
      · obtain ⟨call, hcall, rfl⟩ := List.mem_map.1 he
        obtain ⟨data, hdata, hobject⟩ := RpcApi.object_of_inboundRpc rfl hcall
        have hget := (Repository.getObject_of_some hobject).2
        rw [packet.carries _ data hdata] at hget
        exact hs.2 packet hmem _ hget
    · intro other hp n hn
      exact hs.2 other (List.mem_of_mem_eraseIdx hp) n hn

theorem step_iff (s : ObjectHistory N) (e : ObjectEvent S N σ) (hs : s.Delivered ∧ s.Aimed) :
    ((step s e).Delivered ∧ (step s e).Aimed) ↔ s.FreshId e := by
  cases e with
  | create node =>
    by_cases hadd : s.repository.CanAdd node
    · have hdelivered : (step s (.create node : ObjectEvent S N σ)).Delivered := by
        simp only [step, dif_pos hadd]
        exact hs.1
      simp only [hdelivered, true_and, aimed_create hs.2 hadd, FreshId, hadd, forall_const]
    · have hstep : step s (.create node : ObjectEvent S N σ) = s := by
        simp only [step, dif_neg hadd]
      rw [hstep]
      exact iff_of_true hs (fun h => absurd h hadd)
  | destroy node =>
    have hdelivered : (step s (.destroy node : ObjectEvent S N σ)).Delivered := by
      simp only [step]
      split
      · exact hs.1
      · exact hs.1
    exact iff_of_true ⟨hdelivered, aimed_destroy hs.2⟩ trivial
  | send client codec node toPeer methodIdx args =>
    have hdelivered : (step s (.send client codec node toPeer methodIdx args :
        ObjectEvent S N σ)).Delivered := by
      simp only [step]
      split
      · split
        · exact hs.1
        · exact hs.1
      · exact hs.1
    exact iff_of_true ⟨hdelivered, aimed_send hs.2⟩ trivial
  | deliver k api ratelimits services => exact iff_of_true (delivered_deliver hs) trivial

open Runs in
/-- Packets run only on the nodes that they were addressed to, and stay aimed at them, exactly in
the runs in which no new node gets an id that a packet to another node is on its way with. -/
theorem delivered_iff (events : List (ObjectEvent S N σ)) :
    Always step (fun s : ObjectHistory N => s.Delivered ∧ s.Aimed) .start events ↔
      Guarded step FreshId (.start : ObjectHistory N) events := by
  apply always_iff_guarded (I := fun _ => True)
  · intro s e _ _ _
    trivial
  · intro s e _ hs
    exact step_iff s e hs
  · trivial
  · constructor
    · intro e he
      cases he
    · intro packet hp
      cases hp

/-- The RPC layer of a server with one client. -/
def pingApi : RpcApi Unit SmallNode Unit where
  uniqueId := 1
  peers := [2]
  tree := (smallTree fun _ => some ()).toSceneTree
  owner := fun _ => none
  data := pingData
  codec := intArrayCodec
  hasMethod := fun _ method => method = "ping"
  isInstanceValid := fun _ => true
  isQueuedForDeletion := fun _ => false
  objectChannels := fun _ => none
  time := 0
  hooks := {}

/-- A client calls a method on a scene; before the call arrives the scene is destroyed and an
actor is created, which gets the scene's id and the call. -/
theorem delivered_to_actor :
    ¬ Runs.Always step (fun s : ObjectHistory SmallNode => s.Delivered) .start
      [.create .root, .create .scene,
        .send .two intArrayCodec .scene 1 0 [],
        .destroy .scene, .create .actor, .deliver 0 pingApi .empty ()] := by
  intro h
  have hlast := h.last
  have hrun : (.scene, .actor) ∈ (Runs.run step (.start : ObjectHistory SmallNode)
      [.create .root, .create .scene,
        .send .two intArrayCodec .scene 1 0 [],
        .destroy .scene, .create .actor, .deliver 0 pingApi .empty ()]).executed := by
    decide +kernel
  cases hlast _ hrun

end ObjectHistory

end Godaemon
