import Godaemon.Api.IdReuse
import Godaemon.Lib.Runs

namespace Godaemon
set_option autoImplicit true

/-- What a handler does, from its beginning to its end: it asks who called it, sends RPCs, and
changes what is around the RPC layer. With each send stands what the method does here, should the
send call it locally. -/
inductive Activity (S N σ : Type) where
  | done
  | read (next : Activity S N σ)
  | send (peer : Int) (object : N) (method : String) (args : List Variant)
    (handler next : Activity S N σ)
  | elsewhere (api : RpcApi S N σ) (repository : Repository N) (ratelimits : Ratelimits N)
    (services : σ) (next : Activity S N σ)

/-- A call of `outbound_rpc`: what it was called with and in, and the remote sender when it
returned. -/
structure OutboundRpc (S N σ : Type) where
  api : RpcApi S N σ
  peer : Int
  object : N
  method : String
  args : List Variant
  entry : RpcState N σ
  remoteSender : Int

/-- The RPC layer of a peer, whose handlers call it again: the calls of `outbound_rpc` that have
returned, and what handlers read as the remote sender, each with what it was when the handler
started. -/
structure RpcLayer (S N σ : Type) where
  api : RpcApi S N σ
  state : RpcState N σ
  sends : List (OutboundRpc S N σ)
  reads : List (Int × Int)

namespace RpcApi

variable {S N σ : Type} [DecidableEq N] (api : RpcApi S N σ)

/-- The part of `outbound_rpc` before the local call. -/
def sendOut (peer : Int) (object : N) (method : String) (config : ReplicationMethodConfig)
    (methodIdx : Int) (args : List Variant) (s : RpcState N σ) : RpcState N σ :=
  let fromPeer := if s.srsOverride ≠ 0 then s.srsOverride else api.uniqueId
  let mode := config.getTransferMode
  let (channel, services) := modifyChannel object mode api.hooks.channelModifiers
    ((api.objectChannels object).getD 0) s.services
  let (targetPeers, services) := modifyTargets fromPeer object method args
    api.hooks.targetPeerModifiers (api.targetPeers peer object config) services
  api.sendRpcs fromPeer object method methodIdx args mode channel targetPeers
    { s with services := services }

theorem outboundRpc_eq (peer : Int) (object : N) (method : String) (args : List Variant)
    (s : RpcState N σ) :
    api.outboundRpc peer object method args s =
      match api.resolveRpc object method s with
      | .error error => (error, s)
      | .ok (config, methodIdx) =>
        (.ok, api.callLocal object config args
          (api.sendOut peer object method config methodIdx args s)) := rfl

end RpcApi

namespace RpcLayer

variable {S N σ : Type} [DecidableEq N]

def setRemoteSender (peer : Int) (l : RpcLayer S N σ) : RpcLayer S N σ :=
  { l with state := { l.state with remoteSender := peer } }

def setSrsOverride (peer : Int) (l : RpcLayer S N σ) : RpcLayer S N σ :=
  { l with state := { l.state with srsOverride := peer } }

/-- Run a method, whose body is the handler. -/
def call (object : N) (method : String) (args : List Variant)
    (handler : RpcLayer S N σ → RpcLayer S N σ) (l : RpcLayer S N σ) : RpcLayer S N σ :=
  handler { l with state := l.state.call object method args }

def callLocal (object : N) (config : ReplicationMethodConfig) (args : List Variant)
    (handler : RpcLayer S N σ → RpcLayer S N σ) (l : RpcLayer S N σ) : RpcLayer S N σ :=
  if config.getCallLocal && (l.api.isClient || l.state.srsOverride = 0) then
    setRemoteSender 0 (call object config.name args handler (l.setRemoteSender l.api.uniqueId))
  else l

def sendRpc (peer : Int) (object : N) (method : String) (args : List Variant)
    (handler : RpcLayer S N σ → RpcLayer S N σ) (l : RpcLayer S N σ) : Error × RpcLayer S N σ :=
  match l.api.resolveRpc object method l.state with
  | .error error => (error, l)
  | .ok (config, methodIdx) =>
    (.ok, callLocal object config args handler
      { l with state := l.api.sendOut peer object method config methodIdx args l.state })

/-- A send is noted when it returns. One that waits for the id of its object returns at once, and
its rest is a send of its own. -/
def outboundRpc (peer : Int) (object : N) (method : String) (args : List Variant)
    (handler : RpcLayer S N σ → RpcLayer S N σ) (l : RpcLayer S N σ) : Error × RpcLayer S N σ :=
  let (error, l') := sendRpc peer object method args handler l
  (error, { l' with
    sends := l'.sends ++ [⟨l.api, peer, object, method, args, l.state, l'.state.remoteSender⟩] })

end RpcLayer

namespace Activity

variable {S N σ : Type} [DecidableEq N]

def run : Activity S N σ → Int → RpcLayer S N σ → RpcLayer S N σ
  | .done, _, l => l
  | .read next, started, l =>
    next.run started { l with reads := l.reads ++ [(started, l.state.remoteSender)] }
  | .send peer object method args handler next, started, l =>
    next.run started (l.outboundRpc peer object method args
      (fun l => handler.run l.state.remoteSender l)).2
  | .elsewhere api repository ratelimits services next, started, l =>
    next.run started { l with
      api := api
      state := { l.state with
        repository := repository
        peerConfigRatelimits := ratelimits
        services := services } }

/-- A handler starts with the remote sender of the moment. -/
def handle (a : Activity S N σ) (l : RpcLayer S N σ) : RpcLayer S N σ :=
  a.run l.state.remoteSender l

end Activity

namespace RpcLayer

variable {S N σ : Type} [DecidableEq N]

/-- Send a broadcast on, where each forwarded call may run here as well. -/
def forwardRpc (fromPeer skipPeer : Int) (object : N) (config : ReplicationMethodConfig)
    (args : List Variant) (handlers : Int → Activity S N σ) :
    List Int → RpcLayer S N σ → RpcLayer S N σ
  | [], l => l
  | p :: peers, l =>
    if p = skipPeer ∨ p = 1 ∨ p = fromPeer then
      forwardRpc fromPeer skipPeer object config args handlers peers l
    else
      let (passed, services) :=
        if skipPeer > 0 then
          RpcApi.runFilters fromPeer p object config.name args l.api.hooks.inboundFilters
            l.state.services
        else (true, l.state.services)
      let l := { l with state := { l.state with services := services } }
      if passed && config.canTheyRecv (l.api.getNodeOwner object) p then
        forwardRpc fromPeer skipPeer object config args handlers peers
          (l.outboundRpc p object config.name args (handlers p).handle).2
      else forwardRpc fromPeer skipPeer object config args handlers peers l

def routeRpc (id fromPeer toPeer : Int) (object : N) (config : ReplicationMethodConfig)
    (args : List Variant) (handler : Activity S N σ) (handlers : Int → Activity S N σ)
    (l : RpcLayer S N σ) : RpcLayer S N σ :=
  if toPeer = 1 then
    if config.getRecvFilterFlag .server then l.call object config.name args handler.handle else l
  else if id = 1 then l.call object config.name args handler.handle
  else if toPeer > 0 then
    if config.canTheyRecv (l.api.getNodeOwner object) toPeer then
      setSrsOverride 0 ((l.setSrsOverride fromPeer).outboundRpc toPeer object config.name args
        (handlers toPeer).handle).2
    else l
  else
    let skipPeer := -toPeer
    let l :=
      if skipPeer ≠ 1 ∧ config.getRecvFilterFlag .server = true then
        l.call object config.name args handler.handle
      else l
    setSrsOverride 0 (forwardRpc fromPeer skipPeer object config args handlers l.api.peers
      (l.setSrsOverride fromPeer))

/-- `handler` is what the method does if the packet runs it, `handlers` what it does if the packet
is sent on and the call also made locally. -/
def inboundRpc (id : Int) (bytes : List UInt8) (handler : Activity S N σ)
    (handlers : Int → Activity S N σ) (l : RpcLayer S N σ) : RpcLayer S N σ :=
  match l.api.findRpc id bytes l.state with
  | (none, s) => { l with state := s }
  | (some (data, object, config), s) =>
    if l.api.isServer && !config.canTheySend (l.api.getNodeOwner object) data.fromPeer then
      { l with state := s }
    else
      let (passed, s) := l.api.checkRpcRatelimit data.fromPeer object config s
      if !passed then { l with state := s }
      else
        let (passed, services) := RpcApi.runFilters data.fromPeer data.toPeer object config.name
          data.args l.api.hooks.inboundFilters s.services
        let l := { l with state := { s with services := services } }
        if !passed then l
        else
          setRemoteSender 0 (routeRpc id data.fromPeer data.toPeer object config data.args handler
            handlers (l.setRemoteSender data.fromPeer))

end RpcLayer

/-- What starts in the RPC layer: a packet arrives, or other code runs, which may send RPCs. -/
inductive RpcInput (S N σ : Type) where
  | packet (id : Int) (bytes : List UInt8) (handler : Activity S N σ)
    (handlers : Int → Activity S N σ)
  | code (activity : Activity S N σ)

namespace RpcLayer

variable {S N σ : Type} [DecidableEq N]

def step (l : RpcLayer S N σ) : RpcInput S N σ → RpcLayer S N σ
  | .packet id bytes handler handlers =>
    if bytes.getLast? = some NetCommand.rpc.byte then
      l.inboundRpc id bytes.dropLast handler handlers
    else l
  | .code activity => activity.handle l

def start (api : RpcApi S N σ) (repository : Repository N) (ratelimits : Ratelimits N)
    (services : σ) : RpcLayer S N σ :=
  ⟨api, .idle repository ratelimits services, [], []⟩

/-- Nothing is being handled, and both fields say so. -/
def Idle (l : RpcLayer S N σ) : Prop := l.state.remoteSender = 0 ∧ l.state.srsOverride = 0

end RpcLayer

namespace OutboundRpc

variable {S N σ : Type} [DecidableEq N] (r : OutboundRpc S N σ)

/-- The remote sender is on return what it was on entry. -/
def Kept : Prop := r.remoteSender = r.entry.remoteSender

/-- The call gets as far as running the method locally. -/
def MakesLocalCall : Prop :=
  ∃ config methodIdx, r.api.resolveRpc r.object r.method r.entry = .ok (config, methodIdx) ∧
    (config.getCallLocal && (r.api.isClient || r.entry.srsOverride = 0)) = true

/-- After a local call the remote sender is 0; otherwise it is kept. -/
def Zeroes : Prop :=
  (r.MakesLocalCall → r.remoteSender = 0) ∧ (¬ r.MakesLocalCall → r.Kept)

variable {r}

theorem Zeroes.kept_iff (h : r.Zeroes) :
    r.Kept ↔ (r.MakesLocalCall → r.entry.remoteSender = 0) := by
  by_cases hlocal : r.MakesLocalCall
  · rw [Kept, h.1 hlocal]
    exact ⟨fun hk _ => hk.symm, fun hk => (hk hlocal).symm⟩
  · exact iff_of_true (h.2 hlocal) (fun hl => absurd hl hlocal)

end OutboundRpc

namespace RpcApi

variable {S N σ : Type} [DecidableEq N] (api : RpcApi S N σ)

theorem sendRpcs_senders (fromPeer : Int) (object : N) (method : String) (methodIdx : Int)
    (args : List Variant) (mode : TransferMode) (channel : Int) (targets : List Int)
    (s : RpcState N σ) :
    let s' := api.sendRpcs fromPeer object method methodIdx args mode channel targets s
    s'.remoteSender = s.remoteSender ∧ s'.srsOverride = s.srsOverride := by
  induction targets generalizing s with
  | nil => exact ⟨rfl, rfl⟩
  | cons toPeer targets ih =>
    simp only [sendRpcs]
    split
    · exact ih s
    · split
      · exact ih _
      · split
        · exact ih _
        · exact ih _

theorem sendOut_senders (peer : Int) (object : N) (method : String)
    (config : ReplicationMethodConfig) (methodIdx : Int) (args : List Variant)
    (s : RpcState N σ) :
    (api.sendOut peer object method config methodIdx args s).remoteSender = s.remoteSender ∧
      (api.sendOut peer object method config methodIdx args s).srsOverride = s.srsOverride :=
  api.sendRpcs_senders _ _ _ _ _ _ _ _ _

omit [DecidableEq N] in
theorem findRpc_state (id : Int) (bytes : List UInt8) (s : RpcState N σ) : ∃ repository,
    (api.findRpc id bytes s).2 = { s with repository := repository } := by
  simp only [findRpc]
  split
  · exact ⟨_, rfl⟩
  · split
    · exact ⟨_, rfl⟩
    · split
      · exact ⟨_, rfl⟩
      · exact ⟨_, rfl⟩

end RpcApi

namespace RpcLayer

variable {S N σ : Type} [DecidableEq N]

variable {l : RpcLayer S N σ}

theorem outboundRpc_done (peer : Int) (object : N) (method : String) (args : List Variant)
    (l : RpcLayer S N σ) :
    let result := l.outboundRpc peer object method args Activity.done.handle
    result.2.api = l.api ∧
      (result.1, result.2.state) = l.api.outboundRpc peer object method args l.state := by
  rw [RpcApi.outboundRpc_eq]
  simp only [outboundRpc, sendRpc]
  split
  · exact ⟨rfl, rfl⟩
  · simp only [callLocal, RpcApi.callLocal]
    split
    · exact ⟨rfl, rfl⟩
    · exact ⟨rfl, rfl⟩

theorem forwardRpc_done (fromPeer skipPeer : Int) (object : N) (config : ReplicationMethodConfig)
    (args : List Variant) (peers : List Int) (l : RpcLayer S N σ) :
    let l' := l.forwardRpc fromPeer skipPeer object config args (fun _ => .done) peers
    l'.api = l.api ∧
      l'.state = l.api.forwardRpc fromPeer skipPeer object config args peers l.state := by
  induction peers generalizing l with
  | nil => exact ⟨rfl, rfl⟩
  | cons p peers ih =>
    have hsend (m : RpcLayer S N σ) (hm : m.api = l.api) :
        let l' := forwardRpc fromPeer skipPeer object config args (fun _ => .done) peers
          (m.outboundRpc p object config.name args Activity.done.handle).2
        l'.api = l.api ∧ l'.state = l.api.forwardRpc fromPeer skipPeer object config args peers
          (l.api.outboundRpc p object config.name args m.state).2 := by
      obtain ⟨hapi, hstate⟩ := outboundRpc_done p object config.name args m
      rw [← hm, ← hstate, ← hapi]
      exact ih _
    simp only [forwardRpc, RpcApi.forwardRpc]
    split
    · exact ih l
    · split
      · split
        · exact hsend _ rfl
        · exact ih _
      · split
        · exact hsend _ rfl
        · exact ih _

theorem routeRpc_done (id fromPeer toPeer : Int) (object : N) (config : ReplicationMethodConfig)
    (args : List Variant) (l : RpcLayer S N σ) :
    (l.routeRpc id fromPeer toPeer object config args .done (fun _ => .done)).state =
      l.api.routeRpc id fromPeer toPeer object config args l.state := by
  have hsend : ((l.setSrsOverride fromPeer).outboundRpc toPeer object config.name args
      Activity.done.handle).2.state =
        (l.api.outboundRpc toPeer object config.name args
          { l.state with srsOverride := fromPeer }).2 :=
    congrArg Prod.snd (outboundRpc_done toPeer object config.name args _).2
  have hforward (m : RpcLayer S N σ) : (setSrsOverride 0 (forwardRpc fromPeer (-toPeer) object
      config args (fun _ => .done) m.api.peers (m.setSrsOverride fromPeer))).state =
      { m.api.forwardRpc fromPeer (-toPeer) object config args m.api.peers
          { m.state with srsOverride := fromPeer } with srsOverride := 0 } := by
    have h := (forwardRpc_done fromPeer (-toPeer) object config args m.api.peers
      (m.setSrsOverride fromPeer)).2
    rw [setSrsOverride]
    simp only
    rw [h]
    rfl
  simp only [routeRpc, RpcApi.routeRpc]
  split
  · split
    · rfl
    · rfl
  · split
    · rfl
    · split
      · split
        · rw [setSrsOverride]
          simp only
          rw [hsend]
        · rfl
      · split
        · exact hforward (l.call object config.name args Activity.done.handle)
        · exact hforward l

theorem inboundRpc_done (id : Int) (bytes : List UInt8) (l : RpcLayer S N σ) :
    (l.inboundRpc id bytes .done (fun _ => .done)).state = l.api.inboundRpc id bytes l.state := by
  rw [inboundRpc, RpcApi.inboundRpc]
  cases hfind : l.api.findRpc id bytes l.state with
  | mk found s =>
    cases found with
    | none => rfl
    | some found =>
      simp only
      split
      · rfl
      · split
        · rfl
        · split
          · rfl
          · rw [setRemoteSender]
            simp only
            rw [routeRpc_done]
            rfl

/-- What handlers and sends do to the RPC layer, seen from a handler that has started with a
certain remote sender. -/
structure Follows (started : Int) (l l' : RpcLayer S N σ) : Prop where
  srsOverride : l'.state.srsOverride = l.state.srsOverride
  zero : l.state.remoteSender = 0 → l'.state.remoteSender = 0
  old : ∀ r ∈ l.sends, r ∈ l'.sends
  new : ∀ r ∈ l'.sends, r ∈ l.sends ∨ r.Zeroes
  kept : (∀ r ∈ l'.sends, r.Kept) → l'.state.remoteSender = l.state.remoteSender
  reads : (∀ r ∈ l'.sends, r.Kept) → l.state.remoteSender = started →
    ∀ x ∈ l'.reads, x ∈ l.reads ∨ x.2 = x.1

variable {l l' l'' : RpcLayer S N σ}

theorem Follows.same (hsends : l'.sends = l.sends) (hreads : l'.reads = l.reads)
    (hsender : l'.state.remoteSender = l.state.remoteSender)
    (hoverride : l'.state.srsOverride = l.state.srsOverride) : Follows started l l' where
  srsOverride := hoverride
  zero h := hsender.trans h
  old r hr := by
    rw [hsends]
    exact hr
  new r hr := by
    rw [hsends] at hr
    exact .inl hr
  kept _ := hsender
  reads _ _ x hx := by
    rw [hreads] at hx
    exact .inl hx

theorem Follows.trans (h : Follows started l l') (h' : Follows started l' l'') :
    Follows started l l'' where
  srsOverride := h'.srsOverride.trans h.srsOverride
  zero hz := h'.zero (h.zero hz)
  old r hr := h'.old r (h.old r hr)
  new r hr := by
    rcases h'.new r hr with hr | hr
    · exact h.new r hr
    · exact .inr hr
  kept hk := (h'.kept hk).trans (h.kept (fun r hr => hk r (h'.old r hr)))
  reads hk hs x hx := by
    have hk' : ∀ r ∈ l'.sends, r.Kept := fun r hr => hk r (h'.old r hr)
    rcases h'.reads hk ((h.kept hk').trans hs) x hx with hx | hx
    · exact h.reads hk' hs x hx
    · exact .inr hx

/-- A handler that may run in any state. -/
def Follower (handler : RpcLayer S N σ → RpcLayer S N σ) : Prop :=
  ∀ l : RpcLayer S N σ, Follows l.state.remoteSender l (handler l)

theorem call_follows (hhandler : Follower handler) (object : N) (method : String)
    (args : List Variant) (l : RpcLayer S N σ) :
    Follows l.state.remoteSender l (l.call object method args handler) := by
  have hstart : Follows l.state.remoteSender l
      { l with state := l.state.call object method args } := .same rfl rfl rfl rfl
  have hbody : Follows l.state.remoteSender { l with state := l.state.call object method args }
      (l.call object method args handler) :=
    hhandler { l with state := l.state.call object method args }
  exact hstart.trans hbody

theorem Follows.new_note (h : Follows started l l') (hr : r.Zeroes) :
    ∀ q ∈ l'.sends ++ [r], q ∈ l.sends ∨ q.Zeroes := by
  intro q hq
  rcases List.mem_append.1 hq with hq | hq
  · exact h.new q hq
  · rw [List.mem_singleton.1 hq]
    exact .inr hr

theorem Follows.note (h : Follows started l l') (hr : r.Zeroes) :
    Follows started l { l' with sends := l'.sends ++ [r] } where
  srsOverride := h.srsOverride
  zero := h.zero
  old q hq := List.mem_append_left _ (h.old q hq)
  new := h.new_note hr
  kept hk := h.kept (fun q hq => hk q (List.mem_append_left _ hq))
  reads hk := h.reads (fun q hq => hk q (List.mem_append_left _ hq))

/-- A send that has made its local call is noted. The remote sender is 0 then, which is what it was
only if it was 0. -/
theorem Follows.note_call (h : Follows peer (l.setRemoteSender peer) l') (hr : r.Zeroes)
    (hentry : r.entry = l.state) (hreturn : r.remoteSender = 0) :
    Follows started l { l'.setRemoteSender 0 with sends := l'.sends ++ [r] } where
  srsOverride := h.srsOverride
  zero _ := rfl
  old q hq := List.mem_append_left _ (h.old q hq)
  new := h.new_note hr
  kept hk := by
    have hkept : r.Kept := hk r (List.mem_append_right _ (List.mem_singleton.2 rfl))
    rw [OutboundRpc.Kept, hentry, hreturn] at hkept
    exact hkept
  reads hk _ := h.reads (fun q hq => hk q (List.mem_append_left _ hq)) rfl

theorem outboundRpc_follows (hhandler : Follower handler) (peer : Int) (object : N)
    (method : String) (args : List Variant) (l : RpcLayer S N σ) :
    Follows started l (l.outboundRpc peer object method args handler).2 := by
  cases hresolve : l.api.resolveRpc object method l.state with
  | error error =>
    have hrun : l.sendRpc peer object method args handler = (error, l) := by
      rw [sendRpc, hresolve]
    simp only [outboundRpc, hrun]
    apply Follows.note (.same rfl rfl rfl rfl)
    constructor
    · intro hlocal
      obtain ⟨config, methodIdx, hok, _⟩ := hlocal
      rw [hresolve] at hok
      cases hok
    · exact fun _ => rfl
  | ok found =>
    obtain ⟨config, methodIdx⟩ := found
    obtain ⟨hsender, hoverride⟩ :=
      l.api.sendOut_senders peer object method config methodIdx args l.state
    obtain ⟨s, hs⟩ : ∃ s, s = l.api.sendOut peer object method config methodIdx args l.state :=
      ⟨_, rfl⟩
    rw [← hs] at hsender hoverride
    have hrun : l.sendRpc peer object method args handler =
        (.ok, callLocal object config args handler { l with state := s }) := by
      rw [sendRpc, hresolve, hs]
    have hsent : Follows started l { l with state := s } := .same rfl rfl hsender hoverride
    have hiff (x : Int) :
        (⟨l.api, peer, object, method, args, l.state, x⟩ : OutboundRpc S N σ).MakesLocalCall ↔
          (config.getCallLocal && (l.api.isClient || l.state.srsOverride = 0)) = true := by
      constructor
      · intro hlocal
        obtain ⟨c, idx, hok, hcond⟩ := hlocal
        rw [hresolve] at hok
        cases hok
        exact hcond
      · exact fun hcond => ⟨config, methodIdx, hresolve, hcond⟩
    by_cases hcond : (config.getCallLocal && (l.api.isClient || l.state.srsOverride = 0)) = true
    · have hcall : callLocal object config args handler { l with state := s } =
          setRemoteSender 0 (call object config.name args handler
            (setRemoteSender l.api.uniqueId { l with state := s })) := by
        rw [callLocal, hoverride, if_pos hcond]
      have hstart : Follows l.api.uniqueId (l.setRemoteSender l.api.uniqueId)
          (setRemoteSender l.api.uniqueId { l with state := s }) := .same rfl rfl rfl hoverride
      have hbody := hstart.trans (call_follows hhandler object config.name args
        (setRemoteSender l.api.uniqueId { l with state := s }))
      simp only [outboundRpc, hrun, hcall]
      apply hbody.note_call _ rfl rfl
      exact ⟨fun _ => rfl, fun hlocal => absurd ((hiff _).2 hcond) hlocal⟩
    · have hcall : callLocal object config args handler { l with state := s } =
          { l with state := s } := by
        rw [callLocal, hoverride, if_neg hcond]
      simp only [outboundRpc, hrun, hcall]
      apply hsent.note
      constructor
      · intro hlocal
        exact absurd ((hiff _).1 hlocal) hcond
      · exact fun _ => hsender

theorem run_follows (a : Activity S N σ) (started : Int) (l : RpcLayer S N σ) :
    Follows started l (a.run started l) := by
  induction a generalizing started l with
  | done => exact .same rfl rfl rfl rfl
  | read next ih =>
    have hread : Follows started l
        { l with reads := l.reads ++ [(started, l.state.remoteSender)] } := by
      refine ⟨rfl, id, fun _ hr => hr, fun _ hr => .inl hr, fun _ => rfl, fun _ hs x hx => ?_⟩
      rcases List.mem_append.1 hx with hx | hx
      · exact .inl hx
      · rw [List.mem_singleton.1 hx]
        exact .inr hs
    exact hread.trans (ih started _)
  | send peer object method args handler next ihHandler ih =>
    have hhandler : Follower (fun l => handler.run l.state.remoteSender l) :=
      fun l => ihHandler l.state.remoteSender l
    exact (outboundRpc_follows hhandler peer object method args l).trans (ih started _)
  | elsewhere api repository ratelimits services next ih =>
    have hsame : Follows started l { l with
        api := api
        state := { l.state with
          repository := repository
          peerConfigRatelimits := ratelimits
          services := services } } := .same rfl rfl rfl rfl
    exact hsame.trans (ih started _)

theorem handle_follower (a : Activity S N σ) : Follower a.handle :=
  fun l => run_follows a l.state.remoteSender l

theorem forwardRpc_follows (fromPeer skipPeer : Int) (object : N)
    (config : ReplicationMethodConfig) (args : List Variant) (handlers : Int → Activity S N σ)
    (peers : List Int) (l : RpcLayer S N σ) :
    Follows started l
      (forwardRpc fromPeer skipPeer object config args handlers peers l) := by
  induction peers generalizing l with
  | nil => exact .same rfl rfl rfl rfl
  | cons p peers ih =>
    have hnext (passed : Bool) (services : σ) : Follows started l
        (if passed && config.canTheyRecv (l.api.getNodeOwner object) p then
          forwardRpc fromPeer skipPeer object config args handlers peers
            (outboundRpc p object config.name args (handlers p).handle
              { l with state := { l.state with services := services } }).2
        else forwardRpc fromPeer skipPeer object config args handlers peers
          { l with state := { l.state with services := services } }) := by
      have hfilter : Follows started l { l with state := { l.state with services := services } } :=
        .same rfl rfl rfl rfl
      split
      · have hsend : Follows started _ _ := outboundRpc_follows (handle_follower (handlers p)) p
          object config.name args { l with state := { l.state with services := services } }
        exact (hfilter.trans hsend).trans (ih _)
      · exact hfilter.trans (ih _)
    simp only [forwardRpc]
    split
    · exact ih l
    · split
      · exact hnext _ _
      · exact hnext _ _

theorem Follows.override (h : Follows started (l.setSrsOverride peer) l')
    (hidle : l.state.srsOverride = 0) : Follows started l (l'.setSrsOverride 0) :=
  ⟨hidle.symm, h.zero, h.old, h.new, h.kept, h.reads⟩

theorem routeRpc_follows (id fromPeer toPeer : Int) (object : N)
    (config : ReplicationMethodConfig) (args : List Variant) (handler : Activity S N σ)
    (handlers : Int → Activity S N σ) (l : RpcLayer S N σ) (hidle : l.state.srsOverride = 0) :
    Follows l.state.remoteSender l
      (l.routeRpc id fromPeer toPeer object config args handler handlers) := by
  have hcall := call_follows (handle_follower handler) object config.name args l
  rw [routeRpc]
  split
  · split
    · exact hcall
    · exact .same rfl rfl rfl rfl
  · split
    · exact hcall
    · split
      · split
        · exact (outboundRpc_follows (handle_follower (handlers toPeer)) toPeer object config.name
            args _).override hidle
        · exact .same rfl rfl rfl rfl
      · have hforward (m : RpcLayer S N σ) (hm : m.state.srsOverride = 0) :
            Follows l.state.remoteSender m (setSrsOverride 0 (forwardRpc fromPeer (-toPeer) object
              config args handlers m.api.peers (m.setSrsOverride fromPeer))) :=
          (forwardRpc_follows fromPeer (-toPeer) object config args handlers m.api.peers
            (m.setSrsOverride fromPeer)).override hm
        simp only
        split
        · exact hcall.trans (hforward _ (hcall.srsOverride.trans hidle))
        · exact hforward l hidle

/-- What a packet runs has its sender as the remote sender, which is then taken back. -/
theorem accepted_follows (id fromPeer toPeer : Int) (object : N)
    (config : ReplicationMethodConfig) (args : List Variant) (handler : Activity S N σ)
    (handlers : Int → Activity S N σ) (l : RpcLayer S N σ) (hidle : l.Idle) :
    Follows 0 l (setRemoteSender 0 (routeRpc id fromPeer toPeer object config args handler handlers
      (l.setRemoteSender fromPeer))) := by
  have h := routeRpc_follows id fromPeer toPeer object config args handler handlers
    (l.setRemoteSender fromPeer) hidle.2
  exact ⟨h.srsOverride, fun _ => rfl, h.old, h.new, fun _ => hidle.1.symm,
    fun hk _ => h.reads hk rfl⟩

theorem inboundRpc_follows (id : Int) (bytes : List UInt8) (handler : Activity S N σ)
    (handlers : Int → Activity S N σ) (l : RpcLayer S N σ) (hidle : l.Idle) :
    Follows 0 l (l.inboundRpc id bytes handler handlers) := by
  obtain ⟨repository, hfind⟩ := l.api.findRpc_state id bytes l.state
  rw [inboundRpc]
  split
  · next s hs =>
    rw [hs] at hfind
    obtain rfl : s = _ := hfind
    exact .same rfl rfl rfl rfl
  · next data object config s hs =>
    rw [hs] at hfind
    obtain rfl : s = _ := hfind
    obtain ⟨ratelimits, hlimit⟩ := l.api.checkRpcRatelimit_state
      { l.state with repository := repository } data.fromPeer object config
    have hgo (services : σ) : Follows 0 l (setRemoteSender 0 (routeRpc id data.fromPeer data.toPeer
        object config data.args handler handlers (setRemoteSender data.fromPeer { l with
          state := { l.state with
            repository := repository
            peerConfigRatelimits := ratelimits
            services := services } }))) := by
      obtain ⟨m, hm⟩ : ∃ m : RpcLayer S N σ, m = { l with
          state := { l.state with
            repository := repository
            peerConfigRatelimits := ratelimits
            services := services } } := ⟨_, rfl⟩
      have hsame : Follows 0 l m := by
        rw [hm]
        exact .same rfl rfl rfl rfl
      have hm' : m.Idle := by
        rw [hm]
        exact hidle
      rw [← hm]
      exact hsame.trans (accepted_follows id data.fromPeer data.toPeer object config data.args
        handler handlers m hm')
    split
    · exact .same rfl rfl rfl rfl
    · simp only
      rw [hlimit]
      split
      · exact .same rfl rfl rfl rfl
      · split
        · exact .same rfl rfl rfl rfl
        · exact hgo _

theorem step_follows (l : RpcLayer S N σ) (hidle : l.Idle) (input : RpcInput S N σ) :
    Follows 0 l (l.step input) := by
  cases input with
  | code activity =>
    have hrun := handle_follower activity l
    rw [hidle.1] at hrun
    exact hrun
  | packet id bytes handler handlers =>
    rw [step]
    split
    · exact inboundRpc_follows id bytes.dropLast handler handlers l hidle
    · exact .same rfl rfl rfl rfl

theorem Idle.step (hidle : l.Idle) (input : RpcInput S N σ) : (l.step input).Idle := by
  have h := step_follows l hidle input
  exact ⟨h.zero hidle.1, h.srsOverride.trans hidle.2⟩

theorem run_inputs_follows (inputs : List (RpcInput S N σ)) (l : RpcLayer S N σ)
    (hidle : l.Idle) : Follows 0 l (Runs.run RpcLayer.step l inputs) := by
  induction inputs generalizing l with
  | nil => exact .same rfl rfl rfl rfl
  | cons input inputs ih => exact (step_follows l hidle input).trans (ih _ (hidle.step input))

/-- Whatever is nested in whatever, the remote sender is kept across sends exactly if no send makes
its local call while something is being handled; and both fields are 0 after every packet. -/
theorem remoteSender_kept_iff (api : RpcApi S N σ) (repository : Repository N)
    (ratelimits : Ratelimits N) (services : σ) (inputs : List (RpcInput S N σ)) :
    let l := start api repository ratelimits services
    let l' := Runs.run RpcLayer.step l inputs
    ((∀ r ∈ l'.sends, r.Kept) ∧ (∀ x ∈ l'.reads, x.2 = x.1) ∧
        Runs.Always RpcLayer.step Idle l inputs) ↔
      ∀ r ∈ l'.sends, r.MakesLocalCall → r.entry.remoteSender = 0 := by
  intro l l'
  have hstart : l.Idle := ⟨rfl, rfl⟩
  have hrun : Follows 0 l l' := run_inputs_follows inputs l hstart
  have hzeroes (r : OutboundRpc S N σ) (hr : r ∈ l'.sends) : r.Zeroes :=
    (hrun.new r hr).resolve_left List.not_mem_nil
  constructor
  · intro h r hr
    exact (hzeroes r hr).kept_iff.1 (h.1 r hr)
  · intro h
    have hkept : ∀ r ∈ l'.sends, r.Kept := fun r hr => (hzeroes r hr).kept_iff.2 (h r hr)
    refine ⟨hkept, fun x hx => ?_, ?_⟩
    · exact (hrun.reads hkept rfl x hx).resolve_left List.not_mem_nil
    · exact Runs.always_of_step (fun m input hm => hm.step input) hstart inputs

/-- The RPC layer of a server with one client, and a method that is also called locally. -/
def shoutLayer : RpcLayer Unit SmallNode Unit :=
  start { ObjectHistory.pingApi with
    data := {
      scripts := .discrete
      scriptReplicationMap := fun _ => some { methodConfig := [
        { instanceId := 0, name := "shout", sendFilter := 7, flags := 2 }] } }
    hasMethod := fun _ method => method = "shout" }
    (smallTree fun _ => some ()).repository .empty ()

/-- A packet of client 2, whose handler calls the same method on the client and so also here, and
then asks for its sender. -/
def shoutPacket : RpcInput Unit SmallNode Unit :=
  .packet 2 (compressRpc intArrayCodec false 2 1 1 0 [] ++ [NetCommand.rpc.byte])
    (.send 2 .scene "shout" [] .done (.read .done)) (fun _ => .done)

/-- The handler reads 0 after its send. -/
theorem sender_lost :
    ¬ ((∀ r ∈ (Runs.run RpcLayer.step shoutLayer [shoutPacket]).sends, r.Kept) ∧
      (∀ x ∈ (Runs.run RpcLayer.step shoutLayer [shoutPacket]).reads, x.2 = x.1) ∧
        Runs.Always RpcLayer.step Idle shoutLayer [shoutPacket]) := by
  intro h
  have hread : (2, 0) ∈ (Runs.run RpcLayer.step shoutLayer [shoutPacket]).reads := by
    decide +kernel
  cases h.2.1 (2, 0) hread

end RpcLayer

end Godaemon
