import Godaemon.Services.SyncService
import Godaemon.Services.RpcIsolation

namespace Godaemon
set_option autoImplicit true

namespace RpcWorld.RunsService

open RpcWorld

variable {S N : Type} [DecidableEq N] {w : RpcWorld S N} {T : ServerTree S N}
  {isInstanceValid : N → Bool} {node : N} {sr : ScriptReplication}
  {c : ReplicationMethodConfig}

theorem once (h : w.RunsService T isInstanceValid node sr)
    (hc : sr.methodConfig.filter (fun m => m.name = c.name) = [c]) :
    w.data.OccursOnce methodField (T.script node) c := by
  rw [ReplicationData.OccursOnce, ReplicationData.chain, h.scripts, List.map_singleton,
    List.flatten_singleton]
  exact hc

theorem freshIdx_lt (h : w.RunsService T isInstanceValid node sr)
    (hc : sr.methodConfig.filter (fun m => m.name = c.name) = [c]) :
    w.data.freshIdx methodField (T.script node) c < sr.methodConfig.length := by
  have hlt := Segments.fetch_lt (h.once hc).inverse.2
  rw [ReplicationData.chain, h.scripts, List.map_singleton, List.flatten_singleton] at hlt
  exact hlt

theorem resolveRpc (h : w.RunsService T isInstanceValid node sr) (peers : List Int)
    (hc : sr.methodConfig.filter (fun m => m.name = c.name) = [c])
    (hlen : sr.methodConfig.length ≤ maxRpcMethods)
    {s : RpcState N (ReplicationService N)} (hs : s.repository = T.repository) :
    (w.serverApi T isInstanceValid peers).resolveRpc node c.name s =
      .ok (c, w.data.freshIdx methodField (T.script node) c) := by
  have hmem : c ∈ sr.methodConfig := by
    have hf : c ∈ sr.methodConfig.filter (fun m => m.name = c.name) := by
      rw [hc]
      exact List.mem_singleton_self c
    exact List.mem_of_mem_filter hf
  have hidx := h.freshIdx_lt hc
  apply RpcApi.resolveRpc_once rfl h.alive ?_ h.not_queued (h.once hc) ?_ (h.has_method c hmem)
  · rw [hs]
    exact T.getId_ne_neg_one node
  · change w.data.freshIdx methodField (T.script node) c < maxRpcMethods
    omega

end RpcWorld.RunsService

namespace FieldState

variable {N : Type} {s s' s'' : FieldState N}

/-- No field is touched and nothing is sent. -/
def Quiet (s s' : FieldState N) : Prop := s'.effects = s.effects ∧ s'.commands = s.commands

end FieldState

namespace FieldWorld

open ReplicationService RpcWorld

variable {S N : Type} [DecidableEq N] (w : FieldWorld S N)

/-- The packet in which the server sends an RPC of a service. -/
def packet (service : N) (c : ReplicationMethodConfig) (args : List Variant) (p : Int) : Command :=
  (w.world.serverApi w.tree w.isInstanceValid []).packet (w.tree.repository.getId service) service
    c (w.world.data.freshIdx methodField (w.tree.script service) c) args 1 p

theorem send_spec {w : FieldWorld S N} {s : FieldState N}
    (h : w.world.RunsService w.tree w.isInstanceValid service sr)
    (hc : sr.methodConfig.filter (fun m => m.name = c.name) = [c])
    (hlen : sr.methodConfig.length ≤ maxRpcMethods) (hlocal : c.getCallLocal = false)
    (hrecv : c.canTheyRecv (w.owner service) p = true) (hp : 1 < p) :
    ∃ services, Asked w.tree s.services services ∧
      w.send p service c.name args s = { s with
        services := services
        commands := s.commands ++
          if s.services.Observes w.tree service p then [w.packet service c args p] else [] } := by
  have hself : (1 : Int) = if (w.rpcState s).srsOverride ≠ 0 then (w.rpcState s).srsOverride
    else 1 := rfl
  have hpos : 0 < p := by omega
  have hne : p ≠ 1 := by omega
  have htargets : (w.world.serverApi w.tree w.isInstanceValid s.services.peers).targetPeers p
      service c = [p] := by
    rw [targetPeers_single _ _ _ _ _ _ hpos]
    exact if_pos hrecv
  obtain ⟨services, hasked, hout⟩ := outboundRpc_server p args
    (h.resolveRpc s.services.peers hc hlen (s := w.rpcState s) rfl)
    (by
      rw [htargets]
      intro q hq
      rw [List.mem_singleton] at hq
      omega) hself
  refine ⟨services, hasked, ?_⟩
  rw [htargets] at hout
  have hidle : (w.rpcState s).services = s.services := rfl
  simp only [send, api, hout, RpcApi.callLocal, hlocal, Bool.false_and, Bool.false_eq_true,
    ↓reduceIte, List.filter_cons, List.filter_nil, hne, ne_eq, not_false_eq_true, and_true,
    decide_eq_true_eq, hidle]
  split
  · rfl
  · rfl

/-- All peers that the services know of are clients. -/
def ClientsOnly (services : ReplicationService N) : Prop :=
  (∀ p ∈ services.peers, 1 < p) ∧
    ∀ node p, services.clientCreatedScenes.get? node = some p → 1 < p

/-- A property's new value goes on to this peer, if it observes the node. -/
def SharesWith (s : FieldState N) (remotePeer : Int) (node : N) (c : ReplicationPropertyConfig)
    (p : Int) : Prop :=
  p ≠ remotePeer ∧ ¬ (c.getRobns = true ∧ p = w.owner node) ∧
    s.services.Observes w.tree w.syncService p

instance (s : FieldState N) (remotePeer : Int) (node : N) (c : ReplicationPropertyConfig)
    (p : Int) : Decidable (w.SharesWith s remotePeer node c p) :=
  inferInstanceAs (Decidable (_ ∧ _ ∧ _))

variable {w} {s : FieldState N}

theorem send_receiveRpc (reliable : Bool) (args : List Variant) (hp : 1 < p) :
    ∃ services, Asked w.tree s.services services ∧
      w.send p w.syncService (getReceiveRpc true reliable).name args s = { s with
        services := services
        commands := s.commands ++
          if s.services.Observes w.tree w.syncService p then
            [w.packet w.syncService (getReceiveRpc true reliable) args p] else [] } := by
  have hflag (f : Filter) (hf : f ≠ .server) :
      (getReceiveRpc true reliable).getRecvFilterFlag f = true := by
    cases reliable <;> cases f <;> first | rfl | exact absurd rfl hf
  have hne : p ≠ 1 := by omega
  apply send_spec w.runs_sync ?_ (by decide) ?_
    (hflag _ (ReplicationConfigBase.filterOf_ne_server hne))
    hp
  · cases reliable <;> rfl
  · cases reliable <;> rfl

theorem sharesWith_congr {s' : FieldState N} (h : Asked w.tree s.services s'.services) :
    w.SharesWith s' remotePeer node c p ↔ w.SharesWith s remotePeer node c p := by
  simp only [SharesWith, h.observes]

theorem sendEach_skip (peers : List Int) (h : passes p = false) :
    w.sendEach passes rpc args (p :: peers) s = w.sendEach passes rpc args peers s := by
  rw [sendEach, List.filter_cons_of_neg (by rw [h]; decide), sendEach]

theorem sendEach_pass (peers : List Int) (h : passes p = true) :
    w.sendEach passes rpc args (p :: peers) s =
      w.sendEach passes rpc args peers (w.send p w.syncService rpc.name args s) := by
  rw [sendEach, List.filter_cons_of_pos h, List.foldl_cons, sendEach]

theorem sendEach_spec (passes : Int → Bool) (reliable : Bool) (args : List Variant)
    (peers : List Int) (hpeers : ∀ p ∈ peers, 1 < p) :
    ∃ services, Asked w.tree s.services services ∧
      w.sendEach passes (getReceiveRpc true reliable) args peers s = { s with
        services := services
        commands := s.commands ++
          (peers.filter (fun p => passes p && s.services.Observes w.tree w.syncService p)).map
            (w.packet w.syncService (getReceiveRpc true reliable) args) } := by
  induction peers generalizing s with
  | nil =>
    refine ⟨s.services, .refl, ?_⟩
    simp only [sendEach, List.filter_nil, List.foldl_nil, List.map_nil, List.append_nil]
  | cons p peers ih =>
    have hrest : ∀ q ∈ peers, 1 < q := fun q hq => hpeers q (List.mem_cons_of_mem _ hq)
    cases hpass : passes p with
    | false =>
      obtain ⟨services, hasked, h⟩ := ih (s := s) hrest
      refine ⟨services, hasked, ?_⟩
      rw [sendEach_skip peers hpass, List.filter_cons_of_neg (by rw [hpass]; simp)]
      exact h
    | true =>
      obtain ⟨services, hasked, hsend⟩ := send_receiveRpc (w := w) (s := s)
        reliable args (hpeers p List.mem_cons_self)
      obtain ⟨sent, hsent⟩ : ∃ sent, sent = if s.services.Observes w.tree w.syncService p then
          [w.packet w.syncService (getReceiveRpc true reliable) args p] else [] := ⟨_, rfl⟩
      rw [← hsent] at hsend
      obtain ⟨services', hasked', h⟩ := ih (s := { s with
        services := services
        commands := s.commands ++ sent }) hrest
      refine ⟨services', hasked.trans hasked', ?_⟩
      have hobserves (q : Int) : services.Observes w.tree w.syncService q ↔
          s.services.Observes w.tree w.syncService q := hasked.observes
      rw [sendEach_pass peers hpass, hsend, h]
      simp only [hobserves]
      rw [hsent]
      by_cases hobs : s.services.Observes w.tree w.syncService p
      · rw [if_pos hobs, List.filter_cons_of_pos (by simp [hpass, hobs]), List.map_cons,
          List.append_assoc, List.singleton_append]
      · rw [if_neg hobs, List.filter_cons_of_neg (by simp [hobs]), List.append_nil]

theorem forwardProperty_eq (remotePeer : Int) (node : N) (c : ReplicationPropertyConfig)
    (args : List Variant) (peers : List Int) (s : FieldState N) :
    w.forwardProperty remotePeer node c args peers s =
      w.sendEach (fun p => ¬ (p = remotePeer ∨ c.getRobns = true ∧ p = w.owner node))
        (getReceiveRpc true (if c.sync ≠ .smooth then c.reliable else false)) args peers s := by
  induction peers generalizing s with
  | nil => rfl
  | cons p peers ih =>
    simp only [forwardProperty]
    by_cases hskip : p = remotePeer ∨ c.getRobns = true ∧ p = w.owner node
    · rw [if_pos hskip, ih, sendEach_skip peers]
      exact decide_eq_false (not_not_intro hskip)
    · rw [if_neg hskip, ih, sendEach_pass peers]
      exact decide_eq_true hskip

theorem forwardProperty_spec (remotePeer : Int) (node : N) (c : ReplicationPropertyConfig)
    (args : List Variant) (peers : List Int) (hpeers : ∀ p ∈ peers, 1 < p) :
    ∃ services, Asked w.tree s.services services ∧
      w.forwardProperty remotePeer node c args peers s = { s with
        services := services
        commands := s.commands ++ (peers.filter (fun p => w.SharesWith s remotePeer node c p)).map
          (w.packet w.syncService
            (getReceiveRpc true (if c.sync ≠ .smooth then c.reliable else false)) args) } := by
  obtain ⟨services, hasked, h⟩ := sendEach_spec (w := w) (s := s)
    (fun p => ¬ (p = remotePeer ∨ c.getRobns = true ∧ p = w.owner node))
    (if c.sync ≠ .smooth then c.reliable else false) args peers hpeers
  refine ⟨services, hasked, ?_⟩
  have htest (p : Int) : (decide (¬ (p = remotePeer ∨ c.getRobns = true ∧ p = w.owner node)) &&
      decide (s.services.Observes w.tree w.syncService p)) =
        decide (w.SharesWith s remotePeer node c p) := by
    simp only [← Bool.decide_and, SharesWith, not_or, and_assoc]
    rfl
  rw [forwardProperty_eq, h]
  simp only [htest]

variable (w)

/-- The value is no array, and the property is one: the script fails. -/
def Fails (s : FieldState N) (node : N) (c : ReplicationPropertyConfig) (value : Variant) : Prop :=
  c.canTheyRecv (w.owner node) 1 = true ∧ c.sync = .request ∧
    (s.properties node c.name).isArray = true ∧ w.toArray value = none

/-- The server takes the value in: it sets the property, if only to an empty array, or starts to
move it there. -/
def Accepts (s : FieldState N) (node : N) (c : ReplicationPropertyConfig) (value : Variant) :
    Prop :=
  c.canTheyRecv (w.owner node) 1 = true ∧
    match c.sync with
    | .once => False
    | .request => True
    | .smooth =>
      if c.getAngularLerp then value.isAngle = true
      else w.tweenFits (s.properties node c.name) value = true

/-- The server takes a value in, or shares it with someone. -/
def Takes (s : FieldState N) (remotePeer : Int) (node : N) (c : ReplicationPropertyConfig)
    (value : Variant) : Prop :=
  c.sync ≠ .once ∧
    (w.Accepts s node c value ∨
      ∃ p, s.services.Observes w.tree node p ∧ w.SharesWith s remotePeer node c p)

def PropertyTaken (s : FieldState N) (remotePeer nodeId idx : Int) (value : Variant) : Prop :=
  ∃ node c, w.fieldAt propertyField nodeId idx = some (node, c) ∧
    w.Takes s remotePeer node c value

/-- A signal that the server emits. -/
def SignalTaken (nodeId idx : Int) (args : List Variant) : Prop :=
  ∃ node c, w.fieldAt signalField nodeId idx = some (node, c) ∧
    c.canTheyRecv (w.owner node) 1 = true ∧ args.length ≤ 8

variable {w}

theorem startPropertyInterpolation_spec (tweenFits : Variant → Variant → Bool) (s : FieldState N)
    (node : N) (c : ReplicationPropertyConfig) (value : Variant) :
    (s.startPropertyInterpolation tweenFits node c value).commands = s.commands ∧
      (s.startPropertyInterpolation tweenFits node c value).services = s.services ∧
      ((s.startPropertyInterpolation tweenFits node c value).effects = s.effects ↔
        ¬ s.tweens tweenFits node c value = true) := by
  obtain ⟨cache, hend⟩ : ∃ cache, s.endPropertyInterpolation node c = { s with
      propertyInterpolationCache := cache } := by
    simp only [FieldState.endPropertyInterpolation]
    split
    · exact ⟨_, rfl⟩
    · exact ⟨_, rfl⟩
  simp only [FieldState.startPropertyInterpolation, hend]
  cases s.tweens tweenFits node c value <;> simp

theorem setConfigCache_spec (s : FieldState N) (node : N) (c : ReplicationPropertyConfig)
    (value : Variant) :
    (s.setConfigCache node c value).commands = s.commands ∧
      (s.setConfigCache node c value).services = s.services ∧
      (s.setConfigCache node c value).effects = s.effects := by
  simp only [FieldState.setConfigCache]
  split
  · exact ⟨rfl, rfl, rfl⟩
  · exact ⟨rfl, rfl, rfl⟩

theorem applyProperty_spec (w : FieldWorld S N) (s : FieldState N) (node : N)
    (c : ReplicationPropertyConfig) (value : Variant) (honce : c.sync ≠ .once) :
    ((w.applyProperty node c value s).2 = false ↔ w.Fails s node c value) ∧
      (w.applyProperty node c value s).1.commands = s.commands ∧
      (w.applyProperty node c value s).1.services = s.services ∧
      ((w.applyProperty node c value s).1.effects = s.effects ↔ ¬ w.Accepts s node c value) := by
  by_cases hrecv : c.canTheyRecv (w.owner node) 1 = true
  · simp only [applyProperty, hrecv, Bool.not_true, Bool.false_eq_true, ↓reduceIte, Fails, Accepts,
      true_and, FieldState.applyProperty]
    cases hsync : c.sync with
    | once => exact absurd hsync honce
    | request =>
      simp only [↓reduceIte, true_and, Variant.assign]
      cases (s.properties node c.name).isArray with
      | false => simp [FieldState.setProperty]
      | true => cases w.toArray value <;> simp [FieldState.setProperty]
    | smooth =>
      obtain ⟨hc, hs, he⟩ := startPropertyInterpolation_spec w.tweenFits s node c value
      obtain ⟨hc', hs', he'⟩ := setConfigCache_spec
        (s.startPropertyInterpolation w.tweenFits node c value) node c value
      simp only [reduceCtorEq, ↓reduceIte, false_and, Bool.true_eq_false, true_and]
      refine ⟨hc'.trans hc, hs'.trans hs, ?_⟩
      rw [he', he, FieldState.tweens]
      split
      · rfl
      · rfl
  · simp [applyProperty, hrecv, Fails, Accepts]

theorem Fails.accepts {w : FieldWorld S N} {value : Variant} (h : w.Fails s node c value) :
    w.Accepts s node c value := by
  refine ⟨h.1, ?_⟩
  rw [h.2.1]
  trivial

omit [DecidableEq N] in
theorem ClientsOnly.one_lt [DecidableEq N] {T : ServerTree S N} {services : ReplicationService N}
    (h : ClientsOnly services) (hp : services.Observes T node p) : 1 < p := by
  rcases observes_iff.1 hp with ⟨hp, _⟩ | hp
  · exact h.1 p (List.mem_of_mem_filter hp)
  · exact h.2 node p hp

/-- A value has no effect exactly if nobody takes it. -/
theorem receiveProperties_quiet_iff {remotePeer nodeId idx : Int} {value : Variant}
    (hclients : ClientsOnly s.services) :
    s.Quiet (w.receiveProperties remotePeer nodeId idx value s) ↔
      ¬ w.PropertyTaken s remotePeer nodeId idx value := by
  simp only [receiveProperties, PropertyTaken]
  cases hfield : w.fieldAt propertyField nodeId idx with
  | none => simp [FieldState.Quiet]
  | some found =>
    obtain ⟨node, c⟩ := found
    have hone : (∃ node' c', some (node, c) = some (node', c') ∧
        w.Takes s remotePeer node' c' value) ↔ w.Takes s remotePeer node c value := by
      simp
    rw [hone]
    by_cases honce : c.sync = .once
    · simp [honce, FieldState.Quiet, Takes]
    · obtain ⟨hgoesOn, hcommands, hservices, heffects⟩ :=
        applyProperty_spec w s node c value honce
      simp only [honce, ↓reduceIte, Takes, ne_eq, not_false_eq_true, true_and]
      rcases happly : w.applyProperty node c value s with ⟨s', goesOn⟩
      rw [happly] at hgoesOn hcommands hservices heffects
      dsimp only at hgoesOn hcommands hservices heffects
      cases goesOn with
      | false =>
        have haccepts := (hgoesOn.1 rfl).accepts
        apply iff_of_false
        · exact fun hquiet => heffects.1 hquiet.1 haccepts
        · exact fun hnot => hnot (.inl haccepts)
      | true =>
        have hpeers : ∀ p ∈ (s'.services.getObservingPeers w.tree node).1, 1 < p := by
          intro p hp
          rw [hservices] at hp
          exact hclients.one_lt (T := w.tree) hp
        have hasked : Asked w.tree s.services (s'.services.getObservingPeers w.tree node).2 := by
          rw [hservices]
          exact asked_getObservingPeers
        have hshares (p : Int) : w.SharesWith { s' with
            services := (s'.services.getObservingPeers w.tree node).2 } remotePeer node c p ↔
              w.SharesWith s remotePeer node c p := sharesWith_congr hasked
        obtain ⟨_, _, hforward⟩ := forwardProperty_spec (w := w) (s := { s' with
            services := (s'.services.getObservingPeers w.tree node).2 }) remotePeer node c
          [.int nodeId, .int idx, value] (s'.services.getObservingPeers w.tree node).1 hpeers
        simp only [hforward, hshares]
        simp only [FieldState.Quiet, heffects, hcommands, List.append_right_eq_self,
          List.map_eq_nil_iff, List.filter_eq_nil_iff, decide_eq_true_eq, not_or, not_exists,
          not_and, Observes, hservices]

theorem setSignalLoopBlock_spec (s : FieldState N) (node : N) (c : ReplicationSignalConfig)
    (block : Bool) : (s.setSignalLoopBlock node c block).effects = s.effects ∧
      (s.setSignalLoopBlock node c block).commands = s.commands := by
  simp only [FieldState.setSignalLoopBlock]
  split
  · exact ⟨rfl, rfl⟩
  · split
    · exact ⟨rfl, rfl⟩
    · split
      · exact ⟨rfl, rfl⟩
      · split
        · exact ⟨rfl, rfl⟩
        · exact ⟨rfl, rfl⟩

theorem isSignalLoopBlocked_set (s : FieldState N) (node : N) (c : ReplicationSignalConfig) :
    (s.setSignalLoopBlock node c true).isSignalLoopBlocked node c = true := by
  simp only [FieldState.setSignalLoopBlock, ↓reduceIte, FieldState.isSignalLoopBlocked, Dict.get2?,
    Dict.get?_set_self, Option.bind_some, Option.isSome_some]

theorem emitSignal_of_blocked {node : N} {c : ReplicationSignalConfig} {args : List Variant}
    (h : s.isSignalLoopBlocked node c = true) :
    w.emitSignal node c args s = { s with
      effects := s.effects ++ [.emit node c.name args] } := by
  have h' : FieldState.isSignalLoopBlocked { s with
      effects := s.effects ++ [.emit node c.name args] } node c = true := h
  simp only [emitSignal, onSignalEmit, h', ↓reduceIte, ite_self]

theorem signalReplicate_spec (w : FieldWorld S N) (s : FieldState N) (nodeId idx : Int)
    (args : List Variant) : (w.signalReplicate nodeId idx args s).commands = s.commands ∧
      ((w.signalReplicate nodeId idx args s).effects = s.effects ↔
        ¬ w.SignalTaken nodeId idx args) := by
  simp only [signalReplicate, SignalTaken]
  cases hfield : w.fieldAt signalField nodeId idx with
  | none => simp
  | some found =>
    obtain ⟨node, c⟩ := found
    have hone : (∃ node' c', some (node, c) = some (node', c') ∧
        c'.canTheyRecv (w.owner node') 1 = true ∧ args.length ≤ 8) ↔
          c.canTheyRecv (w.owner node) 1 = true ∧ args.length ≤ 8 := by
      simp
    rw [hone]
    obtain ⟨heffects, hcommands⟩ := setSignalLoopBlock_spec s node c true
    by_cases hrecv : c.canTheyRecv (w.owner node) 1 = true
    · simp only [hrecv, Bool.not_true, Bool.false_eq_true, ↓reduceIte, true_and,
        emitSignal_of_blocked (isSignalLoopBlocked_set s node c)]
      by_cases hnine : args.length = 9
      · simp [hnine, heffects, hcommands]
      · simp only [hnine, ↓reduceIte, setSignalLoopBlock_spec]
        by_cases height : args.length ≤ 8
        · simp [height]
        · simp [height, heffects, hcommands]
    · simp [hrecv]

variable (w)

/-- The methods in which clients send the values of properties, and signals. -/
def Entry (object : N) (config : ReplicationMethodConfig) : Prop :=
  object = w.syncService ∧
      (config = svReceiveReliableProperties ∨ config = svReceiveUnreliableProperties) ∨
    object = w.replicationService ∧
      (config = signalReplicateReliable ∨ config = signalReplicateUnreliable)

/-- The field that a message is about lets the peer write it. -/
def Authorised (p : Int) : FieldMessage → Prop
  | .properties nodeId idx _ => ∃ node c, w.fieldAt propertyField nodeId idx = some (node, c) ∧
    c.canTheySend (w.owner node) p = true
  | .signal nodeId idx _ => ∃ node c, w.fieldAt signalField nodeId idx = some (node, c) ∧
    c.canTheySend (w.owner node) p = true

/-- A message with this target reaches someone: the server, that takes it, or another peer. -/
def Taken (s : FieldState N) (client toPeer : Int) : FieldMessage → Prop
  | .properties nodeId idx value =>
    (toPeer = 0 ∨ toPeer = 1) ∧ w.PropertyTaken s client nodeId idx value
  | .signal nodeId idx args =>
    (toPeer = 0 ∨ toPeer = 1) ∧ w.SignalTaken nodeId idx args ∨
      ∃ p, p ≠ 1 ∧ p ≠ client ∧ s.services.Observes w.tree w.replicationService p ∧
        (toPeer = 0 ∧ p ∈ s.services.peers ∨
          toPeer = p ∧ s.services.Observes w.tree w.replicationService client)

/-- A packet of a client changes a field or goes on to other peers only if the field lets the
client write it. -/
def AuthorityKept (s : FieldState N) (client : Int) (bytes : List UInt8) (m : FieldMessage) :
    Prop :=
  ¬ s.Quiet (w.recv client bytes s) → w.Authorised client m

variable {w}

theorem Entry.open_to_clients (h : w.Entry object config) (hp : p ≠ 1) :
    config.canTheySend o p = true ∧ config.getRecvFilterFlag .server = true ∧
      config.ratelimit = 0 := by
  have hflags : config.getSendFilterFlag .owner = true ∧ config.getSendFilterFlag .client = true ∧
      config.getRecvFilterFlag .server = true ∧ config.ratelimit = 0 := by
    obtain ⟨_, hc | hc⟩ | ⟨_, hc | hc⟩ := h
    · rw [hc]
      exact ⟨rfl, rfl, rfl, rfl⟩
    · rw [hc]
      exact ⟨rfl, rfl, rfl, rfl⟩
    · rw [hc]
      exact ⟨rfl, rfl, rfl, rfl⟩
    · rw [hc]
      exact ⟨rfl, rfl, rfl, rfl⟩
  obtain ⟨howner, hclient, hserver, hlimit⟩ := hflags
  have hf := ReplicationConfigBase.filterOf_ne_server (o := o) hp
  rw [ReplicationConfigBase.canTheySend]
  cases hfilter : ReplicationConfigBase.filterOf o p with
  | server => exact absurd hfilter hf
  | owner => exact ⟨howner, hserver, hlimit⟩
  | client => exact ⟨hclient, hserver, hlimit⟩

theorem Entry.has_method (h : w.Entry object config) :
    w.world.hasMethod object config.name = true := by
  obtain ⟨ho, hc | hc⟩ | ⟨ho, hc | hc⟩ := h
  · rw [ho, hc]
    exact w.runs_sync.has_method _ (by decide)
  · rw [ho, hc]
    exact w.runs_sync.has_method _ (by decide)
  · rw [ho, hc]
    exact w.runs_replication.has_method _ (by decide)
  · rw [ho, hc]
    exact w.runs_replication.has_method _ (by decide)

theorem recv_spec (hclients : ClientsOnly s.services) (client : ClientPeer) {bytes : List UInt8}
    {data : RpcData} (hdata : decompressRpc w.world.codec false client bytes = some data)
    (hobject : (w.tree.repository.getObject w.isInstanceValid data.objectId).1 = some object)
    (hconfig : w.world.data.freshConfig methodField (w.tree.script object) data.methodIdx =
      some config) (hentry : w.Entry object config)
    (hm : w.message object config.name data.args = some m) :
    ∃ s' : FieldState N, Asked w.tree s.services s'.services ∧ s'.properties = s.properties ∧
      s'.effects = s.effects ∧
      s'.commands = s.commands ++ w.world.forwarded w.tree w.isInstanceValid s.services.peers
        (w.rpcState s) client object config data.args
        (audience w.tree s.services.peers s.services object client data.toPeer) ∧
      w.recv client bytes s =
        if data.toPeer = 0 ∨ data.toPeer = 1 then w.handle client m s' else s' := by
  have hfind := RpcApi.findRpc_of_object (w.api s) (w.rpcState s) hdata hobject
  have hmethod : (w.api s).methodAt object data.methodIdx = some config :=
    RpcApi.methodAt_of_config hconfig hentry.has_method
  rw [hmethod, Option.map_some] at hfind
  obtain ⟨_, hflag, hlimit⟩ := hentry.open_to_clients (o := 0) client.ne_one
  have hallowed : (w.api s).Allowed (w.rpcState s) client object config := by
    refine ⟨fun _ => (hentry.open_to_clients client.ne_one).1, ?_⟩
    rw [RpcApi.checkRpcRatelimit_unlimited _ _ _ _ hlimit]
  have hpos : ∀ p ∈ s.services.peers, 0 < p := fun p hp => by
    have := hclients.1 p hp
    omega
  obtain ⟨hcalls, hcommands⟩ := inboundRpc_accepted client.one_lt hpos hfind hallowed
  have hasked : Asked w.tree (w.rpcState s).services
      ((w.world.serverApi w.tree w.isInstanceValid s.services.peers).inboundRpc client bytes
        (w.rpcState s)).services := asked_inboundRpc
  obtain ⟨rpc, hrpc⟩ : ∃ rpc, rpc = (w.api s).inboundRpc client bytes (w.rpcState s) := ⟨_, rfl⟩
  rw [FieldWorld.api] at hrpc
  rw [← hrpc] at hcalls hcommands hasked
  obtain ⟨s', hs'⟩ : ∃ s' : FieldState N, s' = { s with
    ratelimits := rpc.peerConfigRatelimits
    services := rpc.services
    commands := s.commands ++ rpc.commands } := ⟨_, rfl⟩
  have hframe : s'.services = rpc.services ∧ s'.properties = s.properties ∧
      s'.effects = s.effects ∧ s'.commands = s.commands ++ rpc.commands := by
    rw [hs']
    exact ⟨rfl, rfl, rfl, rfl⟩
  obtain ⟨hservices, hproperties, heffects, hsent⟩ := hframe
  have hrecv : w.recv client bytes s = rpc.calls.foldl w.runCall s' := by
    rw [hs', hrpc]
    rfl
  refine ⟨s', ?_, hproperties, heffects, ?_, ?_⟩
  · rw [hservices]
    exact hasked
  · rw [hsent, hcommands]
    rfl
  · rw [hrecv, hcalls]
    simp only [hflag, and_true]
    split
    · change w.runCall _ _ = _
      simp only [runCall, hm]
    · rfl

theorem syncService_ne (w : FieldWorld S N) : w.replicationService ≠ w.syncService := by
  intro he
  have hs := w.runs_sync.scripts
  rw [← he, w.runs_replication.scripts] at hs
  exact absurd (congrArg (List.map fun sr : ScriptReplication => sr.methodConfig.length) hs)
    (by decide)

theorem message_syncService (h : w.message w.syncService method args = some m) :
    ∃ nodeId idx value, m = .properties nodeId idx value := by
  simp only [message] at h
  split at h
  · next nodeId idx value =>
    rw [if_pos trivial] at h
    split at h
    · obtain ⟨n, _, h⟩ := Option.bind_eq_some_iff.1 h
      obtain ⟨i, _, h⟩ := Option.map_eq_some_iff.1 h
      exact ⟨n, i, value, h.symm⟩
    · cases h
  · cases h

theorem message_replicationService (h : w.message w.replicationService method args = some m) :
    ∃ nodeId idx args, m = .signal nodeId idx args := by
  simp only [message] at h
  split at h
  · next nodeId idx value =>
    rw [if_neg w.syncService_ne, if_pos trivial] at h
    split at h
    · obtain ⟨n, _, h⟩ := Option.bind_eq_some_iff.1 h
      obtain ⟨i, _, h⟩ := Option.bind_eq_some_iff.1 h
      obtain ⟨args, _, h⟩ := Option.map_eq_some_iff.1 h
      exact ⟨n, i, args, h.symm⟩
    · cases h
  · cases h

theorem Entry.resolveRpc (h : w.Entry object config) (peers : List Int) :
    (w.world.serverApi w.tree w.isInstanceValid peers).resolveRpc object config.name
      (w.rpcState s) =
        .ok (config, w.world.data.freshIdx methodField (w.tree.script object) config) := by
  obtain ⟨ho, hc | hc⟩ | ⟨ho, hc | hc⟩ := h
  · rw [ho, hc]
    exact w.runs_sync.resolveRpc peers rfl (by decide) rfl
  · rw [ho, hc]
    exact w.runs_sync.resolveRpc peers rfl (by decide) rfl
  · rw [ho, hc]
    exact w.runs_replication.resolveRpc peers rfl (by decide) rfl
  · rw [ho, hc]
    exact w.runs_replication.resolveRpc peers rfl (by decide) rfl

theorem Entry.forwarded_eq_nil_iff (h : w.Entry object config) (peers audience : List Int)
    (client : Int) (args : List Variant) :
    w.world.forwarded w.tree w.isInstanceValid peers (w.rpcState s) client object config args
        audience = [] ↔
      ∀ p ∈ audience, ¬ w.world.SendsOn w.tree s.services object config config client p := by
  simp only [forwarded, h.resolveRpc, List.map_eq_nil_iff, List.filter_eq_nil_iff,
    decide_eq_true_eq]
  rfl

theorem ClientsOnly.of_asked {T : ServerTree S N} {services services' : ReplicationService N}
    (h : ClientsOnly services) (ha : Asked T services services') : ClientsOnly services' := by
  have hp := ha.peers
  obtain ⟨_, hq⟩ := ha
  have hc : services'.clientCreatedScenes = services.clientCreatedScenes := by rw [hq.frame]
  exact ⟨fun p hm => h.1 p (hp ▸ hm), fun node p hm => h.2 node p (hc ▸ hm)⟩

theorem propertyTaken_congr {s' : FieldState N} (h : Asked w.tree s.services s'.services)
    (hp : s'.properties = s.properties) : w.PropertyTaken s' client nodeId idx v ↔
      w.PropertyTaken s client nodeId idx v := by
  simp only [PropertyTaken, Takes, Accepts, hp, h.observes, sharesWith_congr h]

theorem not_canTheyRecv_sv (hp : p ≠ 1)
    (h : config = svReceiveReliableProperties ∨ config = svReceiveUnreliableProperties) :
    ¬ config.canTheyRecv o p = true := by
  rw [ReplicationConfigBase.canTheyRecv]
  cases hf : ReplicationConfigBase.filterOf o p with
  | server => exact absurd hf (ReplicationConfigBase.filterOf_ne_server hp)
  | owner => rcases h with rfl | rfl <;> decide
  | client => rcases h with rfl | rfl <;> decide

theorem canTheyRecv_signal
    (h : config = signalReplicateReliable ∨ config = signalReplicateUnreliable) (o p : Int) :
    config.canTheyRecv o p = true := by
  rw [ReplicationConfigBase.canTheyRecv]
  cases ReplicationConfigBase.filterOf o p <;> rcases h with rfl | rfl <;> rfl

/-- A signal's message goes on to every client that it names and that observes the service. -/
theorem nobody_sentOn_iff (hclients : ClientsOnly s.services) (client : ClientPeer) (toPeer : Int)
    (hsignal : config = signalReplicateReliable ∨ config = signalReplicateUnreliable) :
    (∀ p ∈ audience w.tree s.services.peers s.services w.replicationService client toPeer,
        ¬ w.world.SendsOn w.tree s.services w.replicationService config config client p) ↔
      ¬ ∃ p : Int, p ≠ 1 ∧ p ≠ client ∧ s.services.Observes w.tree w.replicationService p ∧
        (toPeer = 0 ∧ p ∈ s.services.peers ∨
          toPeer = p ∧ s.services.Observes w.tree w.replicationService client) := by
  simp only [mem_audience, SendsOn, canTheyRecv_signal hsignal, true_and]
  apply Iff.intro
  · rintro h ⟨p, hone, hother, hobs, ⟨hto, hp⟩ | ⟨rfl, hc⟩⟩
    · exact h p (.inl ⟨hto, hp⟩) ⟨hone, hother, hobs⟩
    · have hlt := hclients.one_lt hobs
      exact h _ (.inr ⟨by omega, hone, hc, rfl⟩) ⟨hone, hother, hobs⟩
  · rintro h p (⟨hto, hp⟩ | ⟨_, _, hc, rfl⟩) ⟨hone, hother, hobs⟩
    · exact h ⟨p, hone, hother, hobs, .inl ⟨hto, hp⟩⟩
    · exact h ⟨_, hone, hother, hobs, .inr ⟨rfl, hc⟩⟩

/-- A message of a client has no effect exactly if nobody takes it. -/
theorem recv_quiet_iff (hclients : ClientsOnly s.services) (client : ClientPeer)
    {bytes : List UInt8} {data : RpcData}
    (hdata : decompressRpc w.world.codec false client bytes = some data)
    (hobject : (w.tree.repository.getObject w.isInstanceValid data.objectId).1 = some object)
    (hconfig : w.world.data.freshConfig methodField (w.tree.script object) data.methodIdx =
      some config) (hentry : w.Entry object config)
    (hm : w.message object config.name data.args = some m) :
    s.Quiet (w.recv client bytes s) ↔ ¬ w.Taken s client data.toPeer m := by
  obtain ⟨s', hasked, hproperties, heffects, hcommands, hrecv⟩ :=
    recv_spec hclients client hdata hobject hconfig hentry hm
  have hforward := hentry.forwarded_eq_nil_iff (s := s) s.services.peers
    (audience w.tree s.services.peers s.services object client data.toPeer) client data.args
  rw [hrecv]
  rcases hentry with ⟨rfl, hsv⟩ | ⟨rfl, hsignal⟩
  · -- the methods for properties are for the server alone
    obtain ⟨nodeId, idx, v, rfl⟩ := message_syncService hm
    have hnobody (p : Int) :
        ¬ w.world.SendsOn w.tree s.services w.syncService config config client p :=
      fun h => not_canTheyRecv_sv h.1 hsv h.2.2.1
    rw [hforward.2 (fun p _ => hnobody p), List.append_nil] at hcommands
    have hquiet (after : FieldState N) : s.Quiet after ↔ s'.Quiet after := by
      simp only [FieldState.Quiet, heffects, hcommands]
    rw [hquiet]
    by_cases hto : data.toPeer = 0 ∨ data.toPeer = 1
    · rw [if_pos hto, handle, receiveProperties_quiet_iff (hclients.of_asked hasked),
        propertyTaken_congr hasked hproperties]
      simp only [Taken, hto, true_and]
    · rw [if_neg hto]
      simp only [Taken, hto, false_and, not_false_eq_true, FieldState.Quiet, and_self]
  · -- the server emits a signal itself, and sends the message on
    obtain ⟨nodeId, idx, args, rfl⟩ := message_replicationService hm
    rw [nobody_sentOn_iff hclients client data.toPeer hsignal] at hforward
    obtain ⟨hcommands', heffects'⟩ := signalReplicate_spec w s' nodeId idx args
    by_cases hto : data.toPeer = 0 ∨ data.toPeer = 1
    · rw [if_pos hto, handle, FieldState.Quiet, hcommands', hcommands, List.append_right_eq_self,
        hforward, ← heffects, heffects', Taken]
      simp only [hto, true_and, not_or]
    · rw [if_neg hto, FieldState.Quiet, hcommands, List.append_right_eq_self, hforward, heffects,
        Taken]
      simp only [hto, true_and, false_and, false_or]

/-- Only who may write a field changes it or sends it on, exactly if the message reaches no one
or its sender may write the field. -/
theorem write_authority_iff (w : FieldWorld S N) (s : FieldState N)
    (hclients : ClientsOnly s.services) (client : ClientPeer) (bytes : List UInt8)
    (data : RpcData) (object : N) (config : ReplicationMethodConfig) (m : FieldMessage)
    (hdata : decompressRpc w.world.codec false client bytes = some data)
    (hobject : (w.tree.repository.getObject w.isInstanceValid data.objectId).1 = some object)
    (hconfig : w.world.data.freshConfig methodField (w.tree.script object) data.methodIdx =
      some config) (hentry : w.Entry object config)
    (hm : w.message object config.name data.args = some m) :
    w.AuthorityKept s client bytes m ↔
      w.Authorised client m ∨ ¬ w.Taken s client data.toPeer m := by
  rw [AuthorityKept, recv_quiet_iff hclients client hdata hobject hconfig hentry hm, not_not,
    imp_iff_not_or]
  exact or_comm

end FieldWorld

/-- The root, the two services, and a node with one property. -/
inductive FieldNode where
  | root
  | sync
  | replication
  | player
  deriving DecidableEq

/-- Only the server may write it. -/
def hpConfig : ReplicationPropertyConfig where
  instanceId := 13
  name := "hp"
  sync := .request

def fieldData : ReplicationData FieldNode where
  scripts := .discrete
  scriptReplicationMap
    | .root => none
    | .sync => some syncServiceReplication
    | .replication => some replicationServiceReplication
    | .player => some { propertyConfig := [hpConfig] }

def fieldTree : ServerTree FieldNode FieldNode where
  parent n := if n = .root then none else some .root
  rank n := if n = .root then 0 else 1
  rank_lt {a b} h := by
    cases a <;> cases h <;> decide
  root := .root
  parent_root := rfl
  under_root n := by cases n <;> decide
  isService n := n = .sync || n = .replication
  service_parent n h := by
    cases n <;> first | rfl | cases h
  isScene _ := false
  script := some
  repository := ((((Repository.new.addObject .root).2.addObject .sync).2.addObject
    .replication).2.addObject .player).2
  coherent := by
    have h0 := Repository.Coherent.new.addObject (n := FieldNode.root) ⟨by decide, by decide⟩
    have h1 := h0.addObject (n := .sync) ⟨by decide, by decide⟩
    have h2 := h1.addObject (n := .replication) ⟨by decide, by decide⟩
    exact h2.addObject ⟨by decide, by decide⟩
  registered n := by cases n <;> decide
  root_id := by decide

def fieldWorld : FieldWorld FieldNode FieldNode where
  world := {
    data := fieldData
    codec := intArrayCodec
    owner := fun _ => none
    hasMethod := fun _ _ => true
    isQueuedForDeletion := fun _ => false
    objectChannels := fun _ => none
    time := 0 }
  tree := fieldTree
  isInstanceValid _ := true
  syncService := .sync
  replicationService := .replication
  runs_sync := ⟨rfl, rfl, rfl, fun _ _ => rfl⟩
  runs_replication := ⟨rfl, rfl, rfl, fun _ _ => rfl⟩
  toInt
    | .int z => some z
    | _ => none
  toArray
    | .array elements => some elements
    | _ => none
  tweenFits _ _ := true
  listens _ _ := false

/-- Peer 2 is connected. -/
def fieldState : FieldState FieldNode where
  ratelimits := .empty
  services := { ReplicationService.start with
    peers := [2] }
  properties _ _ := .int 5
  configCache := .empty
  propertyInterpolationCache := .empty
  signalLoopBlock := .empty
  effects := []
  commands := []

/-- Peer 2 asks the server to set the hp of the player. -/
def hpPacket : List UInt8 := compressRpc intArrayCodec false 2 1 1 2 [.int 3, .int 0, .int 999]

namespace FieldWorld

theorem write_authority_hp :
    fieldWorld.AuthorityKept fieldState 2 hpPacket (.properties 3 0 (.int 999)) ↔
      fieldWorld.Authorised 2 (.properties 3 0 (.int 999)) ∨
        ¬ fieldWorld.Taken fieldState 2 1 (.properties 3 0 (.int 999)) :=
  write_authority_iff fieldWorld fieldState ⟨by decide, fun _ _ h => by cases h⟩
    .two hpPacket ⟨2, 1, 1, 2, [.int 3, .int 0, .int 999]⟩ .sync
    svReceiveReliableProperties (.properties 3 0 (.int 999)) rfl rfl rfl (.inl ⟨rfl, .inl rfl⟩) rfl

/-- Peer 2 may not write the property, and the server sets it. -/
theorem authority_lost :
    decompressRpc intArrayCodec false 2 hpPacket =
        some ⟨2, 1, 1, 2, [.int 3, .int 0, .int 999]⟩ ∧
      fieldWorld.message .sync svReceiveReliableProperties.name [.int 3, .int 0, .int 999] =
        some (.properties 3 0 (.int 999)) ∧
      ¬ fieldWorld.AuthorityKept fieldState 2 hpPacket (.properties 3 0 (.int 999)) := by
  have hset : (fieldWorld.recv 2 hpPacket fieldState).effects.length = 1 := by decide +kernel
  have hfield : fieldWorld.fieldAt propertyField 3 0 = some (.player, hpConfig) := rfl
  refine ⟨rfl, rfl, fun h => ?_⟩
  have hloud : ¬ fieldState.Quiet (fieldWorld.recv 2 hpPacket fieldState) := by
    intro hq
    rw [hq.1] at hset
    cases hset
  obtain ⟨node, c, hc, hsend⟩ := h hloud
  rw [hfield] at hc
  cases hc
  exact absurd hsend (by decide)

end FieldWorld

end Godaemon
