import Godaemon.Lib.Hub
import Godaemon.Services.PropertyRecipients

namespace Godaemon
set_option autoImplicit true

/-- One property on the server and its clients, with its values on their way: every channel is
reliable and keeps the order. -/
structure PropertyNetwork (N : Type) where
  server : SyncState N
  client : Int → Variant
  up : Int → List Variant
  down : Int → List Variant
  /-- Whose write the server's value is. -/
  writer : Int
  /-- What a client has received last since it wrote. -/
  heard : Int → Option Variant

/-- Writes are followed by `request_sync`. -/
inductive PropertyEvent where
  | serverWrite (value : Variant)
  | clientWrite (peer : Int) (value : Variant)
  | deliverUp (peer : Int)
  | deliverDown (peer : Int)

namespace PropertyNetwork

open ReplicationService

variable {S N : Type} [DecidableEq N] (w : FieldWorld S N) (node : N)
  (c : ReplicationPropertyConfig) (n : PropertyNetwork N)

/-- The server has a new value, and packets of it on their way. -/
def serverStep (server : SyncState N) (value : Variant) (writer : Int) : PropertyNetwork N :=
  { n with
    server := server
    down := fun p =>
      if p ∈ n.server.recipients server.toFieldState then n.down p ++ [value] else n.down p
    writer := writer }

def step : PropertyEvent → PropertyNetwork N
  | .serverWrite value =>
    n.serverStep (w.requestSync node c.name { n.server with
      toFieldState := n.server.setProperty node c.name value }) value 1
  | .clientWrite peer value => { n with
    client := Function.update n.client peer value
    up :=
      if c.canTheySend (w.owner node) peer then
        Function.update n.up peer (n.up peer ++ [value])
      else n.up
    heard := Function.update n.heard peer none }
  | .deliverUp peer =>
    match n.up peer with
    | [] => n
    | value :: rest => serverStep { n with
      up := Function.update n.up peer rest } { n.server with
        toFieldState := w.receiveProperties peer (w.tree.repository.getId node)
          (w.world.data.freshIdx propertyField (w.tree.script node) c) value
          n.server.toFieldState } value peer
  | .deliverDown peer =>
    match n.down peer with
    | [] => n
    | value :: rest =>
      let n := { n with
        down := Function.update n.down peer rest }
      if !c.canTheyRecv (w.owner node) peer then n
      else
        let v := ((n.client peer).assign w.toArray value).1
        { n with
          client := Function.update n.client peer v
          heard := Function.update n.heard peer (some v) }

/-- No message is on its way between the server and a client. -/
def Quiet : Prop := ∀ p ∈ n.server.services.peers, n.up p = [] ∧ n.down p = []

instance (n : PropertyNetwork N) : Decidable n.Quiet :=
  inferInstanceAs (Decidable (∀ p ∈ _, n.up p = [] ∧ n.down p = []))

/-- The premises: everyone may receive the property, the server may send it, and its scripts are
set up. -/
structure Shared (s : SyncState N) : Prop where
  config : w.world.data.objectToConfig propertyField (w.tree.script node) c.name = some c
  valid : w.isInstanceValid node = true
  not_blocked : node ∉ s.blockedNodes
  sync : c.sync = .request
  reliable : c.reliable = true
  server_sends : c.canTheySend (w.owner node) 1 = true
  all_receive : ∀ p, c.canTheyRecv (w.owner node) p = true
  clients : FieldWorld.ClientsOnly s.services
  to_array : ∀ elements, w.toArray (.array elements) = some elements

/-- A write of the server, or of a client that may send the property, of a value of the kind that
the property has. -/
def Admitted (array : Bool) : PropertyEvent → Prop
  | .serverWrite value => value.isArray = array
  | .clientWrite peer value =>
    value.isArray = array ∧ peer ≠ 1 ∧ c.canTheySend (w.owner node) peer = true
  | _ => True

/-- The hub that the server and its clients make up. -/
def hub : Hub Int Variant where
  value := n.server.properties node c.name
  origin := if n.writer = 1 then none else some n.writer
  spoke := n.client
  up := n.up
  down := n.down
  heard := n.heard

def hubEvent : PropertyEvent → Hub.Event Int Variant
  | .serverWrite value => .write value
  | .clientWrite peer value => .spokeWrite peer value
  | .deliverUp peer => .deliverUp peer
  | .deliverDown peer => .deliverDown peer

/-- Whom the server tells about a value that it has from this writer. -/
def reaches (s : SyncState N) (origin : Option Int) (p : Int) : Bool :=
  s.services.Observes w.tree node p && s.services.Observes w.tree w.syncService p &&
    match origin with
    | none => true
    | some writer => !(p = writer || c.getRobns && p = w.owner node)

/-- All values are of one kind, and only the values and the channels have changed. -/
structure Running (array : Bool) (s : SyncState N) (n : PropertyNetwork N) : Prop where
  asked : Asked w.tree s.services n.server.services
  blocked : n.server.blockedNodes = s.blockedNodes
  value : (n.server.properties node c.name).isArray = array
  client : ∀ p, (n.client p).isArray = array
  up : ∀ p, ∀ v ∈ n.up p, v.isArray = array
  down : ∀ p, ∀ v ∈ n.down p, v.isArray = array
  writers : ∀ p, n.up p ≠ [] → p ≠ 1

variable {w node c} {s : SyncState N} {n : PropertyNetwork N}

theorem assign_same (h : ∀ elements, w.toArray (.array elements) = some elements)
    {current value : Variant} (hkind : value.isArray = current.isArray) :
    current.assign w.toArray value = (value, true) := by
  rw [Variant.assign]
  cases value with
  | array elements =>
    rw [← hkind]
    simp only [Variant.isArray, ↓reduceIte, h]
  | _ =>
    rw [← hkind]
    rfl

theorem Shared.fieldAt (h : Shared w node c s) :
    w.fieldAt propertyField (w.tree.repository.getId node)
      (w.world.data.freshIdx propertyField (w.tree.script node) c) = some (node, c) := by
  have hget := (w.tree.coherent.getId_of_mem (w.tree.registered node)).2.2
  have hobject : (w.tree.repository.getObject w.isInstanceValid
      (w.tree.repository.getId node)).1 = some node := by
    simp only [Repository.getObject, hget, h.valid, ↓reduceIte]
  simp only [FieldWorld.fieldAt, hobject,
    (ReplicationData.objectToConfig_inverse h.config).2, Option.map_some]

theorem sendEach_frame {t : FieldState N} (passes : Int → Bool) (reliable : Bool)
    (args : List Variant) {peers : List Int} (hpeers : ∀ p ∈ peers, 1 < p) :
    Asked w.tree t.services
        (w.sendEach passes (getReceiveRpc true reliable) args peers t).services ∧
      (w.sendEach passes (getReceiveRpc true reliable) args peers t).properties =
        t.properties := by
  obtain ⟨services, hasked, hsend⟩ :=
    FieldWorld.sendEach_spec (w := w) (s := t) passes reliable args peers hpeers
  rw [hsend]
  exact ⟨hasked, rfl⟩

theorem Shared.one_lt (h : Shared w node c s)
    (hp : p ∈ (s.services.getObservingPeers w.tree node).1) :
    1 < p :=
  h.clients.one_lt (T := w.tree) hp

theorem Shared.requestSync (h : Shared w node c s) {t : SyncState N}
    (hservices : t.services = s.services) (hblocked : t.blockedNodes = s.blockedNodes) :
    Asked w.tree s.services (w.requestSync node c.name t).services ∧
      (w.requestSync node c.name t).properties = t.properties ∧
      (w.requestSync node c.name t).blockedNodes = s.blockedNodes := by
  have hid := w.tree.getId_ne_neg_one node
  have hnot : node ∉ t.blockedNodes := hblocked ▸ h.not_blocked
  simp only [FieldWorld.requestSync, hnot, hid, h.config, h.sync, h.server_sends,
    ↓reduceIte, ne_eq, not_true_eq_false, Bool.not_true, Bool.false_eq_true, hservices]
  obtain ⟨hasked, hproperties⟩ := sendEach_frame (w := w) (t := { t.toFieldState with
      services := (s.services.getObservingPeers w.tree node).2 })
    (fun p => c.canTheyRecv (w.owner node) p || p = 1) c.reliable
    [.int (w.tree.repository.getId node),
      .int (w.world.data.freshIdx propertyField (w.tree.script node) c),
      t.properties node c.name] (fun _ hp => h.one_lt hp)
  exact ⟨asked_getObservingPeers.trans hasked, hproperties, hblocked⟩

theorem Shared.receiveProperties (h : Shared w node c s) {value : Variant} (peer : Int)
    (hkind : value.isArray = (s.properties node c.name).isArray) :
    Asked w.tree s.services (w.receiveProperties peer (w.tree.repository.getId node)
        (w.world.data.freshIdx propertyField (w.tree.script node) c) value
        s.toFieldState).services ∧
      (w.receiveProperties peer (w.tree.repository.getId node)
        (w.world.data.freshIdx propertyField (w.tree.script node) c) value
        s.toFieldState).properties = (s.setProperty node c.name value).properties := by
  have happly : w.applyProperty node c value s.toFieldState =
      (s.setProperty node c.name value, true) := by
    simp only [FieldWorld.applyProperty, h.all_receive, Bool.not_true, Bool.false_eq_true,
      ↓reduceIte, FieldState.applyProperty, h.sync, assign_same h.to_array hkind]
  have honce : c.sync ≠ .once := by
    rw [h.sync]
    decide
  simp only [FieldWorld.receiveProperties, h.fieldAt, if_neg honce, happly,
    FieldWorld.forwardProperty_eq]
  obtain ⟨hasked, hproperties⟩ := sendEach_frame (w := w) (t := {
      s.setProperty node c.name value with
      services := (s.services.getObservingPeers w.tree node).2 })
    (fun p => ¬ (p = peer ∨ c.getRobns = true ∧ p = w.owner node))
    (if c.sync ≠ .smooth then c.reliable else false)
    [.int (w.tree.repository.getId node),
      .int (w.world.data.freshIdx propertyField (w.tree.script node) c), value]
    (fun _ hp => h.one_lt hp)
  exact ⟨asked_getObservingPeers.trans hasked, hproperties⟩

theorem Shared.of_running (h : Shared w node c s) (hr : Running w node c array s n) :
    Shared w node c n.server :=
  { h with
    not_blocked := hr.blocked ▸ h.not_blocked
    clients := h.clients.of_asked hr.asked }

theorem kept_update {f : Int → List Variant} {P : Variant → Prop} {p : Int} {vs : List Variant}
    (hf : ∀ q, ∀ v ∈ f q, P v) (hvs : ∀ v ∈ vs, P v) :
    ∀ q, ∀ v ∈ Function.update f p vs q, P v := by
  intro q v hv
  by_cases hq : q = p
  · subst hq
    rw [Function.update_self] at hv
    exact hvs v hv
  · rw [Function.update_of_ne hq] at hv
    exact hf q v hv

theorem serverStep_spec {server : SyncState N} {value : Variant} {origin : Option Int}
    {writer : Int}
    (hr : Running w node c array s n) (hkind : value.isArray = array)
    (hasked : Asked w.tree s.services server.services)
    (hblocked : server.blockedNodes = s.blockedNodes)
    (hvalue : server.properties node c.name = value)
    (hwriter : origin = if writer = 1 then none else some writer)
    (hsent : ∀ p, p ∈ n.server.recipients server.toFieldState ↔
      reaches w node c s origin p = true) :
    Running w node c array s (n.serverStep server value writer) ∧
      (n.serverStep server value writer).hub node c =
        (n.hub node c).spread (reaches w node c s) origin value := by
  apply And.intro
  · apply Running.mk hasked hblocked
    · change (server.properties node c.name).isArray = array
      rw [hvalue]
      exact hkind
    · exact hr.client
    · exact hr.up
    · intro p v hv
      simp only [serverStep] at hv
      split at hv
      · cases List.mem_append.1 hv with
        | inl hv => exact hr.down p v hv
        | inr hv =>
          rw [List.mem_singleton.1 hv]
          exact hkind
      · exact hr.down p v hv
    · exact hr.writers
  · refine Hub.ext ?_ ?_ rfl rfl ?_ rfl
    · exact hvalue
    · exact hwriter.symm
    · funext p
      simp only [hub, serverStep, Hub.spread, hsent]

theorem kept_tail {f : Int → List Variant} {P : Variant → Prop} {value : Variant}
    (hf : ∀ q, ∀ v ∈ f q, P v) (hp : f p = value :: rest) :
    P value ∧ ∀ q, ∀ v ∈ Function.update f p rest q, P v := by
  apply And.intro
  · exact hf p value (by rw [hp]; exact List.mem_cons_self)
  · apply kept_update hf
    intro v hv
    exact hf p v (by rw [hp]; exact List.mem_cons_of_mem _ hv)

theorem kind_update {f : Int → Variant} {value : Variant} (hf : ∀ q, (f q).isArray = array)
    (hkind : value.isArray = array) (p q : Int) :
    (Function.update f p value q).isArray = array := by
  by_cases hq : q = p
  · subst hq
    rw [Function.update_self]
    exact hkind
  · rw [Function.update_of_ne hq]
    exact hf q

theorem writers_update {f : Int → List Variant} (hf : ∀ q, f q ≠ [] → q ≠ 1) (hp : p ≠ 1)
    (q : Int) (hq : Function.update f p vs q ≠ []) : q ≠ 1 := by
  by_cases heq : q = p
  · rw [heq]
    exact hp
  · rw [Function.update_of_ne heq] at hq
    exact hf q hq

theorem Running.serverWrite {value : Variant} (h : Shared w node c s)
    (hr : Running w node c array s n) (hkind : value.isArray = array) :
    Running w node c array s (n.step w node c (.serverWrite value)) ∧
      (n.step w node c (.serverWrite value)).hub node c =
        (n.hub node c).step (reaches w node c s) (.write value) := by
  have hn := h.of_running hr
  obtain ⟨t, ht⟩ : ∃ t : SyncState N, t = { n.server with
    toFieldState := n.server.setProperty node c.name value } := ⟨_, rfl⟩
  have hservices : t.services = n.server.services := by rw [ht]; rfl
  have hblocked : t.blockedNodes = n.server.blockedNodes := by rw [ht]
  have hvalue : t.properties node c.name = value := by
    rw [ht]
    simp only [FieldState.setProperty, Function.update_self]
  obtain ⟨hasked, hproperties, hkept⟩ := hn.requestSync hservices hblocked
  have hrequests : w.Requests t node c.name c :=
    ⟨hblocked ▸ hn.not_blocked, hn.config, hn.sync, hn.server_sends⟩
  have hclients : FieldWorld.ClientsOnly t.services := hservices ▸ hn.clients
  simp only [PropertyNetwork.step, ← ht]
  apply serverStep_spec hr hkind (hr.asked.trans hasked) (hkept.trans hr.blocked)
  · rw [hproperties]
    exact hvalue
  · rfl
  · intro p
    have hmem := FieldWorld.mem_recipients_requestSync (p := p) hclients hrequests
    rw [hservices, hr.asked.observes, hr.asked.observes] at hmem
    have hcommands : n.server.recipients (w.requestSync node c.name t).toFieldState =
        t.recipients (w.requestSync node c.name t).toFieldState := by
      simp only [FieldState.recipients]
      rw [ht]
      rfl
    rw [hcommands, hmem]
    simp only [hn.all_receive, reaches, true_and, Bool.and_true, Bool.and_eq_true,
      decide_eq_true_eq]

theorem Running.clientWrite {value : Variant} (hr : Running w node c array s n)
    (hkind : value.isArray = array) (hpeer : peer ≠ 1)
    (hsend : c.canTheySend (w.owner node) peer = true) :
    Running w node c array s (n.step w node c (.clientWrite peer value)) ∧
      (n.step w node c (.clientWrite peer value)).hub node c =
        (n.hub node c).step (reaches w node c s) (.spokeWrite peer value) := by
  simp only [PropertyNetwork.step, hsend, ↓reduceIte]
  apply And.intro
  · refine ⟨hr.asked, hr.blocked, hr.value, ?_, ?_, hr.down, ?_⟩
    · exact kind_update hr.client hkind peer
    · apply kept_update hr.up
      intro v hv
      cases List.mem_append.1 hv with
      | inl hv => exact hr.up peer v hv
      | inr hv =>
        rw [List.mem_singleton.1 hv]
        exact hkind
    · exact writers_update hr.writers hpeer
  · rfl

theorem Running.deliverUp (h : Shared w node c s) (hr : Running w node c array s n) (peer : Int) :
    Running w node c array s (n.step w node c (.deliverUp peer)) ∧
      (n.step w node c (.deliverUp peer)).hub node c =
        (n.hub node c).step (reaches w node c s) (.deliverUp peer) := by
  have hn := h.of_running hr
  cases hup : n.up peer with
  | nil =>
    have hhub : (n.hub node c).up peer = [] := hup
    simp only [PropertyNetwork.step, hup, Hub.step, hhub, and_true]
    exact hr
  | cons value rest =>
    have hhub : (n.hub node c).up peer = value :: rest := hup
    obtain ⟨hkind, hrest⟩ := kept_tail hr.up hup
    have hsame : value.isArray = (n.server.properties node c.name).isArray := by
      rw [hr.value]
      exact hkind
    have hone : peer ≠ 1 := hr.writers peer (by rw [hup]; exact List.cons_ne_nil _ _)
    obtain ⟨hasked, hproperties⟩ := hn.receiveProperties peer hsame
    have hfails : ¬ w.Fails n.server.toFieldState node c value := by
      intro hfail
      have hassign := assign_same hn.to_array hsame
      rw [Variant.assign, hfail.2.2.1, if_pos rfl, hfail.2.2.2] at hassign
      cases hassign
    have honce : c.sync ≠ .once := by
      rw [hn.sync]
      decide
    have hr' : Running w node c array s { n with
        up := Function.update n.up peer rest } :=
      ⟨hr.asked, hr.blocked, hr.value, hr.client, hrest, hr.down,
        writers_update hr.writers hone⟩
    simp only [PropertyNetwork.step, hup, Hub.step, hhub]
    refine serverStep_spec hr' hkind ?_ hr.blocked ?_ (if_neg hone).symm ?_
    · exact hr.asked.trans hasked
    · change (w.receiveProperties peer _ _ value n.server.toFieldState).properties node c.name = _
      rw [hproperties]
      simp only [FieldState.setProperty, Function.update_self]
    · intro p
      refine (FieldWorld.mem_recipients_receiveProperties hn.clients hn.fieldAt honce
        hfails).trans ?_
      rw [hr.asked.observes, hr.asked.observes]
      simp only [reaches, Bool.and_eq_true, decide_eq_true_eq, Bool.not_eq_true',
        Bool.or_eq_false_iff, decide_eq_false_iff_not, Bool.and_eq_false_iff, not_or, not_and_or,
        Bool.not_eq_true]
      tauto

theorem Running.deliverDown (h : Shared w node c s) (hr : Running w node c array s n)
    (peer : Int) :
    Running w node c array s (n.step w node c (.deliverDown peer)) ∧
      (n.step w node c (.deliverDown peer)).hub node c =
        (n.hub node c).step (reaches w node c s) (.deliverDown peer) := by
  have hn := h.of_running hr
  cases hdown : n.down peer with
  | nil =>
    have hhub : (n.hub node c).down peer = [] := hdown
    simp only [PropertyNetwork.step, hdown, Hub.step, hhub, and_true]
    exact hr
  | cons value rest =>
    have hhub : (n.hub node c).down peer = value :: rest := hdown
    obtain ⟨hkind, hrest⟩ := kept_tail hr.down hdown
    have hsame : value.isArray = (n.client peer).isArray := by
      rw [hr.client]
      exact hkind
    simp only [PropertyNetwork.step, hdown, Hub.step, hhub, hn.all_receive,
      Bool.not_true, Bool.false_eq_true, ↓reduceIte, assign_same hn.to_array hsame]
    apply And.intro
    · exact ⟨hr.asked, hr.blocked, hr.value, kind_update hr.client hkind peer, hr.up, hrest,
        hr.writers⟩
    · rfl

theorem Running.step (h : Shared w node c s) (hr : Running w node c array s n)
    {e : PropertyEvent} (he : Admitted w node c array e) :
    Running w node c array s (n.step w node c e) ∧
      (n.step w node c e).hub node c =
        (n.hub node c).step (reaches w node c s) (hubEvent e) := by
  cases e with
  | serverWrite value => exact hr.serverWrite h he
  | clientWrite peer value => exact hr.clientWrite he.1 he.2.1 he.2.2
  | deliverUp peer => exact hr.deliverUp h peer
  | deliverDown peer => exact hr.deliverDown h peer

theorem Running.run (h : Shared w node c s) (hr : Running w node c array s n)
    (events : List PropertyEvent) (he : ∀ e ∈ events, Admitted w node c array e) :
    Running w node c array s (Runs.run (PropertyNetwork.step w node c) n events) ∧
      (Runs.run (PropertyNetwork.step w node c) n events).hub node c =
        Runs.run (Hub.step (reaches w node c s)) (n.hub node c) (events.map hubEvent) := by
  induction events generalizing n with
  | nil => exact ⟨hr, rfl⟩
  | cons e events ih =>
    obtain ⟨hr', hhub⟩ := hr.step h (he e List.mem_cons_self)
    rw [Runs.run_cons, List.map_cons, Runs.run_cons, ← hhub]
    exact ih hr' (fun e' he' => he e' (List.mem_cons_of_mem _ he'))

variable (w node c s)

/-- The clients have the server's value, and nothing is on its way. -/
def start : PropertyNetwork N where
  server := s
  client _ := s.properties node c.name
  up _ := []
  down _ := []
  writer := 1
  heard _ := none

/-- The network after a run of events. -/
def after (events : List PropertyEvent) : PropertyNetwork N :=
  Runs.run (PropertyNetwork.step w node c) (start node c s) events

variable {w node c s}

theorem running_start :
    Running w node c (s.properties node c.name).isArray s (start node c s) :=
  ⟨.refl, rfl, rfl, fun _ => rfl, fun _ _ hv => absurd hv List.not_mem_nil,
    fun _ _ hv => absurd hv List.not_mem_nil, fun _ hne => absurd rfl hne⟩

omit [DecidableEq N] in
theorem follows_start (node : N) (c : ReplicationPropertyConfig) (s : SyncState N) (p : Int) :
    ((start node c s).hub node c).Follows p := by
  apply Hub.Follows.mk
  · intro v hv
    cases hv
  · intro _ v hv
    cases hv
  · intro _ _ _
    rfl
  · intro _ v hv
    cases hv
  · intro _ _ _
    rfl

/-- Once no message is on its way, a client that observes the node (and is not an owner who is left
out) has the server's value, exactly if that is not its own or it has received no other since it
wrote last. -/
theorem quiescent_agreement_iff (w : FieldWorld S N) (node : N) (c : ReplicationPropertyConfig)
    (s : SyncState N) (h : Shared w node c s) (events : List PropertyEvent)
    (he : ∀ e ∈ events, Admitted w node c (s.properties node c.name).isArray e)
    (hquiet : (after w node c s events).Quiet) (p : Int)
    (hp : p ∈ s.services.peers) (hobs : s.services.Observes w.tree node p)
    (hsync : s.services.Observes w.tree w.syncService p)
    (howner : ¬ (c.getRobns = true ∧ p = w.owner node)) :
    (after w node c s events).client p = (after w node c s events).server.properties node c.name ↔
      ((after w node c s events).writer = p →
        ∀ v, (after w node c s events).heard p = some v →
          v = (after w node c s events).server.properties node c.name) := by
  obtain ⟨hr, hhub⟩ := running_start.run h events he
  have hone := h.clients.1 p hp
  have hreach : ∀ o, o ≠ some p → reaches w node c s o p = true := by
    intro o ho
    simp only [reaches, hobs, hsync, decide_true, Bool.true_and]
    cases o with
    | none => rfl
    | some writer =>
      have hne : p ≠ writer := fun heq => ho (by rw [heq])
      simp only [hne, decide_false, Bool.false_or, Bool.not_eq_true', Bool.and_eq_false_iff,
        decide_eq_false_iff_not]
      cases hrobns : c.getRobns with
      | false => exact .inl rfl
      | true => exact .inr (fun heq => howner ⟨hrobns, heq⟩)
  have hfollows := Hub.Follows.run hreach (follows_start node c s p)
    (events.map hubEvent)
  rw [← hhub] at hfollows
  obtain ⟨hup, hdown⟩ := hquiet p (hr.asked.peers ▸ hp)
  refine (hfollows.agrees_iff hup hdown).trans ?_
  have horigin : ((after w node c s events).hub node c).origin = some p ↔
      (after w node c s events).writer = p := by
    simp only [hub]
    split
    · next hserver =>
      rw [hserver]
      exact ⟨nofun, fun heq => by omega⟩
    · exact Option.some_inj
  exact Iff.imp horigin Iff.rfl

/-- A run of a property that anyone may write: the writes of the server and of peer 2 cross. -/
def crossing : List PropertyEvent :=
  [.serverWrite (.int 1), .clientWrite 2 (.int 2), .deliverDown 2, .deliverUp 2, .deliverDown 3,
    .deliverDown 3]

theorem shared_team : Shared playerWorld .player teamConfig playerState where
  config := rfl
  valid := rfl
  not_blocked := by decide
  sync := rfl
  reliable := rfl
  server_sends := rfl
  all_receive p := by
    rw [ReplicationConfigBase.canTheyRecv]
    cases ReplicationConfigBase.filterOf (playerWorld.owner .player) p <;> rfl
  clients := ⟨by decide, fun _ _ h => by cases h⟩
  to_array _ := rfl

theorem admitted_crossing : ∀ e ∈ crossing, Admitted playerWorld .player teamConfig
    (playerState.properties .player teamConfig.name).isArray e := by
  intro e he
  simp only [crossing, List.mem_cons, List.not_mem_nil, or_false] at he
  rcases he with rfl | rfl | rfl | rfl | rfl | rfl
  · rfl
  · exact ⟨rfl, by decide, by decide⟩
  · trivial
  · trivial
  · trivial
  · trivial

theorem quiescent_agreement_team :
    (after playerWorld .player teamConfig playerState crossing).client 3 =
        (after playerWorld .player teamConfig playerState crossing).server.properties .player
          teamConfig.name ↔
      ((after playerWorld .player teamConfig playerState crossing).writer = 3 →
        ∀ v, (after playerWorld .player teamConfig playerState crossing).heard 3 = some v →
          v = (after playerWorld .player teamConfig playerState crossing).server.properties .player
            teamConfig.name) :=
  quiescent_agreement_iff playerWorld .player teamConfig playerState shared_team crossing
    admitted_crossing (by decide +kernel) 3 (by decide) (by decide +kernel) (by decide +kernel)
    (by decide)

/-- Nothing is on its way, and the server has the value of peer 2, which has the server's. -/
theorem crossing_differs :
    Shared playerWorld .player teamConfig playerState ∧
      (∀ e ∈ crossing, Admitted playerWorld .player teamConfig
        (playerState.properties .player teamConfig.name).isArray e) ∧
      playerState.services.Observes fieldTree .player 2 ∧
      (after playerWorld .player teamConfig playerState crossing).Quiet ∧
      (after playerWorld .player teamConfig playerState crossing).client 2 ≠
        (after playerWorld .player teamConfig playerState crossing).server.properties .player
          teamConfig.name := by
  refine ⟨shared_team, admitted_crossing, by decide +kernel, by decide +kernel, fun h => ?_⟩
  have hclient : playerWorld.toInt
      ((after playerWorld .player teamConfig playerState crossing).client 2) = some 1 := by
    decide +kernel
  rw [h] at hclient
  have hserver : playerWorld.toInt
      ((after playerWorld .player teamConfig playerState crossing).server.properties .player
        teamConfig.name) = some 2 := by
    decide +kernel
  rw [hserver] at hclient
  cases hclient

end PropertyNetwork

end Godaemon
