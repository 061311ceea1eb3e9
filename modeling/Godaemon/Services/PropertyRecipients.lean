import Godaemon.Services.WriteAuthority

namespace Godaemon
set_option autoImplicit true

/-- The SyncService's own state besides the fields: the nodes that it leaves alone, and when it
last looked for new values. -/
structure SyncState (N : Type) extends FieldState N where
  blockedNodes : List N
  lastInterpolateT : Nat

def Variant.isNull : Variant → Bool
  | .null => true
  | _ => false

def ScriptReplication.smoothProperties (sr : ScriptReplication) : List ReplicationPropertyConfig :=
  sr.propertyConfig.filter (fun c => c.sync = .smooth)

/-- The time between two looks for new values, in milliseconds. -/
def interpolateMspt : Nat := 50

/-- The peers of the packets that are sent from one state to a later one. -/
def FieldState.recipients (s s' : FieldState N) : List Int :=
  (s'.commands.drop s.commands.length).map (fun command => command.peer)

namespace FieldWorld

open ReplicationService RpcWorld

variable {S N : Type} [DecidableEq N] (w : FieldWorld S N)

/-- The server is asked to share a property that it has changed. -/
def requestSync (node : N) (property : String) (s : SyncState N) : SyncState N :=
  if node ∈ s.blockedNodes then s
  else if w.tree.repository.getId node = -1 then s
  else
    match w.world.data.objectToConfig propertyField (w.tree.script node) property with
    | none => s
    | some c =>
      if c.sync ≠ .request then s
      else if !c.canTheySend (w.owner node) 1 then s
      else
        let idx := w.world.data.freshIdx propertyField (w.tree.script node) c
        let value := s.properties node property
        let (targetPeers, services) := s.services.getObservingPeers w.tree node
        { s with
          toFieldState := w.sendEach (fun p => c.canTheyRecv (w.owner node) p || p = 1)
            (getReceiveRpc true c.reliable)
            [.int (w.tree.repository.getId node), .int idx, value] targetPeers
            { s.toFieldState with services := services } }

/-- The value of a property if it differs from the one seen last, else null. Without a cache
entry the script fails. `equal` is the engine's comparison. -/
def getNewValue (equal : Variant → Variant → Bool) (node : N) (c : ReplicationPropertyConfig)
    (s : FieldState N) : Option (Variant × FieldState N) :=
  match s.configCache.get2? node c with
  | none => none
  | some oldValue =>
    let value := s.properties node c.name
    if equal oldValue value then some (.null, s)
    else some (value, s.setConfigCache node c value)

/-- One turn of the innermost loops of `_process`. -/
def processConfig (equal : Variant → Variant → Bool) (node : N) (targetPeers : List Int)
    (c : ReplicationPropertyConfig) (s : FieldState N) : Option (FieldState N) :=
  if !c.canTheySend (w.owner node) 1 then some s
  else
    match getNewValue equal node c s with
    | none => none
    | some (value, s) =>
      if value.isNull then some s
      else
        let idx := w.world.data.freshIdx propertyField (w.tree.script node) c
        some (w.sendEach
          (fun p => !(c.getRobns && p = w.owner node) && c.canTheyRecv (w.owner node) p)
          (getReceiveRpc true false)
          [.int (w.tree.repository.getId node), .int idx, value] targetPeers s)

/-- Does the pass go on after these properties? -/
def processConfigs (equal : Variant → Variant → Bool) (node : N) (targetPeers : List Int) :
    List ReplicationPropertyConfig → FieldState N → Bool × FieldState N
  | [], s => (true, s)
  | c :: cs, s =>
    match w.processConfig equal node targetPeers c s with
    | none => (false, s)
    | some s => processConfigs equal node targetPeers cs s

def processNodes (equal : Variant → Variant → Bool) (blockedNodes : List N) :
    List N → FieldState N → FieldState N
  | [], s => s
  | node :: nodes, s =>
    if node ∈ blockedNodes then processNodes equal blockedNodes nodes s
    else if w.tree.repository.getId node = -1 then s
    else
      let (targetPeers, services) := s.services.getObservingPeers w.tree node
      let configs := (w.world.data.getAllScriptReplications (w.tree.script node)).flatMap
        (fun sr => sr.smoothProperties)
      match w.processConfigs equal node targetPeers configs { s with services := services } with
      | (true, s) => processNodes equal blockedNodes nodes s
      | (false, s) => s

/-- The pass over all tracked nodes. -/
def process (equal : Variant → Variant → Bool) (msec : Nat) (s : SyncState N) :
    SyncState N :=
  if w.world.isQueuedForDeletion w.syncService then s
  else if msec ≤ s.lastInterpolateT + interpolateMspt then s
  else { s with
    toFieldState := w.processNodes equal s.blockedNodes s.configCache.keys s.toFieldState
    lastInterpolateT := msec }

/-- Who is to get a property's new value from this originator. -/
def Due (s : FieldState N) (originator : Int) (node : N) (c : ReplicationPropertyConfig)
    (p : Int) : Prop :=
  s.services.Observes w.tree node p ∧ p ≠ originator ∧ c.canTheyRecv (w.owner node) p = true ∧
    ¬ (c.getRobns = true ∧ p = w.owner node)

/-- The value is sent to exactly those that are to get it. -/
def SentToDue (s s' : FieldState N) (originator : Int) (node : N) (c : ReplicationPropertyConfig) :
    Prop :=
  ∀ p, p ∈ s.recipients s' ↔ w.Due s originator node c p

/-- Everyone who is to get the value is reached by the RPCs of the SyncService. -/
def Reached (s : FieldState N) (originator : Int) (node : N) (c : ReplicationPropertyConfig) :
    Prop :=
  ∀ p, w.Due s originator node c p → s.services.Observes w.tree w.syncService p

/-- A request for this property is carried out. -/
structure Requests (s : SyncState N) (node : N) (property : String)
    (c : ReplicationPropertyConfig) : Prop where
  not_blocked : node ∉ s.blockedNodes
  config : w.world.data.objectToConfig propertyField (w.tree.script node) property = some c
  sync : c.sync = .request
  can_send : c.canTheySend (w.owner node) 1 = true

/-- The turn of a property that has a new value. -/
structure Refreshes (equal : Variant → Variant → Bool) (s : FieldState N) (node : N)
    (c : ReplicationPropertyConfig) : Prop where
  can_send : c.canTheySend (w.owner node) 1 = true
  tracked : (s.configCache.get2? node c).isSome = true
  new : ∀ v, s.configCache.get2? node c = some v → equal v (s.properties node c.name) = false
  not_null : (s.properties node c.name).isNull = false

variable {w} {s s' : FieldState N}

omit [DecidableEq N] in
theorem recipients_of_commands [DecidableEq N] {w : FieldWorld S N} {service : N} {peers : List Int}
    (h : s'.commands = s.commands ++ peers.map (w.packet service c args)) :
    s.recipients s' = peers := by
  have hpeer (p : Int) : (w.packet service c args p).peer = p := by
    rw [packet, RpcApi.packet, isClient_serverApi]
    rfl
  rw [FieldState.recipients, h, List.drop_left, List.map_map]
  refine (List.map_congr_left fun p _ => hpeer p).trans ?_
  exact List.map_id' peers

theorem mem_recipients_sendEach {passes : Int → Bool} {reliable : Bool} {args : List Variant}
    {peers : List Int} (hasked : Asked w.tree s.services s'.services)
    (hcommands : s'.commands = s.commands) (hpeers : ∀ p ∈ peers, 1 < p) :
    p ∈ s.recipients (w.sendEach passes (getReceiveRpc true reliable) args peers s') ↔
      p ∈ peers ∧ passes p = true ∧ s.services.Observes w.tree w.syncService p := by
  obtain ⟨services, _, h⟩ := sendEach_spec (w := w) (s := s') passes reliable args peers hpeers
  have hobserves (q : Int) : s'.services.Observes w.tree w.syncService q ↔
      s.services.Observes w.tree w.syncService q := hasked.observes
  rw [h, recipients_of_commands (congrArg (· ++ _) hcommands), List.mem_filter]
  simp only [hobserves, Bool.and_eq_true, decide_eq_true_eq]

theorem mem_recipients_requestSync {s : SyncState N} (hclients : ClientsOnly s.services)
    (h : w.Requests s node property c) :
    p ∈ s.recipients (w.requestSync node property s).toFieldState ↔
      s.services.Observes w.tree node p ∧ c.canTheyRecv (w.owner node) p = true ∧
        s.services.Observes w.tree w.syncService p := by
  have hid := w.tree.getId_ne_neg_one node
  simp only [requestSync, h.not_blocked, hid, h.config, h.sync, h.can_send, ↓reduceIte, ne_eq,
    not_true_eq_false, Bool.not_true, Bool.false_eq_true]
  refine Iff.trans (mem_recipients_sendEach asked_getObservingPeers rfl
    (fun q hq => hclients.one_lt (T := w.tree) hq)) ?_
  simp only [Bool.or_eq_true, decide_eq_true_eq]
  apply Iff.intro
  · intro hp
    obtain ⟨hobs, hpass, hreach⟩ := hp
    have hlt := hclients.one_lt (T := w.tree) hobs
    exact ⟨hobs, hpass.resolve_right (by omega), hreach⟩
  · intro hp
    exact ⟨hp.1, .inl hp.2.1, hp.2.2⟩

omit [DecidableEq N] in
theorem getNewValue_of_refreshes [DecidableEq N] {w : FieldWorld S N}
    (h : w.Refreshes equal s node c) :
    getNewValue equal node c s =
      some (s.properties node c.name, s.setConfigCache node c (s.properties node c.name)) := by
  obtain ⟨v, hv⟩ := Option.isSome_iff_exists.1 h.tracked
  simp only [getNewValue, hv, h.new v hv, Bool.false_eq_true, ↓reduceIte]

theorem mem_recipients_processConfig (hclients : ClientsOnly s.services)
    (htargets : ∀ q, q ∈ targetPeers ↔ s.services.Observes w.tree node q)
    (h : w.Refreshes equal s node c) :
    ∃ s', w.processConfig equal node targetPeers c s = some s' ∧
      ∀ p, p ∈ s.recipients s' ↔ s.services.Observes w.tree node p ∧
        (¬ (c.getRobns = true ∧ p = w.owner node) ∧ c.canTheyRecv (w.owner node) p = true) ∧
        s.services.Observes w.tree w.syncService p := by
  obtain ⟨hcommands, hservices, _⟩ :=
    setConfigCache_spec s node c (s.properties node c.name)
  simp only [processConfig, h.can_send, Bool.not_true, Bool.false_eq_true, ↓reduceIte,
    getNewValue_of_refreshes h, h.not_null]
  refine ⟨_, rfl, fun p => ?_⟩
  refine Iff.trans (mem_recipients_sendEach ?_ hcommands
    (fun q hq => hclients.one_lt ((htargets q).1 hq))) ?_
  · rw [hservices]
    exact .refl
  · simp only [htargets, Bool.and_eq_true, Bool.not_eq_true', Bool.and_eq_false_iff,
      decide_eq_false_iff_not, not_and_or, Bool.not_eq_true]

theorem mem_recipients_receiveProperties {value : Variant} (hclients : ClientsOnly s.services)
    (hfield : w.fieldAt propertyField nodeId idx = some (node, c)) (honce : c.sync ≠ .once)
    (hfails : ¬ w.Fails s node c value) :
    p ∈ s.recipients (w.receiveProperties remotePeer nodeId idx value s) ↔
      s.services.Observes w.tree node p ∧
        ¬ (p = remotePeer ∨ c.getRobns = true ∧ p = w.owner node) ∧
        s.services.Observes w.tree w.syncService p := by
  obtain ⟨hgoesOn, hcommands, hservices, _⟩ := applyProperty_spec w s node c value honce
  simp only [receiveProperties, hfield, honce, ↓reduceIte]
  rcases happly : w.applyProperty node c value s with ⟨s', goesOn⟩
  rw [happly] at hgoesOn hcommands hservices
  dsimp only at hgoesOn hcommands hservices
  cases goesOn with
  | false => exact absurd (hgoesOn.1 rfl) hfails
  | true =>
    simp only [forwardProperty_eq]
    refine Iff.trans (mem_recipients_sendEach ?_ hcommands ?_) ?_
    · rw [← hservices]
      exact asked_getObservingPeers
    · intro q hq
      rw [hservices] at hq
      exact hclients.one_lt (T := w.tree) hq
    · rw [hservices, decide_eq_true_eq]
      rfl

/-- A request reaches those it should exactly if the owner is not one that may have the value and
is to be left out. -/
theorem requestSync_sentToDue_iff {s : SyncState N} (hclients : ClientsOnly s.services)
    (h : w.Requests s node property c) :
    w.SentToDue s.toFieldState (w.requestSync node property s).toFieldState 1 node c ↔
      w.Reached s.toFieldState 1 node c ∧
        ¬ (c.getRobns = true ∧ s.services.Observes w.tree node (w.owner node) ∧
          c.canTheyRecv (w.owner node) (w.owner node) = true ∧
          s.services.Observes w.tree w.syncService (w.owner node)) := by
  simp only [SentToDue, mem_recipients_requestSync hclients h]
  apply Iff.intro
  · intro hsent
    apply And.intro
    · intro p hp
      exact ((hsent p).2 hp).2.2
    · intro howner
      obtain ⟨hrobns, hobs, hrecv, hreach⟩ := howner
      exact ((hsent _).1 ⟨hobs, hrecv, hreach⟩).2.2.2 ⟨hrobns, rfl⟩
  · intro hcond p
    obtain ⟨hreached, howner⟩ := hcond
    apply Iff.intro
    · intro hp
      obtain ⟨hobs, hrecv, hreach⟩ := hp
      have hlt := hclients.one_lt hobs
      refine ⟨hobs, by omega, hrecv, ?_⟩
      intro hskip
      obtain ⟨hrobns, rfl⟩ := hskip
      exact howner ⟨hrobns, hobs, hrecv, hreach⟩
    · intro hp
      exact ⟨hp.1, hp.2.2.1, hreached p hp⟩

theorem processConfig_sentToDue_iff (hclients : ClientsOnly s.services)
    (htargets : ∀ q, q ∈ targetPeers ↔ s.services.Observes w.tree node q)
    (h : w.Refreshes equal s node c) :
    ∃ s', w.processConfig equal node targetPeers c s = some s' ∧
      (w.SentToDue s s' 1 node c ↔ w.Reached s 1 node c) := by
  obtain ⟨s', hs', hmem⟩ := mem_recipients_processConfig hclients htargets h
  refine ⟨s', hs', ?_⟩
  simp only [SentToDue, hmem]
  apply Iff.intro
  · intro hsent p hp
    exact ((hsent p).2 hp).2.2
  · intro hreached p
    apply Iff.intro
    · intro hp
      obtain ⟨hobs, hpass, _⟩ := hp
      have hlt := hclients.one_lt hobs
      exact ⟨hobs, by omega, hpass.2, hpass.1⟩
    · intro hp
      exact ⟨hp.1, ⟨hp.2.2.2, hp.2.2.1⟩, hreached p hp⟩

/-- A value of a client goes to those it should exactly if all that it goes to may have it. -/
theorem receiveProperties_sentToDue_iff {value : Variant} (hclients : ClientsOnly s.services)
    (hfield : w.fieldAt propertyField nodeId idx = some (node, c)) (honce : c.sync ≠ .once)
    (hfails : ¬ w.Fails s node c value) :
    w.SentToDue s (w.receiveProperties remotePeer nodeId idx value s) remotePeer node c ↔
      w.Reached s remotePeer node c ∧
        ∀ p, s.services.Observes w.tree node p → w.SharesWith s remotePeer node c p →
          c.canTheyRecv (w.owner node) p = true := by
  simp only [SentToDue, mem_recipients_receiveProperties hclients hfield honce hfails, not_or]
  apply Iff.intro
  · intro hsent
    apply And.intro
    · intro p hp
      exact ((hsent p).2 hp).2.2
    · intro p hobs hshares
      obtain ⟨hother, hskip, hreach⟩ := hshares
      exact ((hsent p).1 ⟨hobs, ⟨hother, hskip⟩, hreach⟩).2.2.1
  · intro hcond p
    obtain ⟨hreached, hallowed⟩ := hcond
    apply Iff.intro
    · intro hp
      obtain ⟨hobs, ⟨hother, hskip⟩, hreach⟩ := hp
      exact ⟨hobs, hother, hallowed p hobs ⟨hother, hskip, hreach⟩, hskip⟩
    · intro hp
      exact ⟨hp.1, ⟨hp.2.1, hp.2.2.2⟩, hreached p hp⟩

variable (w)

/-- A packet with the current value of a property, for a peer that is to get it. -/
def DueCommand (s : FieldState N) (command : Command) : Prop :=
  ∃ node c p, w.Due s 1 node c p ∧ command = w.packet w.syncService (getReceiveRpc true false)
    [.int (w.tree.repository.getId node),
      .int (w.world.data.freshIdx propertyField (w.tree.script node) c),
      s.properties node c.name] p

/-- From one state to the other, nothing but such packets is sent. -/
structure SharesDue (s s' : FieldState N) : Prop where
  asked : Asked w.tree s.services s'.services
  properties : s'.properties = s.properties
  sent : ∃ sent, s'.commands = s.commands ++ sent ∧ ∀ command ∈ sent, w.DueCommand s command

variable {w}

theorem dueCommand_congr (hasked : Asked w.tree s.services s'.services)
    (hproperties : s'.properties = s.properties) :
    w.DueCommand s' command ↔ w.DueCommand s command := by
  simp only [DueCommand, Due, hasked.observes, hproperties]

theorem SharesDue.refl : w.SharesDue s s :=
  ⟨.refl, rfl, [], (List.append_nil _).symm, fun _ h => absurd h List.not_mem_nil⟩

theorem SharesDue.trans {s'' : FieldState N} (h : w.SharesDue s s') (h' : w.SharesDue s' s'') :
    w.SharesDue s s'' := by
  obtain ⟨sent, hsent, hdue⟩ := h.sent
  obtain ⟨sent', hsent', hdue'⟩ := h'.sent
  refine ⟨h.asked.trans h'.asked, h'.properties.trans h.properties, sent ++ sent', ?_, ?_⟩
  · rw [hsent', hsent, List.append_assoc]
  · intro command hc
    cases List.mem_append.1 hc with
    | inl hc => exact hdue command hc
    | inr hc => exact (dueCommand_congr h.asked h.properties).1 (hdue' command hc)

theorem processConfig_sharesDue (hclients : ClientsOnly s.services)
    (htargets : ∀ q, q ∈ targetPeers ↔ s.services.Observes w.tree node q)
    (h : w.processConfig equal node targetPeers c s = some s') : w.SharesDue s s' := by
  simp only [processConfig] at h
  split at h
  · cases h
    exact .refl
  · cases hnew : getNewValue equal node c s with
    | none =>
      rw [hnew] at h
      cases h
    | some new =>
      obtain ⟨value, t⟩ := new
      have ht : t.services = s.services ∧ t.properties = s.properties ∧
          t.commands = s.commands ∧ (value.isNull = false → value = s.properties node c.name) := by
        simp only [getNewValue] at hnew
        cases hcache : s.configCache.get2? node c with
        | none =>
          rw [hcache] at hnew
          cases hnew
        | some old =>
          simp only [hcache] at hnew
          split at hnew
          · cases hnew
            exact ⟨rfl, rfl, rfl, fun hnull => by cases hnull⟩
          · cases hnew
            obtain ⟨hc, hs, _⟩ := setConfigCache_spec s node c (s.properties node c.name)
            refine ⟨hs, ?_, hc, fun _ => rfl⟩
            simp only [FieldState.setConfigCache]
            split <;> rfl
      obtain ⟨hservices, hproperties, hcommands, hvalue⟩ := ht
      simp only [hnew] at h
      cases hnull : value.isNull with
      | true =>
        rw [hnull, if_pos rfl] at h
        cases h
        exact ⟨hservices ▸ .refl, hproperties, [], by rw [hcommands, List.append_nil],
          fun _ h => absurd h List.not_mem_nil⟩
      | false =>
        rw [hnull, if_neg (by decide)] at h
        cases h
        obtain ⟨services, hasked, hsend⟩ := sendEach_spec (w := w) (s := t)
          (fun p => !(c.getRobns && p = w.owner node) && c.canTheyRecv (w.owner node) p) false
          [.int (w.tree.repository.getId node),
            .int (w.world.data.freshIdx propertyField (w.tree.script node) c), value] targetPeers
          (fun q hq => hclients.one_lt ((htargets q).1 hq))
        rw [hsend]
        refine ⟨hservices ▸ hasked, hproperties, _, congrArg (· ++ _) hcommands, ?_⟩
        intro command hc
        obtain ⟨p, hp, rfl⟩ := List.mem_map.1 hc
        simp only [List.mem_filter, Bool.and_eq_true, Bool.not_eq_true', Bool.and_eq_false_iff,
          decide_eq_false_iff_not, decide_eq_true_eq] at hp
        obtain ⟨hmem, ⟨hskip, hrecv⟩, _⟩ := hp
        have hobs := (htargets p).1 hmem
        have hlt := hclients.one_lt hobs
        refine ⟨node, c, p, ⟨hobs, by omega, hrecv, ?_⟩, by rw [hvalue hnull]⟩
        intro howner
        cases hskip with
        | inl hflag => exact absurd howner.1 (by rw [hflag]; decide)
        | inr hne => exact hne howner.2

theorem processConfigs_sharesDue (equal : Variant → Variant → Bool)
    (hclients : ClientsOnly s.services)
    (htargets : ∀ q, q ∈ targetPeers ↔ s.services.Observes w.tree node q)
    (cs : List ReplicationPropertyConfig) :
    w.SharesDue s (w.processConfigs equal node targetPeers cs s).2 := by
  induction cs generalizing s with
  | nil => exact .refl
  | cons c cs ih =>
    simp only [processConfigs]
    cases hc : w.processConfig equal node targetPeers c s with
    | none => exact .refl
    | some s' =>
      have hshares := processConfig_sharesDue hclients htargets hc
      apply hshares.trans
      apply ih (hclients.of_asked hshares.asked)
      intro q
      rw [hshares.asked.observes]
      exact htargets q

theorem processNodes_sharesDue (hclients : ClientsOnly s.services)
    (equal : Variant → Variant → Bool)
    (blockedNodes nodes : List N) :
    w.SharesDue s (w.processNodes equal blockedNodes nodes s) := by
  induction nodes generalizing s with
  | nil => exact .refl
  | cons node nodes ih =>
    simp only [processNodes]
    split
    · exact ih hclients
    · split
      · exact .refl
      · have hasked : w.SharesDue s { s with
            services := (s.services.getObservingPeers w.tree node).2 } :=
          ⟨asked_getObservingPeers, rfl, [], (List.append_nil _).symm,
            fun _ h => absurd h List.not_mem_nil⟩
        obtain ⟨t, ht⟩ : ∃ t : FieldState N, t = { s with
          services := (s.services.getObservingPeers w.tree node).2 } := ⟨_, rfl⟩
        rw [← ht] at hasked ⊢
        have htargets (q : Int) : q ∈ (s.services.getObservingPeers w.tree node).1 ↔
            t.services.Observes w.tree node q := (hasked.asked.observes).symm
        have hconfigs := processConfigs_sharesDue equal
          (hclients.of_asked hasked.asked) htargets
          ((w.world.data.getAllScriptReplications (w.tree.script node)).flatMap
            (fun sr => sr.smoothProperties))
        split
        · next s' hs' =>
          rw [hs'] at hconfigs
          have hshares := hasked.trans hconfigs
          exact hshares.trans (ih (hclients.of_asked hshares.asked))
        · next s' hs' =>
          rw [hs'] at hconfigs
          exact hasked.trans hconfigs

theorem process_sharesDue {s : SyncState N} (hclients : ClientsOnly s.services)
    (equal : Variant → Variant → Bool) (msec : Nat) :
    w.SharesDue s.toFieldState (w.process equal msec s).toFieldState := by
  simp only [process]
  split
  · exact .refl
  · split
    · exact .refl
    · exact processNodes_sharesDue hclients equal s.blockedNodes s.configCache.keys

/-- On each of the three ways, a value is sent to exactly those that are to get it, if they are
all reached; and, for a request, if the owner is not one that may have the value and is to be left
out; for a value that a client has sent, if all that it goes to may have it. -/
theorem recipient_rule_iff (w : FieldWorld S N) (s : SyncState N)
    (hclients : ClientsOnly s.services)
    (node : N) (c : ReplicationPropertyConfig) :
    (∀ property, w.Requests s node property c →
      (w.SentToDue s.toFieldState (w.requestSync node property s).toFieldState 1 node c ↔
        w.Reached s.toFieldState 1 node c ∧
          ¬ (c.getRobns = true ∧ s.services.Observes w.tree node (w.owner node) ∧
            c.canTheyRecv (w.owner node) (w.owner node) = true ∧
            s.services.Observes w.tree w.syncService (w.owner node)))) ∧
    (∀ equal targetPeers, (∀ p, p ∈ targetPeers ↔ s.services.Observes w.tree node p) →
      w.Refreshes equal s.toFieldState node c →
      ∃ s', w.processConfig equal node targetPeers c s.toFieldState = some s' ∧
        (w.SentToDue s.toFieldState s' 1 node c ↔ w.Reached s.toFieldState 1 node c)) ∧
    (∀ remotePeer nodeId idx value, w.fieldAt propertyField nodeId idx = some (node, c) →
      c.sync ≠ .once → ¬ w.Fails s.toFieldState node c value →
      (w.SentToDue s.toFieldState
          (w.receiveProperties remotePeer nodeId idx value s.toFieldState) remotePeer node c ↔
        w.Reached s.toFieldState remotePeer node c ∧
          ∀ p, s.services.Observes w.tree node p →
            w.SharesWith s.toFieldState remotePeer node c p →
            c.canTheyRecv (w.owner node) p = true)) := by
  apply And.intro
  · intro property h
    exact requestSync_sentToDue_iff hclients h
  apply And.intro
  · intro equal targetPeers htargets h
    exact processConfig_sentToDue_iff hclients htargets h
  · intro remotePeer nodeId idx value hfield honce hfails
    exact receiveProperties_sentToDue_iff hclients hfield honce hfails

end FieldWorld

/-- Its owner sets it, and need not be told about it. -/
def aimConfig : ReplicationPropertyConfig where
  instanceId := 14
  name := "aim"
  sync := .request
  sendFilter := 3
  flags := 2

/-- Between the owner and the server. -/
def cardsConfig : ReplicationPropertyConfig where
  instanceId := 15
  name := "cards"
  sync := .request
  sendFilter := 3
  recvFilter := 3

def velocityConfig : ReplicationPropertyConfig where
  instanceId := 16
  name := "velocity"
  sync := .smooth
  flags := 2

/-- Anyone may send it, and everyone may have it. -/
def teamConfig : ReplicationPropertyConfig where
  instanceId := 17
  name := "team"
  sync := .request
  sendFilter := 7

def playerData : ReplicationData FieldNode where
  scripts := .discrete
  scriptReplicationMap
    | .root => none
    | .sync => some syncServiceReplication
    | .replication => some replicationServiceReplication
    | .player => some { propertyConfig := [aimConfig, cardsConfig, velocityConfig, teamConfig] }

/-- The player belongs to peer 2. -/
def playerWorld : FieldWorld FieldNode FieldNode where
  world := { fieldWorld.world with
    data := playerData
    owner := fun n => if n = .player then some 2 else none }
  tree := fieldTree
  isInstanceValid _ := true
  syncService := .sync
  replicationService := .replication
  runs_sync := ⟨rfl, rfl, rfl, fun _ _ => rfl⟩
  runs_replication := ⟨rfl, rfl, rfl, fun _ _ => rfl⟩
  toInt := fieldWorld.toInt
  toArray := fieldWorld.toArray
  tweenFits := fieldWorld.tweenFits
  listens := fieldWorld.listens

/-- Peers 2 and 3 are connected. -/
def playerState : SyncState FieldNode where
  toFieldState := { fieldState with
    services := { ReplicationService.start with
      peers := [2, 3] }
    configCache := Dict.empty.set .player (Dict.empty.set velocityConfig .null) }
  blockedNodes := []
  lastInterpolateT := 0

namespace FieldWorld

theorem recipient_rule_player :
    (playerWorld.SentToDue playerState.toFieldState
        (playerWorld.requestSync .player "aim" playerState).toFieldState 1 .player aimConfig ↔
      playerWorld.Reached playerState.toFieldState 1 .player aimConfig ∧
        ¬ (aimConfig.getRobns = true ∧
          playerState.services.Observes fieldTree .player (playerWorld.owner .player) ∧
          aimConfig.canTheyRecv (playerWorld.owner .player) (playerWorld.owner .player) = true ∧
          playerState.services.Observes fieldTree .sync (playerWorld.owner .player))) ∧
    (∃ s', playerWorld.processConfig (fun v v' => v.isNull && v'.isNull) .player
        (playerState.services.getObservingPeers fieldTree .player).1 velocityConfig
        playerState.toFieldState = some s' ∧
      (playerWorld.SentToDue playerState.toFieldState s' 1 .player velocityConfig ↔
        playerWorld.Reached playerState.toFieldState 1 .player velocityConfig)) ∧
    (playerWorld.SentToDue playerState.toFieldState
        (playerWorld.receiveProperties 2 3 1 (.int 7) playerState.toFieldState) 2 .player
        cardsConfig ↔
      playerWorld.Reached playerState.toFieldState 2 .player cardsConfig ∧
        ∀ p, playerState.services.Observes fieldTree .player p →
          playerWorld.SharesWith playerState.toFieldState 2 .player cardsConfig p →
          cardsConfig.canTheyRecv (playerWorld.owner .player) p = true) := by
  have hclients : ClientsOnly playerState.services := ⟨by decide, fun _ _ h => by cases h⟩
  have hnew : ∀ v, playerState.configCache.get2? .player velocityConfig = some v →
      (v.isNull && (playerState.properties .player velocityConfig.name).isNull) = false :=
    fun _ _ => Bool.and_false _
  apply And.intro
  · exact (recipient_rule_iff playerWorld playerState hclients .player aimConfig).1 "aim"
      ⟨by decide, rfl, rfl, rfl⟩
  apply And.intro
  · exact (recipient_rule_iff playerWorld playerState hclients .player velocityConfig).2.1 _ _
      (fun _ => Iff.rfl) ⟨rfl, rfl, hnew, rfl⟩
  · exact (recipient_rule_iff playerWorld playerState hclients .player cardsConfig).2.2 2 3 1
      (.int 7) rfl (by decide) (fun h => by cases h.2.2.1)

/-- The player's owner is told about its aim, which it need not be, and peer 3 about the cards,
which it may not know. -/
theorem recipients_of_aim_and_cards :
    playerWorld.Requests playerState .player "aim" aimConfig ∧
      playerState.recipients (playerWorld.requestSync .player "aim" playerState).toFieldState =
        [2, 3] ∧
      ¬ playerWorld.SentToDue playerState.toFieldState
        (playerWorld.requestSync .player "aim" playerState).toFieldState 1 .player aimConfig ∧
      playerWorld.fieldAt propertyField 3 1 = some (.player, cardsConfig) ∧
      playerState.recipients
          (playerWorld.receiveProperties 2 3 1 (.int 7) playerState.toFieldState) = [3] ∧
      ¬ playerWorld.SentToDue playerState.toFieldState
        (playerWorld.receiveProperties 2 3 1 (.int 7) playerState.toFieldState) 2 .player
        cardsConfig := by
  have haim : playerState.recipients
      (playerWorld.requestSync .player "aim" playerState).toFieldState = [2, 3] := by
    decide +kernel
  have hcards : playerState.recipients
      (playerWorld.receiveProperties 2 3 1 (.int 7) playerState.toFieldState) = [3] := by
    decide +kernel
  refine ⟨⟨by decide, rfl, rfl, rfl⟩, haim, ?_, rfl, hcards, ?_⟩
  · intro h
    have h2 := (h 2).1 (by rw [haim]; decide)
    exact h2.2.2.2 ⟨rfl, rfl⟩
  · intro h
    have h3 := (h 3).1 (by rw [hcards]; decide)
    exact absurd h3.2.2.1 (by decide)

end FieldWorld

end Godaemon
