import Godaemon.Services.PropertyRecipients

namespace Godaemon
set_option autoImplicit true

/-- An RPC by which `_process` shares the value of a property. -/
structure SmoothUpdate (N : Type) where
  peer : Int
  node : N
  config : ReplicationPropertyConfig
  nodeId : Int
  idx : Int
  value : Variant

/-- A peer, client or server, as far as its SyncService depends on it, and the engine's comparison,
conversion and test for what a tween can go between. -/
structure SmoothPeer (S N : Type) where
  data : ReplicationData S
  script : N → Option S
  localPeer : Int
  isInstanceValid : N → Bool
  equal : Variant → Variant → Bool
  toArray : Variant → Option (List Variant)
  tweenFits : Variant → Variant → Bool

/-- The state of a SyncService and of what it reads. A tracked node has a cached value for each of
its Smooth properties. Where a pass waits for the id of a node, it is suspended at this node. -/
structure SmoothState (N : Type) where
  repository : Repository N
  awaits : List N
  owner : N → Int
  observers : N → List Int
  properties : N → String → Variant
  configCache : Dict N (ReplicationPropertyConfig → Variant)
  interpolating : N → ReplicationPropertyConfig → Bool
  blockedNodes : List N
  queuedForDeletion : Bool
  lastInterpolateT : Nat
  suspended : List N
  sent : List (SmoothUpdate N)

namespace SmoothState

variable {N : Type} [DecidableEq N] (s : SmoothState N)

def getId (node : N) : Int := s.repository.getId node

def cachedValue (node : N) (c : ReplicationPropertyConfig) : Variant :=
  match s.configCache.get? node with
  | some cache => cache c
  | none => .null

/-- Only tracked nodes have an entry. -/
def setConfigCache (node : N) (c : ReplicationPropertyConfig) (value : Variant) : SmoothState N :=
  match s.configCache.get? node with
  | some cache => { s with configCache := s.configCache.set node (Function.update cache c value) }
  | none => s

def setProperty (node : N) (property : String) (value : Variant) : SmoothState N :=
  { s with
    properties := Function.update s.properties node
      (Function.update (s.properties node) property value) }

def isInterpolateFrame (msec : Nat) : Bool := msec > s.lastInterpolateT + interpolateMspt

end SmoothState

namespace SmoothPeer

variable {S N : Type} [DecidableEq N] (w : SmoothPeer S N)

def isClient : Bool := w.localPeer ≠ 1

def smoothConfigs (node : N) : List ReplicationPropertyConfig :=
  (w.data.getAllScriptReplications (w.script node)).flatMap (fun sr => sr.smoothProperties)

/-- A node with Smooth properties is tracked from now on; what they are is no news. -/
def enterReplication (node : N) (s : SmoothState N) : SmoothState N :=
  if w.smoothConfigs node = [] then s
  else { s with
    configCache := s.configCache.set node (fun c =>
      if w.equal .null (s.properties node c.name) then .null else s.properties node c.name) }

def exitReplication (node : N) (s : SmoothState N) : SmoothState N :=
  { s with configCache := s.configCache.erase node }

/-- The value of a property if it differs from the cached one, else null. -/
def getNewValue (node : N) (c : ReplicationPropertyConfig) (s : SmoothState N) :
    Variant × SmoothState N :=
  let value := s.properties node c.name
  if w.equal (s.cachedValue node c) value then (.null, s)
  else (value, s.setConfigCache node c value)

def targetPeers (node : N) (s : SmoothState N) : List Int :=
  if w.isClient then [1] else s.observers node

/-- A client may always send to the server, which forwards. -/
def eligible (node : N) (c : ReplicationPropertyConfig) (s : SmoothState N) (p : Int) : Bool :=
  !(c.getRobns && p = s.owner node) && (w.isClient || c.canTheyRecv (s.owner node) p)

def update (node : N) (c : ReplicationPropertyConfig) (s : SmoothState N) (p : Int) :
    SmoothUpdate N :=
  ⟨p, node, c, s.getId node, w.data.freshIdx propertyField (w.script node) c,
    s.properties node c.name⟩

/-- One turn of the innermost loops of `_process`. -/
def processConfig (node : N) (s : SmoothState N) (c : ReplicationPropertyConfig) : SmoothState N :=
  if !c.canTheySend (s.owner node) w.localPeer then s
  else
    let (value, s) := w.getNewValue node c s
    if value.isNull then s
    else { s with
      sent := s.sent ++ ((w.targetPeers node s).filter (w.eligible node c s)).map
        (w.update node c s) }

def processNode (node : N) (s : SmoothState N) : SmoothState N :=
  (w.smoothConfigs node).foldl (w.processConfig node) s

/-- The pass over tracked nodes. It is suspended at a node whose id is awaited, and ends at one
without an id. -/
def processNodes : List N → SmoothState N → SmoothState N
  | [], s => s
  | node :: nodes, s =>
    if node ∈ s.blockedNodes then processNodes nodes s
    else if node ∈ s.awaits then { s with suspended := s.suspended ++ [node] }
    else if s.getId node = -1 then s
    else processNodes nodes (w.processNode node s)

def process (msec : Nat) (s : SmoothState N) : SmoothState N :=
  if s.queuedForDeletion then s
  else if !s.isInterpolateFrame msec then s
  else w.processNodes s.configCache.keys { s with lastInterpolateT := msec }

/-- The keys after a key: where an iteration goes on. -/
def keysAfter (node : N) : List N → List N
  | [] => []
  | m :: nodes => if m = node then nodes else keysAfter node nodes

/-- A suspended pass goes on once the id is no longer awaited. If its node is not tracked any more,
the script fails or the iteration ends. -/
def resume (i : Nat) (s : SmoothState N) : SmoothState N :=
  match s.suspended[i]? with
  | none => s
  | some node =>
    if node ∈ s.awaits then s
    else
      let s := { s with suspended := s.suspended.eraseIdx i }
      if s.getId node = -1 ∨ node ∉ s.configCache then s
      else w.processNodes (keysAfter node s.configCache.keys) (w.processNode node s)

/-- A property has a new value to share. -/
def Due (s : SmoothState N) (node : N) (c : ReplicationPropertyConfig) : Prop :=
  c.canTheySend (s.owner node) w.localPeer = true ∧
    w.equal (s.cachedValue node c) (s.properties node c.name) = false ∧
    (s.properties node c.name).isNull = false

def recipients (s : SmoothState N) (node : N) (c : ReplicationPropertyConfig) : List Int :=
  (w.targetPeers node s).filter (w.eligible node c s)

/-- An RPC that shares a new value of a property with someone who is to have it. -/
def Shares (s : SmoothState N) (u : SmoothUpdate N) : Prop :=
  w.Due s u.node u.config ∧ u.peer ∈ w.recipients s u.node u.config ∧
    u = w.update u.node u.config s u.peer

end SmoothPeer

namespace SmoothState

variable {N : Type} [DecidableEq N] (s : SmoothState N)

/-- What the pass has sent from one state to a later one. -/
def news (s s' : SmoothState N) : List (SmoothUpdate N) := s'.sent.drop s.sent.length

/-- A node that does not end or suspend a pass. -/
def Passable (node : N) : Prop :=
  node ∈ s.blockedNodes ∨ node ∉ s.awaits ∧ s.getId node ≠ -1

/-- A pass over these nodes gets to the properties of a node. -/
def ComesTo (nodes : List N) (node : N) : Prop :=
  node ∈ nodes ∧ node ∉ s.blockedNodes ∧ (node ∉ s.awaits ∧ s.getId node ≠ -1) ∧
    ∀ m ∈ nodes.takeWhile (fun m => m ≠ node), s.Passable m

end SmoothState

namespace SmoothPeer

variable {S N : Type} [DecidableEq N] (w : SmoothPeer S N)

/-- Every unblocked tracked node with an id has its new values sent to whom they are for. -/
def Independent (s s' : SmoothState N) : Prop :=
  ∀ node ∈ s.configCache, node ∉ s.blockedNodes → s.getId node ≠ -1 →
    ∀ c ∈ w.smoothConfigs node, w.Due s node c →
      ∀ p ∈ w.recipients s node c, w.update node c s p ∈ s.news s'

/-- Some new value of a node is for someone. -/
def HasNews (s : SmoothState N) (node : N) : Prop :=
  ∃ c ∈ w.smoothConfigs node, w.Due s node c ∧ w.recipients s node c ≠ []

/-- States between which a pass has only looked at properties of some nodes and shared them. -/
structure Looked (s s' : SmoothState N) (nodes : List N) : Prop where
  frame : s' = { s with
    configCache := s'.configCache
    sent := s'.sent
    suspended := s'.suspended }
  cached : ∀ m ∉ nodes, ∀ c, s'.cachedValue m c = s.cachedValue m c

variable {w} {s s' s'' : SmoothState N} {node : N} {nodes : List N}

theorem Looked.refl : Looked s s nodes := ⟨rfl, fun _ _ _ => rfl⟩

theorem Looked.trans (h : Looked s s' nodes) (h' : Looked s' s'' nodes) : Looked s s'' nodes := by
  constructor
  · rw [h'.frame, h.frame]
  · intro m hm c
    rw [h'.cached m hm c, h.cached m hm c]

theorem Looked.recipients_eq (h : Looked s s' nodes) (m : N) (c : ReplicationPropertyConfig) :
    w.recipients s' m c = w.recipients s m c := by
  rw [h.frame]
  rfl

theorem Looked.update_eq (h : Looked s s' nodes) (m : N) (c : ReplicationPropertyConfig) (p : Int) :
    w.update m c s' p = w.update m c s p := by
  rw [h.frame]
  rfl

theorem Looked.due_iff (h : Looked s s' nodes)
    (hc : s'.cachedValue m c = s.cachedValue m c) : w.Due s' m c ↔ w.Due s m c := by
  rw [Due, Due, hc, h.frame]

theorem Looked.shares_iff (h : Looked s s' nodes) (u : SmoothUpdate N)
    (hc : s'.cachedValue u.node u.config = s.cachedValue u.node u.config) :
    w.Shares s' u ↔ w.Shares s u := by
  rw [Shares, Shares, h.due_iff hc, h.recipients_eq, h.update_eq]

theorem Looked.comesTo_iff (h : Looked s s' nodes) (nodes' : List N) (m : N) :
    s'.ComesTo nodes' m ↔ s.ComesTo nodes' m := by
  rw [h.frame]
  rfl

theorem cachedValue_setConfigCache (s : SmoothState N) (node : N) (c : ReplicationPropertyConfig)
    (value : Variant) (m : N) (d : ReplicationPropertyConfig) :
    (s.setConfigCache node c value).cachedValue m d =
      if m = node ∧ d = c ∧ node ∈ s.configCache then value else s.cachedValue m d := by
  unfold SmoothState.setConfigCache
  cases hcache : s.configCache.get? node with
  | none =>
    have hmem : node ∉ s.configCache := (Dict.get?_eq_none_iff _).1 hcache
    rw [if_neg (fun h => hmem h.2.2)]
  | some cache =>
    have hmem : node ∈ s.configCache := (Dict.mem_iff_get? _).2 ⟨cache, hcache⟩
    simp only [SmoothState.cachedValue, Dict.get?_set]
    by_cases hm : m = node
    · subst hm
      simp only [↓reduceIte, Function.update_apply, hmem, and_true, true_and, hcache]
    · rw [if_neg hm, if_neg (fun h => hm h.1)]

theorem setConfigCache_looked (s : SmoothState N) (node : N) (c : ReplicationPropertyConfig)
    (value : Variant) :
    (s.setConfigCache node c value).sent = s.sent ∧
      Looked s (s.setConfigCache node c value) [node] := by
  have hframe : s.setConfigCache node c value = { s with
      configCache := (s.setConfigCache node c value).configCache } := by
    unfold SmoothState.setConfigCache
    cases s.configCache.get? node with
    | none => rfl
    | some cache => rfl
  refine ⟨by rw [hframe], by rw [hframe], fun m hm d => ?_⟩
  rw [cachedValue_setConfigCache, if_neg (fun h => hm (List.mem_singleton.2 h.1))]

/-- One turn shares the property if it has a new value. Afterwards it has none, unless it had. -/
theorem processConfig_spec (w : SmoothPeer S N) (node : N) (s : SmoothState N)
    (c : ReplicationPropertyConfig) :
    let s' := w.processConfig node s c
    Looked s s' [node] ∧ (∀ d, d ≠ c → s'.cachedValue node d = s.cachedValue node d) ∧
      (w.Due s' node c → w.Due s node c) ∧
      ∃ new, s'.sent = s.sent ++ new ∧
        ∀ u, u ∈ new ↔ u.node = node ∧ u.config = c ∧ w.Shares s u := by
  have hidle (hdue : ¬ w.Due s node c) (u : SmoothUpdate N) :
      u ∈ ([] : List (SmoothUpdate N)) ↔ u.node = node ∧ u.config = c ∧ w.Shares s u := by
    refine iff_of_false List.not_mem_nil (fun h => ?_)
    obtain ⟨hn, hc, hdue', _⟩ := h
    rw [hn, hc] at hdue'
    exact hdue hdue'
  simp only [processConfig]
  by_cases hsend : c.canTheySend (s.owner node) w.localPeer = true
  · rw [if_neg (by rw [hsend]; decide)]
    cases hequal : w.equal (s.cachedValue node c) (s.properties node c.name) with
    | true =>
      have hdue : ¬ w.Due s node c := by
        intro h
        rw [Due, hequal] at h
        cases h.2.1
      simp only [getNewValue, hequal, ↓reduceIte, Variant.isNull]
      exact ⟨.refl, fun _ _ => trivial, fun h => h, [], (List.append_nil _).symm, hidle hdue⟩
    | false =>
      obtain ⟨hsent, hlooked⟩ := setConfigCache_looked s node c (s.properties node c.name)
      obtain ⟨t, ht⟩ : ∃ t, t = s.setConfigCache node c (s.properties node c.name) := ⟨_, rfl⟩
      have hother (d : ReplicationPropertyConfig) (hd : d ≠ c) :
          t.cachedValue node d = s.cachedValue node d := by
        rw [ht, cachedValue_setConfigCache, if_neg (fun h => hd h.2.1)]
      simp only [getNewValue, hequal, Bool.false_eq_true, ↓reduceIte, ← ht]
      rw [← ht] at hsent hlooked
      cases hnull : (s.properties node c.name).isNull with
      | true =>
        have hdue : ¬ w.Due s node c := by
          intro h
          rw [Due, hnull] at h
          cases h.2.2
        simp only [↓reduceIte]
        refine ⟨hlooked, hother, fun h => ?_, [], ?_, hidle hdue⟩
        · have hvalue := h.2.2
          rw [hlooked.frame] at hvalue
          exact absurd (hvalue.symm.trans hnull) Bool.noConfusion
        · rw [hsent, List.append_nil]
      | false =>
        have hdue : w.Due s node c := ⟨hsend, hequal, hnull⟩
        simp only [Bool.false_eq_true, ↓reduceIte]
        refine ⟨⟨?_, hlooked.cached⟩, hother, fun _ => hdue,
          (w.recipients s node c).map (w.update node c s), ?_, fun u => ?_⟩
        · rw [hlooked.frame]
        · have hsame : ((w.targetPeers node t).filter (w.eligible node c t)).map
              (w.update node c t) = (w.recipients s node c).map (w.update node c s) := by
            rw [hlooked.frame]
            rfl
          rw [hsent, hsame]
        · rw [List.mem_map]
          constructor
          · intro h
            obtain ⟨q, hq, rfl⟩ := h
            exact ⟨rfl, rfl, hdue, hq, rfl⟩
          · intro h
            obtain ⟨hn, hc, _, hq, hu⟩ := h
            rw [hn, hc] at hq hu
            exact ⟨u.peer, hq, hu.symm⟩
  · have hdue : ¬ w.Due s node c := fun h => hsend h.1
    rw [if_pos (by rw [Bool.eq_false_iff.2 hsend]; rfl)]
    exact ⟨.refl, fun _ _ => rfl, fun h => h, [], (List.append_nil _).symm, hidle hdue⟩

theorem processConfigs_spec (w : SmoothPeer S N) (node : N) (cs : List ReplicationPropertyConfig)
    (s : SmoothState N) :
    let s' := cs.foldl (w.processConfig node) s
    Looked s s' [node] ∧ ∃ new, s'.sent = s.sent ++ new ∧
      ∀ u, u ∈ new ↔ u.node = node ∧ u.config ∈ cs ∧ w.Shares s u := by
  induction cs generalizing s with
  | nil =>
    refine ⟨.refl, [], (List.append_nil _).symm, fun u => ?_⟩
    exact iff_of_false List.not_mem_nil (fun h => by cases h.2.1)
  | cons c cs ih =>
    obtain ⟨hlooked, hother, hdue, first, hfirst, hmem⟩ := processConfig_spec w node s c
    obtain ⟨hlooked', rest, hrest, hmem'⟩ := ih (w.processConfig node s c)
    refine ⟨hlooked.trans hlooked', first ++ rest, ?_, fun u => ?_⟩
    · rw [List.foldl_cons, hrest, hfirst, List.append_assoc]
    · rw [List.mem_append, hmem, hmem', List.mem_cons]
      by_cases hn : u.node = node
      · by_cases hc : u.config = c
        · -- a second turn of the same property shares it only if the first one does
          have hagain : w.Shares (w.processConfig node s c) u → w.Shares s u := by
            intro h
            have hd := h.1
            rw [hn, hc] at hd
            refine ⟨?_, ?_, ?_⟩
            · rw [hn, hc]
              exact hdue hd
            · rw [← hlooked.recipients_eq (w := w)]
              exact h.2.1
            · rw [← hlooked.update_eq (w := w)]
              exact h.2.2
          constructor
          · rintro (h | h)
            · exact ⟨h.1, .inl h.2.1, h.2.2⟩
            · exact ⟨h.1, .inr h.2.1, hagain h.2.2⟩
          · intro h
            exact .inl ⟨h.1, hc, h.2.2⟩
        · have hcached : (w.processConfig node s c).cachedValue u.node u.config =
              s.cachedValue u.node u.config := by
            rw [hn]
            exact hother u.config hc
          rw [hlooked.shares_iff u hcached]
          simp only [hc, false_and, and_false, false_or]
      · simp only [hn, false_and, or_self]

/-- Between two states exactly the new values of certain nodes have been sent. -/
def Sends (w : SmoothPeer S N) (s s' : SmoothState N) (of : N → Prop) : Prop :=
  ∃ new, s'.sent = s.sent ++ new ∧
    ∀ u, u ∈ new ↔ of u.node ∧ u.config ∈ w.smoothConfigs u.node ∧ w.Shares s u

theorem sends_nothing (hsent : s'.sent = s.sent) (hof : ∀ m, ¬ of m) : w.Sends s s' of := by
  refine ⟨[], hsent.trans (List.append_nil _).symm, fun u => ?_⟩
  exact iff_of_false List.not_mem_nil (fun h => hof u.node h.1)

theorem Sends.congr (h : w.Sends s s' of) (hof : ∀ m, of m ↔ of' m) : w.Sends s s' of' := by
  obtain ⟨new, hnew, hmem⟩ := h
  refine ⟨new, hnew, fun u => ?_⟩
  rw [hmem, hof]

theorem Sends.append (h : w.Sends s s' (fun m => m = node)) (hlooked : Looked s s' [node])
    (h' : w.Sends s' s'' of) (hof : ¬ of node) :
    w.Sends s s'' (fun m => m = node ∨ of m) := by
  obtain ⟨first, hfirst, hmem⟩ := h
  obtain ⟨rest, hrest, hmem'⟩ := h'
  refine ⟨first ++ rest, ?_, fun u => ?_⟩
  · rw [hrest, hfirst, List.append_assoc]
  · rw [List.mem_append, hmem, hmem']
    by_cases hm : u.node = node
    · rw [hm]
      simp only [true_and, hof, false_and, or_false]
    · have hcached := hlooked.cached u.node (fun h => hm (List.mem_singleton.1 h)) u.config
      rw [hlooked.shares_iff u hcached]
      simp only [hm, false_and, false_or]

theorem processNode_spec (w : SmoothPeer S N) (node : N) (s : SmoothState N) :
    Looked s (w.processNode node s) [node] ∧
      w.Sends s (w.processNode node s) (fun m => m = node) := by
  obtain ⟨hlooked, new, hnew, hmem⟩ := processConfigs_spec w node (w.smoothConfigs node) s
  refine ⟨hlooked, new, hnew, fun u => ?_⟩
  rw [hmem]
  constructor
  · intro h
    obtain ⟨hn, hc, hs⟩ := h
    rw [hn]
    exact ⟨rfl, hc, hs⟩
  · intro h
    obtain ⟨hn, hc, hs⟩ := h
    rw [hn] at hc
    exact ⟨hn, hc, hs⟩

theorem comesTo_cons_of_ne (hm : m ≠ node) :
    s.ComesTo (node :: nodes) m ↔ s.Passable node ∧ s.ComesTo nodes m := by
  rw [SmoothState.ComesTo, SmoothState.ComesTo, List.mem_cons, List.takeWhile_cons,
    if_pos (decide_eq_true hm.symm)]
  simp only [hm, false_or, List.forall_mem_cons]
  tauto

theorem comesTo_cons_self :
    s.ComesTo (node :: nodes) node ↔
      node ∉ s.blockedNodes ∧ node ∉ s.awaits ∧ s.getId node ≠ -1 := by
  rw [SmoothState.ComesTo, List.takeWhile_cons, if_neg (by simp)]
  constructor
  · intro h
    exact ⟨h.2.1, h.2.2.1⟩
  · intro h
    exact ⟨List.mem_cons_self, h.1, h.2, fun m hm => by cases hm⟩

theorem not_comesTo_of_stops (h : ¬ s.Passable node) (m : N) : ¬ s.ComesTo (node :: nodes) m := by
  intro hm
  by_cases hne : m = node
  · rw [hne, comesTo_cons_self] at hm
    exact h (.inr hm.2)
  · exact h ((comesTo_cons_of_ne hne).1 hm).1

/-- What a pass sends: the new values of the nodes that it comes to. -/
theorem processNodes_spec (w : SmoothPeer S N) (nodes : List N) (hnodup : nodes.Nodup)
    (s : SmoothState N) : w.Sends s (w.processNodes nodes s) (s.ComesTo nodes) := by
  induction nodes generalizing s with
  | nil => exact sends_nothing rfl (fun m h => by cases h.1)
  | cons node nodes ih =>
    have hnot : node ∉ nodes := (List.nodup_cons.1 hnodup).1
    have hrest := (List.nodup_cons.1 hnodup).2
    simp only [processNodes]
    by_cases hblocked : node ∈ s.blockedNodes
    · rw [if_pos hblocked]
      apply (ih hrest s).congr
      intro m
      by_cases hm : m = node
      · rw [hm, comesTo_cons_self]
        exact iff_of_false (fun h => hnot h.1) (fun h => h.1 hblocked)
      · rw [comesTo_cons_of_ne hm]
        exact ⟨fun h => ⟨.inl hblocked, h⟩, fun h => h.2⟩
    · rw [if_neg hblocked]
      by_cases hawaits : node ∈ s.awaits
      · rw [if_pos hawaits]
        have hstops : ¬ s.Passable node := fun h => (h.resolve_left hblocked).1 hawaits
        exact sends_nothing rfl (not_comesTo_of_stops hstops)
      · rw [if_neg hawaits]
        by_cases hid : s.getId node = -1
        · rw [if_pos hid]
          have hstops : ¬ s.Passable node := fun h => (h.resolve_left hblocked).2 hid
          exact sends_nothing rfl (not_comesTo_of_stops hstops)
        · rw [if_neg hid]
          obtain ⟨hlooked, hsends⟩ := processNode_spec w node s
          apply (hsends.append hlooked (ih hrest _) (fun h => hnot h.1)).congr
          intro m
          rw [hlooked.comesTo_iff]
          by_cases hm : m = node
          · rw [hm, comesTo_cons_self]
            exact iff_of_true (.inl rfl) ⟨hblocked, hawaits, hid⟩
          · rw [comesTo_cons_of_ne hm]
            simp only [hm, false_or]
            exact ⟨fun h => ⟨.inr ⟨hawaits, hid⟩, h⟩, fun h => h.2⟩

theorem process_spec (w : SmoothPeer S N) (hqueued : s.queuedForDeletion = false)
    (hframe : s.isInterpolateFrame msec = true) :
    w.Sends s (w.process msec s) (s.ComesTo s.configCache.keys) := by
  rw [process, if_neg (Bool.eq_false_iff.1 hqueued), if_neg (by rw [hframe]; decide)]
  exact processNodes_spec w s.configCache.keys s.configCache.nodup_keys
    { s with lastInterpolateT := msec }

theorem mem_news_process (w : SmoothPeer S N) (hqueued : s.queuedForDeletion = false)
    (hframe : s.isInterpolateFrame msec = true) (u : SmoothUpdate N) :
    u ∈ s.news (w.process msec s) ↔ s.ComesTo s.configCache.keys u.node ∧
      u.config ∈ w.smoothConfigs u.node ∧ w.Shares s u := by
  obtain ⟨new, hnew, hmem⟩ := process_spec w hqueued hframe
  rw [SmoothState.news, hnew, List.drop_left, hmem]

/-- On an interpolation frame the nodes are treated independently exactly if those with something to
share come, in the order of the cache, before any that ends or suspends the pass. -/
theorem independent_iff (w : SmoothPeer S N) (s : SmoothState N) (msec : Nat)
    (hqueued : s.queuedForDeletion = false) (hframe : s.isInterpolateFrame msec = true) :
    w.Independent s (w.process msec s) ↔
      ∀ node ∈ s.configCache, node ∉ s.blockedNodes → s.getId node ≠ -1 → w.HasNews s node →
        node ∉ s.awaits ∧
          ∀ m ∈ s.configCache.keys.takeWhile (fun m => m ≠ node), s.Passable m := by
  constructor
  · intro h node hnode hblocked hid hnews
    obtain ⟨c, hc, hdue, hsome⟩ := hnews
    obtain ⟨p, hp⟩ := List.exists_mem_of_ne_nil _ hsome
    have hsent := h node hnode hblocked hid c hc hdue p hp
    rw [mem_news_process w hqueued hframe] at hsent
    exact ⟨hsent.1.2.2.1.1, hsent.1.2.2.2⟩
  · intro h node hnode hblocked hid c hc hdue p hp
    rw [mem_news_process w hqueued hframe]
    obtain ⟨hawaits, hbefore⟩ :=
      h node hnode hblocked hid ⟨c, hc, hdue, List.ne_nil_of_mem hp⟩
    exact ⟨⟨hnode, hblocked, ⟨hawaits, hid⟩, hbefore⟩, hc, hdue, hp, rfl⟩

end SmoothPeer

/-- The engine's comparison of numbers. -/
def equalInts : Variant → Variant → Bool
  | .int a, .int b => a = b
  | .null, .null => true
  | _, _ => false

/-- Client 2 with nodes that have one Smooth property, which everyone may send and receive. -/
def smoothClient : SmoothPeer Unit SmallNode where
  data := {
    scripts := .discrete
    scriptReplicationMap := fun _ =>
      some { propertyConfig := [
        { instanceId := 0, name := "position", sendFilter := 7, sync := .smooth }] } }
  script _ := some ()
  localPeer := 2
  isInstanceValid _ := true
  equal := equalInts
  toArray _ := none
  tweenFits _ _ := true

def position : ReplicationPropertyConfig where
  instanceId := 0
  name := "position"
  sendFilter := 7
  sync := .smooth

/-- The property was 0 when it was last looked at, and is 1 now; only some nodes have ids. -/
def smoothState (tracked named : List SmallNode) : SmoothState SmallNode where
  repository := named.foldl (fun r node => (r.addObject node).2) .new
  awaits := []
  owner _ := 1
  observers _ := []
  properties _ _ := .int 1
  configCache := .ofPairs (tracked.map (fun node => (node, fun _ => .int 0)))
  interpolating _ _ := false
  blockedNodes := []
  queuedForDeletion := false
  lastInterpolateT := 0
  suspended := []
  sent := []

namespace SmoothPeer

/-- Two nodes have new values, and each of them is sent. -/
theorem independent_two_nodes :
    let s := smoothState [.actor, .scene] [.actor, .scene]
    smoothClient.HasNews s .actor ∧ smoothClient.HasNews s .scene ∧
      smoothClient.Independent s (smoothClient.process 100 s) ∧
        (s.news (smoothClient.process 100 s)).length = 2 := by
  have hnews (node : SmallNode) (hnode : node = .actor ∨ node = .scene) :
      smoothClient.HasNews (smoothState [.actor, .scene] [.actor, .scene]) node := by
    refine ⟨position, ?_, ⟨?_, ?_, ?_⟩, ?_⟩
    all_goals rcases hnode with rfl | rfl <;> decide
  refine ⟨hnews _ (.inl rfl), hnews _ (.inr rfl), ?_, by decide⟩
  refine (independent_iff smoothClient (smoothState [.actor, .scene] [.actor, .scene]) 100 rfl
    rfl).2 fun node hnode _ _ _ => ⟨List.not_mem_nil, fun m hm => ?_⟩
  have hm' : m ∈ (smoothState [.actor, .scene] [.actor, .scene]).configCache.keys :=
    (List.takeWhile_sublist _).subset hm
  refine .inr ⟨List.not_mem_nil, ?_⟩
  revert hm'
  cases m <;> decide

/-- A node without an id comes before one with a new value, which is not sent. -/
theorem nothing_after_missing_id :
    ¬ smoothClient.Independent (smoothState [.actor, .scene] [.scene])
      (smoothClient.process 100 (smoothState [.actor, .scene] [.scene])) := by
  intro h
  have hsent := h .scene (by decide) (by decide) (by decide) position (by decide)
    ⟨by decide, by decide, by decide⟩ 1 (by decide)
  revert hsent
  have hnone : (smoothState [.actor, .scene] [.scene]).news
      (smoothClient.process 100 (smoothState [.actor, .scene] [.scene])) = [] := by rfl
  rw [hnone]
  exact List.not_mem_nil

end SmoothPeer

end Godaemon
