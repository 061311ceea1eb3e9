import Godaemon.Services.SmoothSync

namespace Godaemon
set_option autoImplicit true

/-- What happens to a SyncService over time, as long as no local code writes one property. A tween
that runs writes values of its own; owners, ids and observers change elsewhere. -/
inductive EchoEvent {N : Type} (watched : N) (property : String) where
  | receive (nodeId idx : Int) (value : Variant)
  | tween (node : N) (c : ReplicationPropertyConfig) (value : Variant)
  | tweenFinished (node : N) (c : ReplicationPropertyConfig)
  | frame (msec : Nat)
  | resume (i : Nat)
  | write (node : N) (name : String) (other : ¬ (node = watched ∧ name = property))
    (value : Variant)
  | enterReplication (node : N)
  | exitReplication (node : N)
  | setBlockSync (node : N) (block : Bool)
  | elsewhere (repository : Repository N) (awaits : List N) (owner : N → Int)
    (observers : N → List Int)

namespace SmoothPeer

variable {S N : Type} [DecidableEq N] (w : SmoothPeer S N)

/-- The field that a message is about. A node without a script has no fields. -/
def fieldAt (nodeId idx : Int) (s : SmoothState N) : Option (N × ReplicationPropertyConfig) :=
  match (s.repository.getObject w.isInstanceValid nodeId).1 with
  | none => none
  | some node =>
    (w.data.freshConfig propertyField (w.script node) idx).map (fun c => (node, c))

/-- A tween takes the place of the one that is running, if it can go to this value. -/
def startPropertyInterpolation (node : N) (c : ReplicationPropertyConfig) (value : Variant)
    (s : SmoothState N) : SmoothState N :=
  let fits :=
    if c.getAngularLerp then value.isAngle
    else w.tweenFits (s.properties node c.name) value
  { s with
    interpolating := Function.update s.interpolating node
      (Function.update (s.interpolating node) c fits) }

def applyProperty (node : N) (c : ReplicationPropertyConfig) (value : Variant)
    (s : SmoothState N) : SmoothState N :=
  if !c.canTheyRecv (s.owner node) w.localPeer then s
  else if c.sync = .request then
    s.setProperty node c.name ((s.properties node c.name).assign w.toArray value).1
  else (w.startPropertyInterpolation node c value s).setConfigCache node c value

/-- A server forwards the value as well, by RPCs that `_process` has no part in. -/
def receiveProperties (nodeId idx : Int) (value : Variant) (s : SmoothState N) : SmoothState N :=
  match w.fieldAt nodeId idx s with
  | none => s
  | some (node, c) => if c.sync = .once then s else w.applyProperty node c value s

variable {watched : N} {property : String}

def echoStep (s : SmoothState N) : EchoEvent watched property → SmoothState N
  | .receive nodeId idx value => w.receiveProperties nodeId idx value s
  | .tween node c value =>
    if s.interpolating node c then s.setProperty node c.name value else s
  | .tweenFinished node c =>
    { s with
      interpolating := Function.update s.interpolating node
        (Function.update (s.interpolating node) c false) }
  | .frame msec => w.process msec s
  | .resume i => w.resume i s
  | .write node name _ value => s.setProperty node name value
  | .enterReplication node => w.enterReplication node s
  | .exitReplication node => exitReplication node s
  | .setBlockSync node block =>
    { s with
      blockedNodes :=
        if block then node :: s.blockedNodes else s.blockedNodes.filter (fun m => m ≠ node) }
  | .elsewhere repository awaits owner observers =>
    { s with
      repository := repository
      awaits := awaits
      owner := owner
      observers := observers }

end SmoothPeer

namespace SmoothState

variable {N : Type} [DecidableEq N] (s : SmoothState N)

/-- `_process` has not sent the property to anyone. -/
def NoEcho (node : N) (c : ReplicationPropertyConfig) : Prop :=
  ∀ u ∈ s.sent, ¬ (u.node = node ∧ u.config = c)

/-- A pass that starts or goes on now comes to the watched node. -/
def Visits {watched : N} {property : String} : EchoEvent watched property → Prop
  | .frame msec => s.queuedForDeletion = false ∧ s.isInterpolateFrame msec = true ∧
    s.ComesTo s.configCache.keys watched
  | .resume i => ∃ node, s.suspended[i]? = some node ∧ node ∉ s.awaits ∧ s.getId node ≠ -1 ∧
    node ∈ s.configCache ∧
    (watched = node ∨ s.ComesTo (SmoothPeer.keysAfter node s.configCache.keys) watched)
  | _ => False

end SmoothState

namespace SmoothPeer

variable {S N : Type} [DecidableEq N] (w : SmoothPeer S N)

/-- Where a pass comes to the property, its live value is the cached one, or null, or the peer may
not send it, or there is nobody to send it to. -/
def Settled (watched : N) (c : ReplicationPropertyConfig) (s : SmoothState N)
    (event : EchoEvent watched c.name) : Prop :=
  s.Visits event → c ∈ w.smoothConfigs watched → w.Due s watched c → w.recipients s watched c = []

variable {w} {s s' : SmoothState N} {watched node : N} {c : ReplicationPropertyConfig}

/-- The state of a SyncService agrees with one that message handlers work on. A tracked property
whose cache is not filled yet counts as null. -/
structure Mirrors (s : SmoothState N) (fields : FieldState N) : Prop where
  properties : s.properties = fields.properties
  configCache (n : N) : s.configCache.get? n =
    (fields.configCache.get? n).map (fun cache d => cache.getD d .null)
  interpolating (n : N) (d : ReplicationPropertyConfig) :
    s.interpolating n d = (fields.propertyInterpolationCache.get2? n d).isSome

theorem Mirrors.setProperty {fields : FieldState N} (h : Mirrors s fields) (node : N)
    (name : String) (value : Variant) :
    Mirrors (s.setProperty node name value) (fields.setProperty node name value) := by
  refine ⟨?_, h.configCache, h.interpolating⟩
  simp only [SmoothState.setProperty, FieldState.setProperty, h.properties]

theorem Mirrors.setConfigCache {fields : FieldState N} (h : Mirrors s fields) (node : N)
    (c : ReplicationPropertyConfig) (value : Variant) :
    Mirrors (s.setConfigCache node c value) (fields.setConfigCache node c value) := by
  have hnode := h.configCache node
  rw [SmoothState.setConfigCache, FieldState.setConfigCache]
  cases hcache : fields.configCache.get? node with
  | none =>
    rw [hcache, Option.map_none] at hnode
    rw [hnode]
    exact h
  | some cache =>
    rw [hcache, Option.map_some] at hnode
    rw [hnode]
    refine ⟨h.properties, fun n => ?_, h.interpolating⟩
    simp only [Dict.get?_set]
    by_cases hn : n = node
    · rw [if_pos hn, if_pos hn, Option.map_some]
      congr 1
      funext d
      rw [Dict.getD_set, Function.update_apply]
    · rw [if_neg hn, if_neg hn, h.configCache n]

theorem get2?_endPropertyInterpolation (fields : FieldState N) (node n : N)
    (c d : ReplicationPropertyConfig) :
    (fields.endPropertyInterpolation node c).propertyInterpolationCache.get2? n d =
      if n = node ∧ d = c then none else fields.propertyInterpolationCache.get2? n d := by
  rw [← Dict.get2?_erase2, FieldState.endPropertyInterpolation, Dict.erase2]
  split
  · next cache hcache => rw [hcache]
  · next hcache => rw [hcache]

theorem Mirrors.startPropertyInterpolation {fields : FieldState N} (h : Mirrors s fields)
    (w : SmoothPeer S N) (node : N) (c : ReplicationPropertyConfig) (value : Variant) :
    Mirrors (w.startPropertyInterpolation node c value s)
      (fields.startPropertyInterpolation w.tweenFits node c value) := by
  have hends : (fields.endPropertyInterpolation node c).properties = fields.properties ∧
      (fields.endPropertyInterpolation node c).configCache = fields.configCache := by
    rw [FieldState.endPropertyInterpolation]
    split <;> exact ⟨rfl, rfl⟩
  have hfits : (if c.getAngularLerp then value.isAngle
      else w.tweenFits (s.properties node c.name) value) =
        fields.tweens w.tweenFits node c value := by
    rw [h.properties, FieldState.tweens]
  rw [SmoothPeer.startPropertyInterpolation, FieldState.startPropertyInterpolation]
  simp only [hfits]
  have hother (n : N) (d : ReplicationPropertyConfig) (fits : Bool) :
      Function.update s.interpolating node (Function.update (s.interpolating node) c fits) n d =
        if n = node ∧ d = c then fits else s.interpolating n d := by
    by_cases hn : n = node
    · rw [hn, Function.update_self, Function.update_apply]
      simp only [true_and]
    · rw [Function.update_of_ne hn, if_neg (fun hboth => hn hboth.1)]
  cases fields.tweens w.tweenFits node c value with
  | true =>
    refine ⟨h.properties.trans hends.1.symm, fun n => ?_, fun n d => ?_⟩
    · exact (h.configCache n).trans (congrArg (fun cache => (Dict.get? cache n).map _) hends.2.symm)
    · simp only [↓reduceIte, Dict.get2?_set2, get2?_endPropertyInterpolation, hother,
        h.interpolating n d]
      split <;> rfl
  | false =>
    refine ⟨h.properties.trans hends.1.symm, fun n => ?_, fun n d => ?_⟩
    · exact (h.configCache n).trans (congrArg (fun cache => (Dict.get? cache n).map _) hends.2.symm)
    · simp only [Bool.false_eq_true, ↓reduceIte, get2?_endPropertyInterpolation, hother,
        h.interpolating n d]
      split <;> rfl

theorem Mirrors.applyProperty {fields : FieldState N} (h : Mirrors s fields) (w : SmoothPeer S N)
    (node : N) (c : ReplicationPropertyConfig) (value : Variant) :
    Mirrors (w.applyProperty node c value s)
      (if c.canTheyRecv (s.owner node) w.localPeer then
        (fields.applyProperty w.toArray w.tweenFits node c value).1
      else fields) := by
  rw [SmoothPeer.applyProperty, FieldState.applyProperty]
  cases c.canTheyRecv (s.owner node) w.localPeer with
  | false => exact h
  | true =>
    simp only [Bool.not_true, Bool.false_eq_true, ↓reduceIte]
    by_cases hrequest : c.sync = .request
    · rw [if_pos hrequest, if_pos hrequest, h.properties]
      exact h.setProperty node c.name _
    · rw [if_neg hrequest, if_neg hrequest]
      exact (h.startPropertyInterpolation w node c value).setConfigCache node c value

theorem keysAfter_nodup (node : N) (hnodup : nodes.Nodup) : (keysAfter node nodes).Nodup := by
  induction nodes with
  | nil => exact List.nodup_nil
  | cons m nodes ih =>
    rw [keysAfter]
    split
    · exact (List.nodup_cons.1 hnodup).2
    · exact ih (List.nodup_cons.1 hnodup).2

theorem not_mem_keysAfter (hnodup : nodes.Nodup) : node ∉ keysAfter node nodes := by
  induction nodes with
  | nil => exact List.not_mem_nil
  | cons m nodes ih =>
    rw [keysAfter]
    split
    · next hm =>
      rw [← hm]
      exact (List.nodup_cons.1 hnodup).1
    · exact ih (List.nodup_cons.1 hnodup).2

/-- A pass that goes on starts with the node at which it was suspended, and then comes to others. -/
theorem resume_spec (w : SmoothPeer S N) (hat : s.suspended[i]? = some node)
    (hawaits : node ∉ s.awaits) (hid : s.getId node ≠ -1) (htracked : node ∈ s.configCache) :
    w.Sends s (w.resume i s)
      (fun m => m = node ∨ s.ComesTo (keysAfter node s.configCache.keys) m) := by
  have hnodup := s.configCache.nodup_keys
  have hrun : w.resume i s = w.processNodes (keysAfter node s.configCache.keys)
      (w.processNode node { s with suspended := s.suspended.eraseIdx i }) := by
    rw [resume, hat]
    simp only
    rw [if_neg hawaits, if_neg (fun h => h.elim hid (fun hn => hn htracked))]
  obtain ⟨hlooked, hsends⟩ :=
    processNode_spec w node { s with suspended := s.suspended.eraseIdx i }
  have hrest := processNodes_spec w _ (keysAfter_nodup node hnodup)
    (w.processNode node { s with suspended := s.suspended.eraseIdx i })
  have happend := hsends.append hlooked hrest (fun h => not_mem_keysAfter hnodup h.1)
  have hsame (m : N) : (m = node ∨ (w.processNode node
      { s with suspended := s.suspended.eraseIdx i }).ComesTo
        (keysAfter node s.configCache.keys) m) ↔
      (m = node ∨ s.ComesTo (keysAfter node s.configCache.keys) m) := by
    rw [hlooked.comesTo_iff]
    rfl
  rw [hrun]
  exact happend.congr hsame

theorem noEcho_iff_of_sends (h : w.Sends s s' of) (hecho : s.NoEcho watched c) :
    s'.NoEcho watched c ↔
      (of watched → c ∈ w.smoothConfigs watched → w.Due s watched c →
        w.recipients s watched c = []) := by
  obtain ⟨new, hnew, hmem⟩ := h
  rw [SmoothState.NoEcho, hnew]
  constructor
  · intro hno hof hc hdue
    by_contra hsome
    obtain ⟨p, hp⟩ := List.exists_mem_of_ne_nil _ hsome
    have hu : w.update watched c s p ∈ new := (hmem _).2 ⟨hof, hc, hdue, hp, rfl⟩
    exact hno _ (List.mem_append_right _ hu) ⟨rfl, rfl⟩
  · intro hnone u hu hwatched
    rw [List.mem_append] at hu
    cases hu with
    | inl hold => exact hecho u hold hwatched
    | inr hfresh =>
      obtain ⟨hof, hc, hdue, hp, _⟩ := (hmem u).1 hfresh
      rw [hwatched.1] at hof hc hdue hp
      rw [hwatched.2] at hc hdue hp
      rw [hnone hof hc hdue] at hp
      cases hp

theorem noEcho_iff_of_not_visits {event : EchoEvent watched c.name} (hsent : s'.sent = s.sent)
    (hecho : s.NoEcho watched c) (hvisits : ¬ s.Visits event) :
    s'.NoEcho watched c ↔ w.Settled watched c s event := by
  apply iff_of_true
  · rw [SmoothState.NoEcho, hsent]
    exact hecho
  · exact fun h => absurd h hvisits

theorem receiveProperties_sent (w : SmoothPeer S N) (nodeId idx : Int) (value : Variant)
    (s : SmoothState N) : (w.receiveProperties nodeId idx value s).sent = s.sent := by
  unfold receiveProperties
  split
  · rfl
  · split
    · rfl
    · unfold applyProperty
      split
      · rfl
      · split
        · rfl
        · exact (setConfigCache_looked _ _ _ _).1

theorem enterReplication_sent (w : SmoothPeer S N) (node : N) (s : SmoothState N) :
    (w.enterReplication node s).sent = s.sent := by
  unfold enterReplication
  split <;> rfl

theorem process_idle (h : ¬ (s.queuedForDeletion = false ∧ s.isInterpolateFrame msec = true)) :
    w.process msec s = s := by
  unfold process
  split
  · rfl
  · next hqueued =>
    rw [if_pos]
    cases hframe : s.isInterpolateFrame msec with
    | false => rfl
    | true => exact absurd ⟨Bool.eq_false_iff.2 hqueued, hframe⟩ h

theorem resume_sent (h : ¬ ∃ node, s.suspended[i]? = some node ∧ node ∉ s.awaits ∧
    s.getId node ≠ -1 ∧ node ∈ s.configCache) : (w.resume i s).sent = s.sent := by
  unfold resume
  split
  · rfl
  · next node hat =>
    split
    · rfl
    · next hawaits =>
      rw [if_pos]
      by_contra hends
      rw [not_or, not_not] at hends
      exact h ⟨node, hat, hawaits, hends.1, hends.2⟩

/-- One event keeps the property unsent exactly if the property is settled wherever it is looked
at. -/
theorem echoStep_spec (w : SmoothPeer S N) (event : EchoEvent watched c.name)
    (hecho : s.NoEcho watched c) :
    (w.echoStep s event).NoEcho watched c ↔ w.Settled watched c s event := by
  cases event with
  | receive nodeId idx value =>
    exact noEcho_iff_of_not_visits (receiveProperties_sent w nodeId idx value s) hecho id
  | tween node d value =>
    apply noEcho_iff_of_not_visits _ hecho id
    rw [echoStep]
    split <;> rfl
  | tweenFinished node d => exact noEcho_iff_of_not_visits rfl hecho id
  | frame msec =>
    by_cases hpass : s.queuedForDeletion = false ∧ s.isInterpolateFrame msec = true
    · rw [echoStep, noEcho_iff_of_sends (process_spec w hpass.1 hpass.2) hecho]
      simp only [Settled, SmoothState.Visits, hpass, true_and]
    · have hvisits : ¬ s.Visits (.frame msec : EchoEvent watched c.name) :=
        fun h => hpass ⟨h.1, h.2.1⟩
      apply noEcho_iff_of_not_visits _ hecho hvisits
      rw [echoStep, process_idle hpass]
  | resume i =>
    by_cases hpass : ∃ node, s.suspended[i]? = some node ∧ node ∉ s.awaits ∧
        s.getId node ≠ -1 ∧ node ∈ s.configCache
    · obtain ⟨node, hat, hawaits, hid, htracked⟩ := hpass
      rw [echoStep, noEcho_iff_of_sends (resume_spec w hat hawaits hid htracked) hecho]
      constructor
      · intro h hvisits
        obtain ⟨m, hm, _, _, _, hcomes⟩ := hvisits
        rw [hat, Option.some.injEq] at hm
        rw [← hm] at hcomes
        exact h hcomes
      · intro h hcomes
        exact h ⟨node, hat, hawaits, hid, htracked, hcomes⟩
    · apply noEcho_iff_of_not_visits (resume_sent hpass) hecho
      intro h
      obtain ⟨node, hat, hawaits, hid, htracked, _⟩ := h
      exact hpass ⟨node, hat, hawaits, hid, htracked⟩
  | write node name other value => exact noEcho_iff_of_not_visits rfl hecho id
  | enterReplication node =>
    exact noEcho_iff_of_not_visits (enterReplication_sent w node s) hecho id
  | exitReplication node => exact noEcho_iff_of_not_visits rfl hecho id
  | setBlockSync node block => exact noEcho_iff_of_not_visits rfl hecho id
  | elsewhere repository awaits owner observers => exact noEcho_iff_of_not_visits rfl hecho id

/-- A property that no local code writes is not sent to anyone exactly if it is settled whenever a
pass comes to it, which a running tween prevents. -/
theorem no_echo_iff (w : SmoothPeer S N) (watched : N) (c : ReplicationPropertyConfig)
    (s : SmoothState N) (events : List (EchoEvent watched c.name)) :
    Runs.Always w.echoStep (fun t => t.NoEcho watched c) { s with sent := [] } events ↔
      Runs.Guarded w.echoStep (w.Settled watched c) { s with sent := [] } events := by
  apply Runs.always_iff_guarded (I := fun _ => True)
  · exact fun _ _ _ _ _ => trivial
  · exact fun t event _ hecho => echoStep_spec w event hecho
  · trivial
  · exact fun u hu => by cases hu

/-- The node enters replication, a frame passes, the value 10 is received, and the next frame comes
when the tween has reached 5. -/
def tweenEvents : List (EchoEvent SmallNode.scene position.name) :=
  [.enterReplication .scene, .frame 60, .receive 0 0 (.int 10), .tween .scene position (.int 5),
    .frame 120]

/-- The client sends the intermediate value back to the server. -/
theorem tween_value_sent :
    ¬ Runs.Always smoothClient.echoStep (fun t => t.NoEcho .scene position)
      (smoothState [] [.scene]) tweenEvents := by
  intro h
  obtain ⟨s, hs⟩ : ∃ s, s = Runs.run smoothClient.echoStep (smoothState [] [.scene]) tweenEvents :=
    ⟨_, rfl⟩
  have hsent : ∃ u ∈ s.sent, u.node = .scene ∧ u.config = position := by
    rw [hs]
    decide +kernel
  obtain ⟨u, hu, hwatched⟩ := hsent
  have hlast := h.last
  rw [← hs] at hlast
  exact hlast u hu hwatched

end SmoothPeer

end Godaemon
