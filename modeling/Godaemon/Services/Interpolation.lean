import Mathlib.Data.Rat.Defs
import Mathlib.Tactic.Linarith
import Godaemon.Services.SmoothEcho

namespace Godaemon
set_option autoImplicit true

/-- `INTERPOLATE_DURATION`, in seconds. -/
def interpolateDuration : ℚ := 77 / 1000

theorem interpolateDuration_pos : 0 < interpolateDuration := by norm_num [interpolateDuration]

/-- A tween of the engine, which brings a property from the value that it had to a received one. -/
structure PropertyTween (N : Type) where
  id : Nat
  node : N
  config : ReplicationPropertyConfig
  initial : Variant
  final : Variant
  elapsed : ℚ

/-- A peer with the engine's ways to go from a value to another one: where one is at a part of the
time, for a plain tween before its end and for `lerp_angle`. -/
structure TweenPeer (S N : Type) extends SmoothPeer S N where
  interpolate : Variant → Variant → ℚ → Variant
  lerpAngle : Variant → Variant → ℚ → Variant

/-- A SyncService with its tweens, in the order in which the engine steps them. Its earlier state
says of each property whether a tween is running, as `hasPropertyInterpolation` does. -/
structure TweenState (N : Type) where
  smooth : SmoothState N
  tweens : List (PropertyTween N)
  propertyInterpolationCache : Dict N (Dict ReplicationPropertyConfig Nat)
  /-- The nodes whose `tree_exited` is connected. -/
  treeExited : List N
  created : Nat

inductive TweenEvent (N : Type) where
  | receive (nodeId idx : Int) (value : Variant)
  | processTweens (delta : ℚ)
  | process (msec : Nat)
  | resume (i : Nat)
  | write (node : N) (name : String) (value : Variant)
  | resetInterpolation (node : N)
  | emitTreeExited (node : N)
  | enterReplication (node : N)
  | exitReplication (node : N)
  | setBlockSync (node : N) (block : Bool)
  | elsewhere (repository : Repository N) (awaits : List N) (owner : N → Int)
    (observers : N → List Int)

namespace TweenState

variable {N : Type} [DecidableEq N] (t : TweenState N)

def start (smooth : SmoothState N) : TweenState N :=
  ⟨{ smooth with interpolating := fun _ _ => false }, [], .empty, [], 0⟩

def setInterpolating (node : N) (c : ReplicationPropertyConfig) (running : Bool) : SmoothState N :=
  { t.smooth with
    interpolating := Function.update t.smooth.interpolating node
      (Function.update (t.smooth.interpolating node) c running) }

def hasPropertyInterpolation (node : N) (c : ReplicationPropertyConfig) : Bool :=
  (t.propertyInterpolationCache.get2? node c).isSome

/-- The tween that is cached for a property is killed. -/
def endPropertyInterpolation (node : N) (c : ReplicationPropertyConfig) : TweenState N :=
  match t.propertyInterpolationCache.get2? node c with
  | none => t
  | some id => { t with
    smooth := t.setInterpolating node c false
    tweens := t.tweens.filter (fun tween => tween.id ≠ id)
    propertyInterpolationCache := t.propertyInterpolationCache.erase2 node c }

/-- The configs of a node that have a tween, as the keys of its cache. -/
def interpolatedConfigs (node : N) : List ReplicationPropertyConfig :=
  match t.propertyInterpolationCache.get? node with
  | none => []
  | some configs => configs.keys

def endPropertyInterpolations (node : N) (configs : List ReplicationPropertyConfig) :
    TweenState N :=
  configs.foldl (fun t c => t.endPropertyInterpolation node c) t

/-- The value that a property has got to counts as shared. -/
def updateConfigCaches (node : N) (configs : List ReplicationPropertyConfig) : TweenState N :=
  configs.foldl (fun t c => { t with
    smooth := t.smooth.setConfigCache node c (t.smooth.properties node c.name) }) t

def cancelAllPropertyInterpolations (node : N) (update : Bool) : TweenState N :=
  let configs := t.interpolatedConfigs node
  let ended := t.endPropertyInterpolations node configs
  let t := { ended with
    propertyInterpolationCache := ended.propertyInterpolationCache.erase node }
  if update then t.updateConfigCaches node configs else t

def resetInterpolation (node : N) : TweenState N := t.cancelAllPropertyInterpolations node true

/-- A node leaves the tree, and is told of by its one-shot connection. -/
def emitTreeExited (node : N) : TweenState N :=
  if node ∉ t.treeExited then t
  else { t.cancelAllPropertyInterpolations node false with
    treeExited := t.treeExited.filter (fun n => n ≠ node) }

/-- Each tween that is still there was cached under its property, and nothing else is. -/
structure Sound : Prop where
  ids : (t.tweens.map (fun tween => tween.id)).Nodup
  fresh : ∀ tween ∈ t.tweens, tween.id < t.created
  cached : ∀ n c id, t.propertyInterpolationCache.get2? n c = some id ↔
    ∃ tween ∈ t.tweens, tween.id = id ∧ tween.node = n ∧ tween.config = c
  flagged : ∀ n c, t.smooth.interpolating n c = t.hasPropertyInterpolation n c
  connected : ∀ tween ∈ t.tweens, tween.node ∈ t.treeExited
  running : ∀ tween ∈ t.tweens, 0 ≤ tween.elapsed ∧ tween.elapsed < interpolateDuration

end TweenState

namespace TweenPeer

variable {S N : Type} [DecidableEq N] (w : TweenPeer S N)

def fits (c : ReplicationPropertyConfig) (value received : Variant) : Bool :=
  if c.getAngularLerp then received.isAngle else w.tweenFits value received

/-- A value that does not fit ends the tween that is running and starts none. -/
def startPropertyInterpolation (node : N) (c : ReplicationPropertyConfig) (value : Variant)
    (t : TweenState N) : TweenState N :=
  let t := t.endPropertyInterpolation node c
  if !w.fits c (t.smooth.properties node c.name) value then t
  else { t with
    smooth := t.setInterpolating node c true
    tweens := t.tweens ++ [⟨t.created, node, c, t.smooth.properties node c.name, value, 0⟩]
    propertyInterpolationCache := t.propertyInterpolationCache.set2 node c t.created
    treeExited := if node ∈ t.treeExited then t.treeExited else t.treeExited ++ [node]
    created := t.created + 1 }

def receiveProperties (nodeId idx : Int) (value : Variant) (t : TweenState N) : TweenState N :=
  match w.fieldAt nodeId idx t.smooth with
  | none => t
  | some (node, c) =>
    if c.sync = .once then t
    else if !c.canTheyRecv (t.smooth.owner node) w.localPeer then t
    else if c.sync = .request then { t with
      smooth := w.applyProperty node c value t.smooth }
    else
      let t := w.startPropertyInterpolation node c value t
      { t with
        smooth := t.smooth.setConfigCache node c value }

/-- What a tween writes when it has run for some time. At its end a plain one writes its final
value; `lerp_angle` is then at 1. -/
def valueAt (c : ReplicationPropertyConfig) (initial final : Variant) (elapsed : ℚ) : Variant :=
  if c.getAngularLerp then
    w.lerpAngle initial final (min elapsed interpolateDuration / interpolateDuration)
  else if elapsed < interpolateDuration then
    w.interpolate initial final (elapsed / interpolateDuration)
  else final

/-- The engine steps a tween, unless it has been killed, and emits `finished` when it is over. -/
def stepTween (delta : ℚ) (t : TweenState N) (id : Nat) : TweenState N :=
  match t.tweens.find? (fun tween => tween.id = id) with
  | none => t
  | some tween =>
    let elapsed := tween.elapsed + delta
    let t := { t with
      smooth := t.smooth.setProperty tween.node tween.config.name
        (w.valueAt tween.config tween.initial tween.final elapsed) }
    if elapsed < interpolateDuration then { t with
      tweens := t.tweens.map (fun other =>
        if other.id = id then { tween with elapsed := elapsed } else other) }
    else t.endPropertyInterpolation tween.node tween.config

/-- A frame without duration steps nothing. -/
def processTweens (delta : ℚ) (t : TweenState N) : TweenState N :=
  if delta ≤ 0 then t
  else (t.tweens.map (fun tween => tween.id)).foldl (w.stepTween delta) t

def step (t : TweenState N) : TweenEvent N → TweenState N
  | .receive nodeId idx value => w.receiveProperties nodeId idx value t
  | .processTweens delta => w.processTweens delta t
  | .process msec => { t with smooth := w.process msec t.smooth }
  | .resume i => { t with smooth := w.resume i t.smooth }
  | .write node name value => { t with smooth := t.smooth.setProperty node name value }
  | .resetInterpolation node => t.resetInterpolation node
  | .emitTreeExited node => t.emitTreeExited node
  | .enterReplication node => { t with smooth := w.enterReplication node t.smooth }
  | .exitReplication node => { t with smooth := SmoothPeer.exitReplication node t.smooth }
  | .setBlockSync node block => { t with
    smooth := { t.smooth with
      blockedNodes :=
        if block then node :: t.smooth.blockedNodes
        else t.smooth.blockedNodes.filter (fun m => m ≠ node) } }
  | .elsewhere repository awaits owner observers => { t with
    smooth := { t.smooth with
      repository := repository
      awaits := awaits
      owner := owner
      observers := observers } }

end TweenPeer

namespace TweenState

variable {N : Type} [DecidableEq N] {t t' : TweenState N} {node : N}
  {c : ReplicationPropertyConfig}

/-- States between which the tween of a property has ended, if there was one. -/
structure Ended (t t' : TweenState N) (node : N) (c : ReplicationPropertyConfig) : Prop where
  tweens : t'.tweens = t.tweens.filter (fun tween => ¬ (tween.node = node ∧ tween.config = c))
  cache : ∀ n d, t'.propertyInterpolationCache.get2? n d =
    if n = node ∧ d = c then none else t.propertyInterpolationCache.get2? n d
  smooth : t'.smooth = t.setInterpolating node c false
  treeExited : t'.treeExited = t.treeExited
  created : t'.created = t.created

theorem setInterpolating_interpolating (running : Bool) (n : N) (d : ReplicationPropertyConfig) :
    (t.setInterpolating node c running).interpolating n d =
      if n = node ∧ d = c then running else t.smooth.interpolating n d := by
  simp only [setInterpolating, Function.update_apply]
  by_cases hn : n = node
  · simp only [hn, ↓reduceIte, Function.update_apply, true_and]
  · simp only [hn, ↓reduceIte, false_and]

theorem Sound.eq_of_id (h : t.Sound) {a b : PropertyTween N} (ha : a ∈ t.tweens)
    (hb : b ∈ t.tweens) (hid : a.id = b.id) : a = b :=
  List.inj_on_of_nodup_map h.ids ha hb hid

theorem Sound.hasPropertyInterpolation_iff (h : t.Sound) :
    t.hasPropertyInterpolation node c = true ↔
      ∃ tween ∈ t.tweens, tween.node = node ∧ tween.config = c := by
  rw [hasPropertyInterpolation, Option.isSome_iff_exists]
  constructor
  · intro hcached
    obtain ⟨id, hid⟩ := hcached
    obtain ⟨tween, htween, _, hof⟩ := (h.cached node c id).1 hid
    exact ⟨tween, htween, hof⟩
  · intro hexists
    obtain ⟨tween, htween, hof⟩ := hexists
    exact ⟨tween.id, (h.cached node c tween.id).2 ⟨tween, htween, rfl, hof⟩⟩

theorem Sound.eq_of_config (h : t.Sound) {a b : PropertyTween N} (ha : a ∈ t.tweens)
    (hb : b ∈ t.tweens) (hnode : a.node = b.node) (hconfig : a.config = b.config) : a = b := by
  have hget := (h.cached a.node a.config a.id).2 ⟨a, ha, rfl, rfl, rfl⟩
  have hget' := (h.cached a.node a.config b.id).2 ⟨b, hb, rfl, hnode.symm, hconfig.symm⟩
  rw [hget, Option.some.injEq] at hget'
  exact h.eq_of_id ha hb hget'

theorem Sound.endPropertyInterpolation_ended (h : t.Sound) (node : N)
    (c : ReplicationPropertyConfig) : Ended t (t.endPropertyInterpolation node c) node c := by
  rw [endPropertyInterpolation]
  cases hget : t.propertyInterpolationCache.get2? node c with
  | none =>
    apply Ended.mk
    · rw [eq_comm, List.filter_eq_self]
      intro tween htween
      rw [decide_eq_true_iff]
      intro hof
      have hsome := (h.cached node c tween.id).2 ⟨tween, htween, rfl, hof.1, hof.2⟩
      rw [hget] at hsome
      cases hsome
    · intro n d
      change t.propertyInterpolationCache.get2? n d = _
      split
      · next hof => rw [hof.1, hof.2, hget]
      · rfl
    · have hflag : t.smooth.interpolating node c = false := by
        rw [h.flagged, hasPropertyInterpolation, hget]
        rfl
      rw [setInterpolating, ← hflag, Function.update_eq_self, Function.update_eq_self]
    · rfl
    · rfl
  | some id =>
    obtain ⟨tween, htween, hid, hnode, hconfig⟩ := (h.cached node c id).1 hget
    apply Ended.mk
    · apply List.filter_congr
      intro other hother
      rw [decide_eq_decide, not_iff_not, ← hid]
      constructor
      · intro he
        rw [h.eq_of_id hother htween he]
        exact ⟨hnode, hconfig⟩
      · intro hof
        rw [h.eq_of_config hother htween (hof.1.trans hnode.symm) (hof.2.trans hconfig.symm)]
    · exact fun n d => Dict.get2?_erase2 _
    · rfl
    · rfl
    · rfl

theorem Ended.mem_iff (he : Ended t t' node c) (tween : PropertyTween N) :
    tween ∈ t'.tweens ↔ tween ∈ t.tweens ∧ ¬ (tween.node = node ∧ tween.config = c) := by
  rw [he.tweens, List.mem_filter, decide_eq_true_iff]

theorem Ended.sound (he : Ended t t' node c) (h : t.Sound) : t'.Sound := by
  apply Sound.mk
  · rw [he.tweens]
    exact h.ids.sublist (List.filter_sublist.map _)
  · rw [he.created]
    exact fun tween htween => h.fresh tween ((he.mem_iff tween).1 htween).1
  · intro n d id
    simp only [he.cache, he.mem_iff]
    split
    · next hof =>
      apply iff_of_false
      · exact fun hn => by cases hn
      · intro hexists
        obtain ⟨tween, htween, _, hnode, hconfig⟩ := hexists
        exact htween.2 ⟨hnode.trans hof.1, hconfig.trans hof.2⟩
    · next hof =>
      rw [h.cached]
      constructor
      · intro hexists
        obtain ⟨tween, htween, hid, hnode, hconfig⟩ := hexists
        exact ⟨tween, ⟨htween, fun hn => hof ⟨hnode ▸ hn.1, hconfig ▸ hn.2⟩⟩, hid, hnode, hconfig⟩
      · intro hexists
        obtain ⟨tween, htween, hrest⟩ := hexists
        exact ⟨tween, htween.1, hrest⟩
  · intro n d
    rw [he.smooth, setInterpolating_interpolating, hasPropertyInterpolation, he.cache, h.flagged]
    split <;> rfl
  · rw [he.treeExited]
    exact fun tween htween => h.connected tween ((he.mem_iff tween).1 htween).1
  · exact fun tween htween => h.running tween ((he.mem_iff tween).1 htween).1

theorem Sound.begins (h : t.Sound)
    (hnone : ∀ tween ∈ t.tweens, ¬ (tween.node = node ∧ tween.config = c))
    (initial final : Variant) : ({ t with
      smooth := t.setInterpolating node c true
      tweens := t.tweens ++ [⟨t.created, node, c, initial, final, 0⟩]
      propertyInterpolationCache := t.propertyInterpolationCache.set2 node c t.created
      treeExited := if node ∈ t.treeExited then t.treeExited else t.treeExited ++ [node]
      created := t.created + 1 } : TweenState N).Sound := by
  apply Sound.mk
  · simp only [List.map_append, List.map_cons, List.map_nil]
    rw [List.nodup_append]
    refine ⟨h.ids, List.nodup_singleton _, ?_⟩
    intro id hid new hnew
    obtain ⟨tween, htween, rfl⟩ := List.mem_map.1 hid
    rw [List.mem_singleton.1 hnew]
    exact Nat.ne_of_lt (h.fresh tween htween)
  · intro tween htween
    rcases List.mem_append.1 htween with hold | hnew
    · exact Nat.lt_succ_of_lt (h.fresh tween hold)
    · rw [List.mem_singleton.1 hnew]
      exact Nat.lt_succ_self _
  · intro n d id
    simp only [Dict.get2?_set2, List.mem_append, List.mem_singleton]
    split
    · next hof =>
      constructor
      · intro hid
        exact ⟨_, .inr rfl, Option.some.inj hid, hof.1.symm, hof.2.symm⟩
      · intro hexists
        obtain ⟨tween, htween, hid, hnode, hconfig⟩ := hexists
        rcases htween with hold | hnew
        · exact absurd ⟨hnode.trans hof.1, hconfig.trans hof.2⟩ (hnone tween hold)
        · rw [← hid, hnew]
    · next hof =>
      rw [h.cached]
      constructor
      · intro hexists
        obtain ⟨tween, htween, hrest⟩ := hexists
        exact ⟨tween, .inl htween, hrest⟩
      · intro hexists
        obtain ⟨tween, htween, hid, hnode, hconfig⟩ := hexists
        rcases htween with hold | hnew
        · exact ⟨tween, hold, hid, hnode, hconfig⟩
        · rw [hnew] at hnode hconfig
          exact absurd ⟨hnode.symm, hconfig.symm⟩ hof
  · intro n d
    rw [setInterpolating_interpolating, hasPropertyInterpolation, Dict.get2?_set2, h.flagged]
    split <;> rfl
  · intro tween htween
    rcases List.mem_append.1 htween with hold | hnew
    · have hin := h.connected tween hold
      split
      · exact hin
      · exact List.mem_append_left _ hin
    · rw [List.mem_singleton.1 hnew]
      split
      · next hin => exact hin
      · exact List.mem_append_right _ List.mem_cons_self
  · intro tween htween
    rcases List.mem_append.1 htween with hold | hnew
    · exact h.running tween hold
    · rw [List.mem_singleton.1 hnew]
      exact ⟨le_refl _, interpolateDuration_pos⟩

theorem Sound.of_smooth (h : t.Sound) {smooth : SmoothState N}
    (hflag : smooth.interpolating = t.smooth.interpolating) :
    ({ t with smooth := smooth } : TweenState N).Sound := by
  have hflagged (n : N) (c : ReplicationPropertyConfig) : smooth.interpolating n c =
      t.hasPropertyInterpolation n c := by
    rw [hflag]
    exact h.flagged n c
  exact ⟨h.ids, h.fresh, h.cached, hflagged, h.connected, h.running⟩

/-- States between which no property has been written, and no tween started or ended. -/
def Untouched (s s' : SmoothState N) : Prop :=
  s'.properties = s.properties ∧ s'.interpolating = s.interpolating

omit [DecidableEq N] in
theorem Untouched.trans {s s' s'' : SmoothState N} (h : Untouched s s') (h' : Untouched s' s'') :
    Untouched s s'' := ⟨h'.1.trans h.1, h'.2.trans h.2⟩

theorem untouched_of_looked {s s' : SmoothState N} {nodes : List N}
    (h : SmoothPeer.Looked s s' nodes) : Untouched s s' := by
  rw [h.frame]
  exact ⟨rfl, rfl⟩

/-- What cancelling the tweens of a node leaves. -/
structure Cancelled (t t' : TweenState N) (node : N) : Prop where
  sound : t'.Sound
  mem : ∀ tween, tween ∈ t'.tweens ↔ tween ∈ t.tweens ∧ tween.node ≠ node
  properties : t'.smooth.properties = t.smooth.properties
  treeExited : t'.treeExited = t.treeExited

theorem Sound.endPropertyInterpolations (h : t.Sound) (node : N)
    (configs : List ReplicationPropertyConfig) :
    (t.endPropertyInterpolations node configs).Sound ∧
      (∀ tween, tween ∈ (t.endPropertyInterpolations node configs).tweens ↔
        tween ∈ t.tweens ∧ ¬ (tween.node = node ∧ tween.config ∈ configs)) ∧
      (t.endPropertyInterpolations node configs).smooth.properties = t.smooth.properties ∧
      (t.endPropertyInterpolations node configs).treeExited = t.treeExited := by
  induction configs generalizing t with
  | nil =>
    refine ⟨h, fun tween => ?_, rfl, rfl⟩
    exact ⟨fun htween => ⟨htween, fun hn => absurd hn.2 List.not_mem_nil⟩, fun htween => htween.1⟩
  | cons c configs ih =>
    have he := h.endPropertyInterpolation_ended node c
    obtain ⟨hsound, hmem, hproperties, hexited⟩ := ih (he.sound h)
    refine ⟨hsound, fun tween => ?_, hproperties.trans ?_, hexited.trans he.treeExited⟩
    · rw [TweenState.endPropertyInterpolations, List.foldl_cons]
      rw [TweenState.endPropertyInterpolations] at hmem
      rw [hmem, he.mem_iff, List.mem_cons]
      tauto
    · rw [he.smooth]
      rfl

theorem updateConfigCaches_untouched (t : TweenState N) (node : N)
    (configs : List ReplicationPropertyConfig) : t.updateConfigCaches node configs = { t with
      smooth := (t.updateConfigCaches node configs).smooth } ∧
      Untouched t.smooth (t.updateConfigCaches node configs).smooth := by
  induction configs generalizing t with
  | nil => exact ⟨rfl, rfl, rfl⟩
  | cons c configs ih =>
    obtain ⟨hrest, huntouched⟩ := ih { t with
      smooth := t.smooth.setConfigCache node c (t.smooth.properties node c.name) }
    exact ⟨hrest, (untouched_of_looked
      (SmoothPeer.setConfigCache_looked t.smooth node c _).2).trans huntouched⟩

/-- A tween of the node is cached under one of the node's configs, and so is ended. -/
theorem Sound.cancelAllPropertyInterpolations (h : t.Sound) (node : N) (update : Bool) :
    Cancelled t (t.cancelAllPropertyInterpolations node update) node := by
  obtain ⟨hsound, hmem, hproperties, hexited⟩ :=
    h.endPropertyInterpolations node (t.interpolatedConfigs node)
  obtain ⟨u, hu⟩ : ∃ u, u = t.endPropertyInterpolations node (t.interpolatedConfigs node) :=
    ⟨_, rfl⟩
  rw [← hu] at hsound hmem hproperties hexited
  have hconfigs (tween : PropertyTween N) (htween : tween ∈ t.tweens)
      (hnode : tween.node = node) : tween.config ∈ t.interpolatedConfigs node := by
    have hget := (h.cached node tween.config tween.id).2 ⟨tween, htween, rfl, hnode, rfl⟩
    rw [Dict.get2?, Option.bind_eq_some_iff] at hget
    obtain ⟨configs, hconfigs, hid⟩ := hget
    rw [interpolatedConfigs, hconfigs]
    exact (Dict.mem_iff_get? _).2 ⟨_, hid⟩
  have hleft (tween : PropertyTween N) :
      tween ∈ u.tweens ↔ tween ∈ t.tweens ∧ tween.node ≠ node := by
    rw [hmem]
    exact and_congr_right fun htween =>
      ⟨fun hn hnode => hn ⟨hnode, hconfigs tween htween hnode⟩, fun hn hof => hn hof.1⟩
  -- nothing of the node is left in the cache, so that it may be erased
  have hnone (d : ReplicationPropertyConfig) :
      u.propertyInterpolationCache.get2? node d = none := by
    rw [Option.eq_none_iff_forall_ne_some]
    intro id hid
    obtain ⟨tween, htween, _, hnode, _⟩ := (hsound.cached node d id).1 hid
    exact ((hleft tween).1 htween).2 hnode
  have hcache (n : N) (d : ReplicationPropertyConfig) :
      (u.propertyInterpolationCache.erase node).get2? n d =
        u.propertyInterpolationCache.get2? n d := by
    rw [Dict.get2?_erase]
    split
    · next hn => rw [hn, hnone]
    · rfl
  have hcancelled : Cancelled t { u with
      propertyInterpolationCache := u.propertyInterpolationCache.erase node } node := by
    refine ⟨⟨hsound.ids, hsound.fresh, ?_, ?_, hsound.connected, hsound.running⟩, hleft,
      hproperties, hexited⟩
    · intro n d id
      rw [hcache]
      exact hsound.cached n d id
    · intro n d
      rw [hasPropertyInterpolation, hcache]
      exact hsound.flagged n d
  rw [TweenState.cancelAllPropertyInterpolations]
  rw [hu] at hcancelled
  split
  · obtain ⟨hsame, huntouched⟩ := updateConfigCaches_untouched
      { t.endPropertyInterpolations node (t.interpolatedConfigs node) with
        propertyInterpolationCache := (t.endPropertyInterpolations node
          (t.interpolatedConfigs node)).propertyInterpolationCache.erase node }
      node (t.interpolatedConfigs node)
    rw [hsame]
    exact ⟨hcancelled.sound.of_smooth huntouched.2, hcancelled.mem,
      huntouched.1.trans hcancelled.properties, hcancelled.treeExited⟩
  · exact hcancelled

/-- A tween has run for some more time. -/
def advance (t : TweenState N) (tween : PropertyTween N) (elapsed : ℚ) :
    List (PropertyTween N) :=
  t.tweens.map (fun other =>
    if other.id = tween.id then { tween with elapsed := elapsed } else other)

theorem Sound.mem_advance (h : t.Sound) {tween : PropertyTween N} (htween : tween ∈ t.tweens)
    (elapsed : ℚ) (other : PropertyTween N) : other ∈ t.advance tween elapsed ↔
      other = { tween with elapsed := elapsed } ∨ other ∈ t.tweens ∧ other ≠ tween := by
  rw [advance, List.mem_map]
  constructor
  · intro hexists
    obtain ⟨old, hold, he⟩ := hexists
    by_cases hid : old.id = tween.id
    · rw [if_pos hid] at he
      exact .inl he.symm
    · rw [if_neg hid] at he
      rw [← he]
      exact .inr ⟨hold, fun hn => hid (hn ▸ rfl)⟩
  · intro hother
    rcases hother with he | ⟨hmem, hne⟩
    · exact ⟨tween, htween, by rw [if_pos rfl, he]⟩
    · exact ⟨other, hmem, if_neg fun hid => hne (h.eq_of_id hmem htween hid)⟩

theorem Sound.advance (h : t.Sound) {tween : PropertyTween N} (htween : tween ∈ t.tweens)
    {elapsed : ℚ} (h0 : 0 ≤ elapsed) (h1 : elapsed < interpolateDuration) :
    ({ t with tweens := t.advance tween elapsed } : TweenState N).Sound := by
  have hmem := h.mem_advance htween elapsed
  -- every tween of the one list is in the other one, but for how long it has run
  have hold (other : PropertyTween N) (hother : other ∈ t.advance tween elapsed) :
      ∃ old ∈ t.tweens, old.id = other.id ∧ old.node = other.node ∧ old.config = other.config := by
    rcases (hmem other).1 hother with he | ⟨ho, _⟩
    · rw [he]
      exact ⟨tween, htween, rfl, rfl, rfl⟩
    · exact ⟨other, ho, rfl, rfl, rfl⟩
  have hnew (old : PropertyTween N) (ho : old ∈ t.tweens) : ∃ other ∈ t.advance tween elapsed,
      other.id = old.id ∧ other.node = old.node ∧ other.config = old.config := by
    by_cases he : old = tween
    · rw [he]
      exact ⟨_, (hmem _).2 (.inl rfl), rfl, rfl, rfl⟩
    · exact ⟨old, (hmem old).2 (.inr ⟨ho, he⟩), rfl, rfl, rfl⟩
  apply Sound.mk
  · have hsame : (t.advance tween elapsed).map (fun other => other.id) =
        t.tweens.map (fun other => other.id) := by
      rw [TweenState.advance, List.map_map]
      apply List.map_congr_left
      intro other _
      rw [Function.comp_apply]
      split
      · next hid => exact hid.symm
      · rfl
    change ((t.advance tween elapsed).map _).Nodup
    rw [hsame]
    exact h.ids
  · intro other hother
    obtain ⟨old, ho, hid, _⟩ := hold other hother
    exact hid ▸ h.fresh old ho
  · intro n d id
    rw [h.cached]
    constructor
    · intro hexists
      obtain ⟨old, ho, hid, hnode, hconfig⟩ := hexists
      obtain ⟨other, hother, hi, hn, hc⟩ := hnew old ho
      exact ⟨other, hother, hi.trans hid, hn.trans hnode, hc.trans hconfig⟩
    · intro hexists
      obtain ⟨other, hother, hid, hnode, hconfig⟩ := hexists
      obtain ⟨old, ho, hi, hn, hc⟩ := hold other hother
      exact ⟨old, ho, hi.trans hid, hn.trans hnode, hc.trans hconfig⟩
  · exact h.flagged
  · intro other hother
    obtain ⟨old, ho, _, hnode, _⟩ := hold other hother
    exact hnode ▸ h.connected old ho
  · intro other hother
    rcases (hmem other).1 hother with he | ⟨ho, _⟩
    · rw [he]
      exact ⟨h0, h1⟩
    · exact h.running other ho

end TweenState

namespace TweenPeer

open TweenState SmoothPeer

variable {S N : Type} [DecidableEq N] {w : TweenPeer S N} {t : TweenState N} {node : N}
  {c : ReplicationPropertyConfig}

variable (w node c) in
theorem startPropertyInterpolation_spec (h : t.Sound) (value : Variant) :
    (w.startPropertyInterpolation node c value t).Sound ∧
      (w.startPropertyInterpolation node c value t).smooth =
        w.toSmoothPeer.startPropertyInterpolation node c value t.smooth ∧
      ∀ tween, tween ∈ (w.startPropertyInterpolation node c value t).tweens ↔
        tween ∈ t.tweens ∧ ¬ (tween.node = node ∧ tween.config = c) ∨
        w.fits c (t.smooth.properties node c.name) value = true ∧
          tween = ⟨t.created, node, c, t.smooth.properties node c.name, value, 0⟩ := by
  have he := h.endPropertyInterpolation_ended node c
  have hsound := he.sound h
  obtain ⟨u, hu⟩ : ∃ u, u = t.endPropertyInterpolation node c := ⟨_, rfl⟩
  have hproperties : u.smooth.properties = t.smooth.properties := by
    rw [hu, he.smooth]
    rfl
  have hsame (running : Bool) : u.setInterpolating node c running =
      t.setInterpolating node c running := by
    rw [hu, setInterpolating, he.smooth]
    simp only [setInterpolating, Function.update_idem, Function.update_self]
  rw [← hu] at he hsound
  rw [startPropertyInterpolation, SmoothPeer.startPropertyInterpolation, ← hu]
  simp only [hproperties]
  cases hfits : w.fits c (t.smooth.properties node c.name) value with
  | false =>
    rw [fits] at hfits
    simp only [hfits, Bool.not_false, ↓reduceIte]
    refine ⟨hsound, he.smooth, fun tween => ?_⟩
    rw [he.mem_iff]
    simp only [Bool.false_eq_true, false_and, or_false]
  | true =>
    rw [fits] at hfits
    simp only [hfits, Bool.not_true, Bool.false_eq_true, ↓reduceIte]
    refine ⟨?_, hsame true, fun tween => ?_⟩
    · have hnone (tween : PropertyTween N) (htween : tween ∈ u.tweens) :
          ¬ (tween.node = node ∧ tween.config = c) := ((he.mem_iff tween).1 htween).2
      exact hsound.begins hnone _ _
    · rw [List.mem_append, List.mem_singleton, he.mem_iff, he.created]
      exact or_congr_right (and_iff_right trivial).symm

theorem setConfigCache_untouched (s : SmoothState N) (node : N) (c : ReplicationPropertyConfig)
    (value : Variant) : Untouched s (s.setConfigCache node c value) :=
  untouched_of_looked (SmoothPeer.setConfigCache_looked s node c value).2

theorem applyProperty_interpolating (hsync : c.sync = .request) (value : Variant)
    (s : SmoothState N) :
    (w.applyProperty node c value s).interpolating = s.interpolating := by
  rw [SmoothPeer.applyProperty, if_pos hsync]
  split
  · rfl
  · rfl

theorem receiveProperties_spec (h : t.Sound) (nodeId idx : Int) (value : Variant) :
    (w.receiveProperties nodeId idx value t).Sound ∧
      (w.receiveProperties nodeId idx value t).smooth =
        w.toSmoothPeer.receiveProperties nodeId idx value t.smooth := by
  rw [receiveProperties, SmoothPeer.receiveProperties]
  cases w.fieldAt nodeId idx t.smooth with
  | none => exact ⟨h, rfl⟩
  | some field =>
    obtain ⟨node, c⟩ := field
    simp only
    by_cases honce : c.sync = .once
    · rw [if_pos honce, if_pos honce]
      exact ⟨h, rfl⟩
    rw [if_neg honce, if_neg honce]
    by_cases hrecv : (!c.canTheyRecv (t.smooth.owner node) w.localPeer) = true
    · rw [if_pos hrecv, SmoothPeer.applyProperty, if_pos hrecv]
      exact ⟨h, rfl⟩
    rw [if_neg hrecv]
    by_cases hrequest : c.sync = .request
    · rw [if_pos hrequest]
      exact ⟨h.of_smooth (applyProperty_interpolating hrequest value t.smooth), rfl⟩
    · obtain ⟨hsound, hsmooth, _⟩ := startPropertyInterpolation_spec w node c h value
      rw [if_neg hrequest, SmoothPeer.applyProperty, if_neg hrecv, if_neg hrequest, ← hsmooth]
      exact ⟨hsound.of_smooth (setConfigCache_untouched _ _ _ _).2, rfl⟩

/-- What a step of the engine does to one tween. -/
inductive Stepped (w : TweenPeer S N) (delta : ℚ) (t : TweenState N) (id : Nat) :
    TweenState N → Prop where
  | killed (h : ∀ tween ∈ t.tweens, tween.id ≠ id) : Stepped w delta t id t
  | running (tween : PropertyTween N) (h : tween ∈ t.tweens) (hid : tween.id = id)
      (hlt : tween.elapsed + delta < interpolateDuration) : Stepped w delta t id { t with
        smooth := t.smooth.setProperty tween.node tween.config.name
          (w.valueAt tween.config tween.initial tween.final (tween.elapsed + delta))
        tweens := t.advance tween (tween.elapsed + delta) }
  | finished (tween : PropertyTween N) (h : tween ∈ t.tweens) (hid : tween.id = id)
      (hle : interpolateDuration ≤ tween.elapsed + delta) (t' : TweenState N)
      (he : Ended { t with
        smooth := t.smooth.setProperty tween.node tween.config.name
          (w.valueAt tween.config tween.initial tween.final (tween.elapsed + delta)) }
        t' tween.node tween.config) : Stepped w delta t id t'

theorem stepTween_stepped (h : t.Sound) (delta : ℚ) (id : Nat) :
    Stepped w delta t id (w.stepTween delta t id) := by
  rw [stepTween]
  cases hfind : t.tweens.find? (fun tween => tween.id = id) with
  | none =>
    apply Stepped.killed
    intro tween htween hid
    have hno := List.find?_eq_none.1 hfind tween htween
    exact hno (decide_eq_true hid)
  | some tween =>
    have hmem := List.mem_of_find?_eq_some hfind
    have hid : tween.id = id := by simpa using List.find?_some hfind
    subst hid
    simp only
    split
    · next hlt => exact .running tween hmem rfl hlt
    · next hge =>
      have hwritten : ({ t with
          smooth := t.smooth.setProperty tween.node tween.config.name
            (w.valueAt tween.config tween.initial tween.final (tween.elapsed + delta)) } :
              TweenState N).Sound := h.of_smooth rfl
      exact .finished tween hmem rfl (not_lt.1 hge) _
        (hwritten.endPropertyInterpolation_ended tween.node tween.config)

theorem Stepped.sound {t' : TweenState N} {delta : ℚ} {id : Nat} (hs : Stepped w delta t id t')
    (h : t.Sound) (hdelta : 0 < delta) : t'.Sound := by
  cases hs with
  | killed => exact h
  | running tween hmem hid hlt =>
    have h0 := (h.running tween hmem).1
    exact (h.advance hmem (by linarith) hlt).of_smooth rfl
  | finished tween hmem hid hle _ he => exact he.sound (h.of_smooth rfl)

theorem processTweens_sound (h : t.Sound) (delta : ℚ) : (w.processTweens delta t).Sound := by
  rw [processTweens]
  split
  · exact h
  · next hdelta =>
    induction t.tweens.map (fun tween => tween.id) generalizing t with
    | nil => exact h
    | cons id ids ih => exact ih ((stepTween_stepped h delta id).sound h (not_le.1 hdelta))

theorem processNodes_untouched (w : SmoothPeer S N) (nodes : List N) (s : SmoothState N) :
    Untouched s (w.processNodes nodes s) := by
  induction nodes generalizing s with
  | nil => exact ⟨rfl, rfl⟩
  | cons node nodes ih =>
    rw [SmoothPeer.processNodes]
    split
    · exact ih s
    split
    · exact ⟨rfl, rfl⟩
    split
    · exact ⟨rfl, rfl⟩
    · exact (untouched_of_looked (SmoothPeer.processNode_spec w node s).1).trans (ih _)

theorem process_untouched (w : SmoothPeer S N) (msec : Nat) (s : SmoothState N) :
    Untouched s (w.process msec s) := by
  rw [SmoothPeer.process]
  split
  · exact ⟨rfl, rfl⟩
  split
  · exact ⟨rfl, rfl⟩
  · exact processNodes_untouched w _ { s with lastInterpolateT := msec }

theorem resume_untouched (w : SmoothPeer S N) (i : Nat) (s : SmoothState N) :
    Untouched s (w.resume i s) := by
  rw [SmoothPeer.resume]
  split
  · exact ⟨rfl, rfl⟩
  · next node _ =>
    split
    · exact ⟨rfl, rfl⟩
    simp only
    split
    · exact ⟨rfl, rfl⟩
    · have hnode := untouched_of_looked (SmoothPeer.processNode_spec w node
        { s with suspended := s.suspended.eraseIdx i }).1
      exact Untouched.trans hnode (processNodes_untouched w _ _)

theorem enterReplication_untouched (w : SmoothPeer S N) (node : N) (s : SmoothState N) :
    Untouched s (w.enterReplication node s) := by
  rw [SmoothPeer.enterReplication]
  split
  · exact ⟨rfl, rfl⟩
  · exact ⟨rfl, rfl⟩

theorem emitTreeExited_spec (h : t.Sound) (node : N) : (t.emitTreeExited node).Sound ∧
    (∀ tween, tween ∈ (t.emitTreeExited node).tweens ↔ tween ∈ t.tweens ∧ tween.node ≠ node) ∧
    (t.emitTreeExited node).smooth.properties = t.smooth.properties := by
  rw [emitTreeExited]
  split
  · next hnot =>
    refine ⟨h, fun tween => ?_, rfl⟩
    exact ⟨fun htween => ⟨htween, fun hn => hnot (hn ▸ h.connected tween htween)⟩,
      fun htween => htween.1⟩
  · have hc := h.cancelAllPropertyInterpolations node false
    refine ⟨⟨hc.sound.ids, hc.sound.fresh, hc.sound.cached, hc.sound.flagged, ?_,
      hc.sound.running⟩, hc.mem, hc.properties⟩
    intro tween htween
    have hleft := (hc.mem tween).1 htween
    exact List.mem_filter.2 ⟨h.connected tween hleft.1, decide_eq_true hleft.2⟩

theorem step_sound (h : t.Sound) (event : TweenEvent N) : (w.step t event).Sound := by
  cases event with
  | receive nodeId idx value => exact (receiveProperties_spec h nodeId idx value).1
  | processTweens delta => exact processTweens_sound h delta
  | process msec => exact h.of_smooth (process_untouched _ msec t.smooth).2
  | resume i => exact h.of_smooth (resume_untouched _ i t.smooth).2
  | write node name value => exact h.of_smooth rfl
  | resetInterpolation node => exact (h.cancelAllPropertyInterpolations node true).sound
  | emitTreeExited node => exact (emitTreeExited_spec h node).1
  | enterReplication node => exact h.of_smooth (enterReplication_untouched _ node t.smooth).2
  | exitReplication node => exact h.of_smooth rfl
  | setBlockSync node block => exact h.of_smooth rfl
  | elsewhere repository awaits owner observers => exact h.of_smooth rfl

theorem sound_start (smooth : SmoothState N) : (start smooth).Sound := by
  apply Sound.mk
  · exact List.nodup_nil
  · exact fun tween htween => absurd htween List.not_mem_nil
  · intro n c id
    apply iff_of_false
    · exact fun hn => by cases hn
    · intro hexists
      obtain ⟨tween, htween, _⟩ := hexists
      exact List.not_mem_nil htween
  · exact fun n c => rfl
  · exact fun tween htween => absurd htween List.not_mem_nil
  · exact fun tween htween => absurd htween List.not_mem_nil

theorem sound_run (w : TweenPeer S N) (smooth : SmoothState N) (events : List (TweenEvent N)) :
    (Runs.run w.step (TweenState.start smooth) events).Sound := by
  have halways : Runs.Always w.step TweenState.Sound (TweenState.start smooth) events :=
    Runs.always_of_step (P := TweenState.Sound) (fun _ event h => step_sound h event)
      (sound_start smooth) events
  exact halways.last

theorem setProperty_properties (s : SmoothState N) (m : N) (name : String) (value : Variant)
    (n : N) (other : String) : (s.setProperty m name value).properties n other =
      if n = m ∧ other = name then value else s.properties n other := by
  simp only [SmoothState.setProperty, Function.update_apply]
  by_cases hn : n = m
  · simp only [hn, ↓reduceIte, Function.update_apply, true_and]
  · simp only [hn, ↓reduceIte, false_and]

variable {initial final : Variant} {k : Nat} {x delta : ℚ} {t' : TweenState N}

variable (w node c initial final k) in
/-- A property is on its way from one value to another, and nothing else writes it. -/
structure Underway (x : ℚ) (t : TweenState N) : Prop where
  sound : t.Sound
  elapsed : 0 ≤ x
  value : t.smooth.properties node c.name = if x = 0 then initial else w.valueAt c initial final x
  running : x < interpolateDuration → ⟨k, node, c, initial, final, x⟩ ∈ t.tweens
  alone : ∀ tween ∈ t.tweens, tween.node = node → tween.config.name = c.name →
    x < interpolateDuration ∧ tween = ⟨k, node, c, initial, final, x⟩

theorem Underway.of_same (h : w.Underway node c initial final k x t) (hsound : t'.Sound)
    (hvalue : t'.smooth.properties node c.name = t.smooth.properties node c.name)
    (htweens : ∀ tween : PropertyTween N, tween.node = node → tween.config.name = c.name →
      (tween ∈ t'.tweens ↔ tween ∈ t.tweens)) : w.Underway node c initial final k x t' := by
  apply Underway.mk hsound h.elapsed
  · rw [hvalue, h.value]
  · intro hlt
    exact (htweens _ rfl rfl).2 (h.running hlt)
  · intro tween htween hnode hname
    exact h.alone tween ((htweens tween hnode hname).1 htween) hnode hname

theorem Underway.of_written (h : w.Underway node c initial final k x t) (hsound : t'.Sound)
    {n : N} {name : String} {value : Variant} (hne : ¬ (n = node ∧ name = c.name))
    (hwritten : t'.smooth.properties = (t.smooth.setProperty n name value).properties)
    (htweens : ∀ tween : PropertyTween N, tween.node = node → tween.config.name = c.name →
      (tween ∈ t'.tweens ↔ tween ∈ t.tweens)) : w.Underway node c initial final k x t' := by
  apply h.of_same hsound _ htweens
  rw [hwritten, setProperty_properties, if_neg]
  exact fun hn => hne ⟨hn.1.symm, hn.2.symm⟩

theorem Underway.late (h : w.Underway node c initial final k x t)
    (hx : interpolateDuration ≤ x) {y : ℚ} (hy : interpolateDuration ≤ y) :
    w.Underway node c initial final k y t := by
  have hx0 : x ≠ 0 := ne_of_gt (interpolateDuration_pos.trans_le hx)
  have hy0 : y ≠ 0 := ne_of_gt (interpolateDuration_pos.trans_le hy)
  apply Underway.mk h.sound (interpolateDuration_pos.le.trans hy)
  · rw [h.value, if_neg hx0, if_neg hy0, valueAt, valueAt, min_eq_right hx, min_eq_right hy,
      if_neg (not_lt.2 hx), if_neg (not_lt.2 hy)]
  · exact fun hlt => absurd hy (not_le.2 hlt)
  · intro tween htween hnode hname
    exact absurd hx (not_le.2 (h.alone tween htween hnode hname).1)

theorem Stepped.underway {id : Nat} (hs : Stepped w delta t id t')
    (h : w.Underway node c initial final k x t) (hdelta : 0 < delta) :
    w.Underway node c initial final k (if id = k ∧ x < interpolateDuration then x + delta else x)
      t' := by
  have hsound := hs.sound h.sound hdelta
  have hx := h.elapsed
  -- the stepped tween is that of the property, or it writes another one
  have hother (tween : PropertyTween N) (hmem : tween ∈ t.tweens)
      (hown : ¬ (tween.node = node ∧ tween.config.name = c.name)) :
      ¬ (tween.id = k ∧ x < interpolateDuration) := by
    intro hn
    apply hown
    rw [h.sound.eq_of_id hmem (h.running hn.2) hn.1]
    exact ⟨rfl, rfl⟩
  cases hs with
  | killed hnone =>
    have hno : ¬ (id = k ∧ x < interpolateDuration) :=
      fun hn => hnone _ (h.running hn.2) hn.1.symm
    rw [if_neg hno]
    exact h
  | running tween hmem hid hlt =>
    have hadvance := h.sound.mem_advance hmem (tween.elapsed + delta)
    by_cases hown : tween.node = node ∧ tween.config.name = c.name
    · obtain ⟨hrunning, he⟩ := h.alone tween hmem hown.1 hown.2
      have hk : id = k := by rw [← hid, he]
      rw [if_pos ⟨hk, hrunning⟩]
      subst he
      apply Underway.mk hsound (by linarith)
      · rw [setProperty_properties, if_pos ⟨rfl, rfl⟩, if_neg (by linarith)]
      · exact fun _ => (hadvance _).2 (.inl rfl)
      · intro other hot hnode hname
        rcases (hadvance other).1 hot with hnew | ⟨hold, hne⟩
        · exact ⟨hlt, hnew⟩
        · exact absurd (h.alone other hold hnode hname).2 hne
    · rw [if_neg (hid ▸ hother tween hmem hown)]
      apply h.of_written hsound hown rfl
      intro other hnode hname
      rw [hadvance]
      constructor
      · intro hot
        rcases hot with hnew | hold
        · rw [hnew] at hnode hname
          exact absurd ⟨hnode, hname⟩ hown
        · exact hold.1
      · exact fun hold => .inr ⟨hold, fun hn => hown ⟨hn ▸ hnode, hn ▸ hname⟩⟩
  | finished tween hmem hid hle _ he =>
    have hproperties : t'.smooth.properties = (t.smooth.setProperty tween.node tween.config.name
        (w.valueAt tween.config tween.initial tween.final (tween.elapsed + delta))).properties := by
      rw [he.smooth]
      rfl
    by_cases hown : tween.node = node ∧ tween.config.name = c.name
    · obtain ⟨hrunning, htween⟩ := h.alone tween hmem hown.1 hown.2
      have hk : id = k := by rw [← hid, htween]
      rw [if_pos ⟨hk, hrunning⟩]
      subst htween
      apply Underway.mk hsound (by linarith)
      · rw [hproperties, setProperty_properties, if_pos ⟨rfl, rfl⟩, if_neg (by linarith)]
      · exact fun hlt => absurd hle (not_le.2 hlt)
      · intro other hot hnode hname
        obtain ⟨hold, hne⟩ := (he.mem_iff other).1 hot
        rw [(h.alone other hold hnode hname).2] at hne
        exact absurd ⟨rfl, rfl⟩ hne
    · rw [if_neg (hid ▸ hother tween hmem hown)]
      apply h.of_written hsound hown hproperties
      intro other hnode hname
      rw [he.mem_iff]
      apply and_iff_left
      exact fun hn => hown ⟨hn.1 ▸ hnode, hn.2 ▸ hname⟩

theorem Underway.stepTweens (h : w.Underway node c initial final k x t) (hdelta : 0 < delta)
    {ids : List Nat} (hnodup : ids.Nodup) : w.Underway node c initial final k
      (if k ∈ ids ∧ x < interpolateDuration then x + delta else x)
      (ids.foldl (w.stepTween delta) t) := by
  induction ids generalizing t x with
  | nil =>
    rw [if_neg (fun hn => absurd hn.1 List.not_mem_nil)]
    exact h
  | cons id ids ih =>
    obtain ⟨hnot, hrest⟩ := List.nodup_cons.1 hnodup
    have hfirst := (stepTween_stepped h.sound delta id).underway h hdelta
    rw [List.foldl_cons]
    by_cases hid : id = k
    · have hnext := ih hfirst hrest
      rw [if_neg (fun hn => hnot (hid ▸ hn.1))] at hnext
      simpa only [hid, List.mem_cons, true_or, true_and] using hnext
    · rw [if_neg (fun hn => hid hn.1)] at hfirst
      simpa only [List.mem_cons, Ne.symm hid, false_or] using ih hfirst hrest

theorem Underway.processTweens (h : w.Underway node c initial final k x t) (delta : ℚ) :
    w.Underway node c initial final k (x + max delta 0) (w.processTweens delta t) := by
  rw [TweenPeer.processTweens]
  split
  · next hle =>
    rw [max_eq_right hle, add_zero]
    exact h
  · next hlt =>
    have hdelta : 0 < delta := not_le.1 hlt
    have hstep := h.stepTweens hdelta h.sound.ids
    rw [max_eq_left hdelta.le]
    by_cases hx : x < interpolateDuration
    · have hk : k ∈ t.tweens.map (fun tween => tween.id) :=
        List.mem_map.2 ⟨_, h.running hx, rfl⟩
      rw [if_pos ⟨hk, hx⟩] at hstep
      exact hstep
    · rw [if_neg (fun hn => hx hn.2)] at hstep
      exact hstep.late (not_lt.1 hx) (by linarith [not_lt.1 hx])

theorem Underway.receiveProperties (h : w.Underway node c initial final k x t)
    (nodeId idx : Int) (value : Variant)
    (hother : ∀ d, w.fieldAt nodeId idx t.smooth = some (node, d) → d.name ≠ c.name) :
    w.Underway node c initial final k x (w.receiveProperties nodeId idx value t) := by
  obtain ⟨hsound, _⟩ := receiveProperties_spec (w := w) h.sound nodeId idx value
  rw [TweenPeer.receiveProperties] at hsound ⊢
  cases hfield : w.fieldAt nodeId idx t.smooth with
  | none => exact h
  | some field =>
    obtain ⟨n, d⟩ := field
    rw [hfield] at hsound hother
    simp only at hsound ⊢
    have hne : ¬ (node = n ∧ c.name = d.name) := by
      intro hn
      rw [hn.1] at hother
      exact hother d rfl hn.2.symm
    split
    · exact h
    split
    · exact h
    split
    · next honce hrecv hrequest =>
      rw [if_neg honce, if_neg hrecv, if_pos hrequest] at hsound
      apply h.of_same hsound
      · rw [SmoothPeer.applyProperty, if_neg hrecv, if_pos hrequest, setProperty_properties,
          if_neg hne]
      · exact fun _ _ _ => Iff.rfl
    · next honce hrecv hrequest =>
      rw [if_neg honce, if_neg hrecv, if_neg hrequest] at hsound
      obtain ⟨_, hsmooth, hmem⟩ := startPropertyInterpolation_spec w n d h.sound value
      apply h.of_same hsound
      · rw [(setConfigCache_untouched _ _ _ _).1, hsmooth]
        rfl
      · intro tween hnode hname
        have hnot : ¬ (tween.node = n ∧ tween.config = d) :=
          fun hn => hne ⟨hnode ▸ hn.1, hname ▸ hn.2 ▸ rfl⟩
        rw [hmem, and_iff_left hnot]
        apply or_iff_left
        intro hn
        rw [hn.2] at hnot
        exact hnot ⟨rfl, rfl⟩

/-- For how long an event lets tweens run. -/
def duration : TweenEvent N → ℚ
  | .processTweens delta => max delta 0
  | _ => 0

theorem Underway.smooth (h : w.Underway node c initial final k x t) {smooth : SmoothState N}
    (hs : Untouched t.smooth smooth) :
    w.Underway node c initial final k x { t with smooth := smooth } := by
  apply h.of_same (h.sound.of_smooth hs.2)
  · change smooth.properties node c.name = _
    rw [hs.1]
  · exact fun _ _ _ => Iff.rfl

variable (w) in
/-- A Smooth value is received that can be gone to, for a property that one config stands for. -/
structure Accepts (nodeId idx : Int) (value : Variant) (node : N) (c : ReplicationPropertyConfig)
    (t : TweenState N) : Prop where
  field : w.fieldAt nodeId idx t.smooth = some (node, c)
  sync : c.sync = .smooth
  recv : c.canTheyRecv (t.smooth.owner node) w.localPeer = true
  fits : w.fits c (t.smooth.properties node c.name) value = true
  alone : ∀ tween ∈ t.tweens, tween.node = node → tween.config.name = c.name → tween.config = c

theorem Accepts.underway {nodeId idx : Int} {value : Variant}
    (ha : w.Accepts nodeId idx value node c t) (h : t.Sound) :
    w.Underway node c (t.smooth.properties node c.name) value t.created 0
      (w.receiveProperties nodeId idx value t) := by
  obtain ⟨hsound, _⟩ := receiveProperties_spec (w := w) h nodeId idx value
  obtain ⟨_, hsmooth, hmem⟩ := startPropertyInterpolation_spec w node c h value
  have hstep : w.receiveProperties nodeId idx value t =
      { w.startPropertyInterpolation node c value t with
        smooth := (w.startPropertyInterpolation node c value t).smooth.setConfigCache node c
          value } := by
    rw [receiveProperties, ha.field]
    simp only [ha.sync, ha.recv, reduceCtorEq, Bool.not_true, Bool.false_eq_true, ↓reduceIte]
  rw [hstep] at hsound ⊢
  apply Underway.mk hsound (le_refl _)
  · rw [if_pos rfl, (setConfigCache_untouched _ _ _ _).1, hsmooth]
    rfl
  · exact fun _ => (hmem _).2 (.inr ⟨ha.fits, rfl⟩)
  · intro tween htween hnode hname
    rcases (hmem tween).1 htween with ⟨hold, hnot⟩ | hnew
    · exact absurd ⟨hnode, ha.alone tween hold hnode hname⟩ hnot
    · exact ⟨interpolateDuration_pos, hnew.2⟩

/-- However values have come and frames have passed: a property has an interpolation exactly if one
tween runs for it, the cache has this tween, and when a node leaves the tree its tweens end. -/
theorem tweens_of_run (w : TweenPeer S N) (smooth : SmoothState N) (events : List (TweenEvent N)) :
    let t := Runs.run w.step (start smooth) events
    (∀ node c, t.hasPropertyInterpolation node c = true ↔
      ∃! tween, tween ∈ t.tweens ∧ tween.node = node ∧ tween.config = c) ∧
    (∀ tween ∈ t.tweens,
      t.propertyInterpolationCache.get2? tween.node tween.config = some tween.id) ∧
    ∀ node tween, tween ∈ (w.step t (.emitTreeExited node)).tweens ↔
      tween ∈ t.tweens ∧ tween.node ≠ node := by
  intro t
  have hs : t.Sound := sound_run w smooth events
  refine ⟨fun node c => ?_, fun tween htween => ?_, fun node => (emitTreeExited_spec hs node).2.1⟩
  · rw [hs.hasPropertyInterpolation_iff]
    constructor
    · intro hexists
      obtain ⟨tween, htween, hnode, hconfig⟩ := hexists
      refine ⟨tween, ⟨htween, hnode, hconfig⟩, fun other hother => ?_⟩
      exact hs.eq_of_config hother.1 htween (hother.2.1.trans hnode.symm)
        (hother.2.2.trans hconfig.symm)
    · intro hone
      obtain ⟨tween, hof, _⟩ := hone
      exact ⟨tween, hof⟩
  · exact (hs.cached _ _ _).2 ⟨tween, htween, rfl, rfl, rfl⟩

end TweenPeer

end Godaemon
