import Mathlib.Logic.Function.Basic
import Godaemon.Lib.Runs
import Godaemon.Replication.Data
import Godaemon.Util.Variant

namespace Godaemon
set_option autoImplicit true

/-- The property is kept in the database. -/
def ReplicationPropertyConfig.getDatabase (c : ReplicationPropertyConfig) : Bool :=
  c.flags &&& 8 ≠ 0

/-- Where an object is stored. -/
structure Record where
  collection : String
  key : String
  deriving DecidableEq

/-- A call of `track_object`, with what the database will do for it: the values that it reads, if
the read does not suspend, and whether the write suspends. -/
structure TrackCall (O : Type) where
  object : O
  record : Record
  answer : Option (Dict String Variant)
  writeSuspends : Bool

/-- What a call that is past the barrier awaits. -/
inductive TrackPhase where
  | reading
  | writing
  deriving DecidableEq

/-- A write of an object's values, and whether the stored values had been applied to the object by
then. -/
structure DatabaseWrite (O : Type) where
  object : O
  record : Record
  values : Dict String Variant
  applied : Bool

structure DatabaseService (O : Type) where
  trackedObjects : Dict O Record
  trackLocked : Bool
  /-- The calls that await `_track_complete`, in the order in which they will be resumed. -/
  waiting : List (TrackCall O)
  /-- The calls past the barrier that are suspended. -/
  running : List (TrackCall O × TrackPhase)
  /-- The object that an autosave pass has reached. -/
  autosaving : Option O
  properties : O → String → Variant
  freed : List O
  /-- The objects that have the stored values of the record that they are tracked with. -/
  applied : List (O × Record)
  writes : List (DatabaseWrite O)
  /-- A call has passed the barrier while another one was past it. -/
  crowded : Bool
  /-- A call has entered an object that was tracked already. -/
  reentered : Bool

inductive DatabaseEvent (O : Type) where
  | trackObject (call : TrackCall O)
  | readDone (i : Nat) (values : Dict String Variant)
  | writeDone (i : Nat)
  | saveObject (object : O)
  | untrackObject (object : O)
  | free (object : O)
  | autosave
  | autosaveNext
  | setProperty (object : O) (name : String) (value : Variant)

/-- Objects and their scripts' replication. -/
structure DatabaseWorld (S O : Type) where
  data : ReplicationData S
  script : O → Option S

namespace DatabaseService

variable {S O : Type} [DecidableEq O] (w : DatabaseWorld S O) (s : DatabaseService O)

def start (properties : O → String → Variant) : DatabaseService O :=
  ⟨.empty, false, [], [], none, properties, [], [], [], false, false⟩

def getObjectDatabaseValues (object : O) : Dict String Variant :=
  .ofPairs ((((w.data.getAllScriptReplications (w.script object)).flatMap
    (fun sr => sr.propertyConfig)).filter (fun config => config.getDatabase)).map
      (fun config => (config.name, s.properties object config.name)))

def applyObjectDatabaseValues (object : O) (databaseValues : Dict String Variant) :
    DatabaseService O :=
  { s with
    properties := Function.update s.properties object
      (fun name => databaseValues.getD name (s.properties object name)) }

def saveObject (object : O) : DatabaseService O :=
  match s.trackedObjects.get? object with
  | none => s
  | some record => { s with
    writes := s.writes ++ [⟨object, record, s.getObjectDatabaseValues w object,
      decide ((object, record) ∈ s.applied)⟩] }

/-- The rest of a call once it has the stored values, and whether it emits `_track_complete`. -/
def afterRead (call : TrackCall O) (values : Dict String Variant) : Bool × DatabaseService O :=
  let s := s.applyObjectDatabaseValues call.object values
  let s := { s with
    applied := (call.object, call.record) :: s.applied }
  if call.object ∉ s.trackedObjects then (true, { s with
    trackLocked := false })
  else
    let s := s.saveObject w call.object
    if call.writeSuspends then (false, { s with
      running := s.running ++ [(call, .writing)] })
    else (true, { s with
      trackLocked := false })

/-- A call passes the barrier. On an object that has been freed it fails, and leaves the barrier
locked. -/
def enter (call : TrackCall O) : Bool × DatabaseService O :=
  let s := { s with
    trackLocked := true
    crowded := s.crowded || !s.running.isEmpty }
  if call.object ∈ s.freed then (false, s)
  else
    let s := { s with
      trackedObjects := s.trackedObjects.set call.object call.record
      applied := s.applied.filter (fun entry => entry ≠ (call.object, call.record))
      reentered := s.reentered || call.object ∈ s.trackedObjects }
    match call.answer with
    | none => (false, { s with
      running := s.running ++ [(call, .reading)] })
    | some values => s.afterRead w call values

/-- Resume calls one after the other. What they emit finds nobody waiting. -/
def resumeAll : List (TrackCall O) → DatabaseService O → DatabaseService O
  | [], s => s
  | call :: calls, s => resumeAll calls (s.enter w call).2

/-- The signal disconnects all that wait for it, and then resumes them. -/
def emitTrackComplete : DatabaseService O :=
  resumeAll w s.waiting { s with
    waiting := [] }

/-- Emit the signal if a call does so. -/
def settle (result : Bool × DatabaseService O) : DatabaseService O :=
  if result.1 then result.2.emitTrackComplete w else result.2

def trackObject (call : TrackCall O) : DatabaseService O :=
  if call.object ∈ s.trackedObjects then s
  else if s.trackLocked then { s with
    waiting := s.waiting ++ [call] }
  else settle w (s.enter w call)

/-- A suspended read ends. Applying the values to an object that has been freed fails. -/
def readDone (i : Nat) (values : Dict String Variant) : DatabaseService O :=
  match s.running[i]? with
  | some (call, .reading) =>
    let s := { s with
      running := s.running.eraseIdx i }
    if call.object ∈ s.freed then s else settle w (s.afterRead w call values)
  | _ => s

def writeDone (i : Nat) : DatabaseService O :=
  match s.running[i]? with
  | some (_, .writing) => settle w (true, { s with
    running := s.running.eraseIdx i
    trackLocked := false })
  | _ => s

def untrackObject (object : O) : DatabaseService O :=
  if object ∉ s.trackedObjects then s
  else
    let s := s.saveObject w object
    { s with trackedObjects := s.trackedObjects.erase object }

/-- The object after another one in the order of a pass, which ends where its object is no longer
tracked. -/
def nextTracked (object : O) : Option O :=
  ((s.trackedObjects.keys.dropWhile (fun key => key ≠ object)).drop 1).head?

/-- The object that an event saves before it does anything else. -/
def saves : DatabaseEvent O → Option O
  | .saveObject object => if object ∈ s.freed then none else some object
  | .untrackObject object => if object ∈ s.freed then none else some object
  | .free object => if object ∈ s.freed then none else some object
  | .autosave => if s.autosaving.isSome then none else s.trackedObjects.keys.head?
  | .autosaveNext => s.autosaving.bind s.nextTracked
  | _ => none

def step (s : DatabaseService O) (event : DatabaseEvent O) : DatabaseService O :=
  match event with
  | .trackObject call => if call.object ∈ s.freed then s else s.trackObject w call
  | .readDone i values => s.readDone w i values
  | .writeDone i => s.writeDone w i
  | .saveObject object => if object ∈ s.freed then s else s.saveObject w object
  | .untrackObject object => if object ∈ s.freed then s else s.untrackObject w object
  | .free object =>
    if object ∈ s.freed then s
    else { s.untrackObject w object with
      freed := object :: s.freed }
  | .autosave =>
    if s.autosaving.isSome then s
    else
      match s.trackedObjects.keys.head? with
      | none => s
      | some object => { s.saveObject w object with
        autosaving := some object }
  | .autosaveNext =>
    match s.autosaving with
    | none => s
    | some object =>
      match s.nextTracked object with
      | none => { s with autosaving := none }
      | some next => { s.saveObject w next with
        autosaving := some next }
  | .setProperty object name value => { s with
    properties := Function.update s.properties object
      (Function.update (s.properties object) name value) }

/-- The object is tracked, and does not have the stored values yet. -/
def Pending (object : O) : Prop :=
  ∃ record, s.trackedObjects.get? object = some record ∧ (object, record) ∉ s.applied

/-- Nothing has been written before the stored values were applied. -/
def WritesApplied : Prop := ∀ write ∈ s.writes, write.applied = true

/-- No object is saved while it is pending, and no read ends for an object that is pending with
another record. -/
def Spares : DatabaseEvent O → Prop
  | .readDone i _ => ∀ call, s.running[i]? = some (call, .reading) → call.object ∉ s.freed →
    ∀ record, s.trackedObjects.get? call.object = some record →
      record = call.record ∨ (call.object, record) ∈ s.applied
  | event => ∀ object, s.saves event = some object → ¬ s.Pending object

variable {w} {s : DatabaseService O} {call : TrackCall O} {object : O}

theorem writesApplied_saveObject :
    (s.saveObject w object).WritesApplied ↔ s.WritesApplied ∧ ¬ s.Pending object := by
  simp only [saveObject, Pending]
  cases s.trackedObjects.get? object with
  | none => simp [WritesApplied]
  | some record =>
    simp only [WritesApplied, List.forall_mem_append, List.forall_mem_singleton, decide_eq_true_eq,
      Option.some.injEq, exists_eq_left', not_not]

theorem writesApplied_afterRead {values : Dict String Variant} :
    (s.afterRead w call values).2.WritesApplied ↔ s.WritesApplied ∧
      ∀ record, s.trackedObjects.get? call.object = some record →
        record = call.record ∨ (call.object, record) ∈ s.applied := by
  obtain ⟨t, ht⟩ : ∃ t : DatabaseService O, t =
    { s.applyObjectDatabaseValues call.object values with
      applied := (call.object, call.record) :: s.applied } := ⟨_, rfl⟩
  have htracked : t.trackedObjects = s.trackedObjects := by rw [ht]; rfl
  have happlied : t.applied = (call.object, call.record) :: s.applied := by rw [ht]
  have hwrites : t.WritesApplied ↔ s.WritesApplied := by rw [ht]; rfl
  have hpending : ¬ t.Pending call.object ↔
      ∀ record, s.trackedObjects.get? call.object = some record →
        record = call.record ∨ (call.object, record) ∈ s.applied := by
    simp only [Pending, htracked, happlied, List.mem_cons, Prod.mk.injEq, true_and, not_exists,
      not_and, not_not]
  have hrun : s.afterRead w call values =
      if call.object ∉ t.trackedObjects then (true, { t with trackLocked := false })
      else if call.writeSuspends then (false, { t.saveObject w call.object with
        running := (t.saveObject w call.object).running ++ [(call, .writing)] })
      else (true, { t.saveObject w call.object with
        trackLocked := false }) := by
    rw [ht]
    rfl
  rw [hrun, ← hpending, ← hwrites]
  by_cases hmem : call.object ∈ t.trackedObjects
  · rw [if_neg (not_not_intro hmem)]
    split
    · exact writesApplied_saveObject
    · exact writesApplied_saveObject
  · rw [if_pos hmem]
    have hnone := (Dict.get?_eq_none_iff _).2 hmem
    simp only [Pending, hnone]
    simp [WritesApplied]

theorem writesApplied_enter : (s.enter w call).2.WritesApplied ↔ s.WritesApplied := by
  simp only [enter]
  split
  · rfl
  · cases call.answer with
    | none => rfl
    | some values =>
      refine writesApplied_afterRead.trans ?_
      apply and_iff_left
      intro record hrecord
      rw [Dict.get?_set_self] at hrecord
      exact .inl (Option.some.inj hrecord).symm

theorem writesApplied_resumeAll (calls : List (TrackCall O)) :
    (resumeAll w calls s).WritesApplied ↔ s.WritesApplied := by
  induction calls generalizing s with
  | nil => rfl
  | cons call calls ih => exact ih.trans writesApplied_enter

theorem writesApplied_settle {result : Bool × DatabaseService O} :
    (settle w result).WritesApplied ↔ result.2.WritesApplied := by
  rw [settle]
  split
  · exact writesApplied_resumeAll _
  · rfl

theorem writesApplied_untrackObject :
    (s.untrackObject w object).WritesApplied ↔ s.WritesApplied ∧ ¬ s.Pending object := by
  simp only [untrackObject]
  split
  · next hmem =>
    have hnone := (Dict.get?_eq_none_iff _).2 hmem
    simp [Pending, hnone]
  · exact writesApplied_saveObject

theorem writesApplied_readDone (i : Nat) (values : Dict String Variant) :
    (s.readDone w i values).WritesApplied ↔ s.WritesApplied ∧
      ∀ call, s.running[i]? = some (call, .reading) → call.object ∉ s.freed →
        ∀ record, s.trackedObjects.get? call.object = some record →
          record = call.record ∨ (call.object, record) ∈ s.applied := by
  simp only [readDone]
  split
  · next call hcall =>
    simp only [hcall, Option.some.injEq, Prod.mk.injEq, and_true, forall_eq']
    split
    · next hfreed => simp [hfreed, WritesApplied]
    · next hfreed =>
      simp only [hfreed, not_false_eq_true, forall_const]
      exact writesApplied_settle.trans writesApplied_afterRead
  · next hother =>
    refine (and_iff_left ?_).symm
    intro call hcall
    exact absurd hcall (hother call)

theorem step_writesApplied_iff (event : DatabaseEvent O) (h : s.WritesApplied) :
    (s.step w event).WritesApplied ↔ s.Spares event := by
  have hsave (o : O) : (s.saveObject w o).WritesApplied ↔ ¬ s.Pending o :=
    writesApplied_saveObject.trans (and_iff_right h)
  have huntrack (o : O) : (s.untrackObject w o).WritesApplied ↔ ¬ s.Pending o :=
    writesApplied_untrackObject.trans (and_iff_right h)
  cases event with
  | trackObject call =>
    refine iff_of_true ?_ (fun _ ho => by cases ho)
    simp only [step, trackObject]
    split
    · exact h
    · split
      · exact h
      · split
        · exact h
        · exact writesApplied_settle.2 (writesApplied_enter.2 h)
  | readDone i values => exact (writesApplied_readDone i values).trans (and_iff_right h)
  | writeDone i =>
    refine iff_of_true ?_ (fun _ ho => by cases ho)
    simp only [step, writeDone]
    split
    · exact writesApplied_settle.2 h
    · exact h
  | saveObject o =>
    simp only [step, Spares, saves]
    split
    · exact iff_of_true h (fun _ ho => by cases ho)
    · simpa only [Option.some.injEq, forall_eq'] using hsave o
  | untrackObject o =>
    simp only [step, Spares, saves]
    split
    · exact iff_of_true h (fun _ ho => by cases ho)
    · simpa only [Option.some.injEq, forall_eq'] using huntrack o
  | free o =>
    simp only [step, Spares, saves]
    split
    · exact iff_of_true h (fun _ ho => by cases ho)
    · simp only [Option.some.injEq, forall_eq']
      exact huntrack o
  | autosave =>
    simp only [step, Spares, saves]
    split
    · exact iff_of_true h (fun _ ho => by cases ho)
    · cases s.trackedObjects.keys.head? with
      | none => exact iff_of_true h (fun _ ho => by cases ho)
      | some o =>
        simp only [Option.some.injEq, forall_eq']
        exact hsave o
  | autosaveNext =>
    simp only [step, Spares, saves]
    cases s.autosaving with
    | none => exact iff_of_true h (fun _ ho => by cases ho)
    | some o =>
      simp only [Option.bind_some]
      cases s.nextTracked o with
      | none => exact iff_of_true h (fun _ ho => by cases ho)
      | some next =>
        simp only [Option.some.injEq, forall_eq']
        exact hsave next
  | setProperty o name value => exact iff_of_true h (fun _ ho => by cases ho)

/-- The runs in which nothing is written before the stored values are applied are those in which
no pending object is saved. -/
theorem no_save_before_load_iff (w : DatabaseWorld S O) (properties : O → String → Variant)
    (events : List (DatabaseEvent O)) :
    Runs.Always (step w) WritesApplied (start properties) events ↔
      Runs.Guarded (step w) Spares (start properties) events :=
  Runs.always_iff_guarded (I := fun _ => True) (fun _ _ _ _ _ => trivial)
    (fun _ event _ h => step_writesApplied_iff event h) trivial
    (fun _ hw => absurd hw List.not_mem_nil)

end DatabaseService

inductive Hero where
  | knight
  | mage
  | thief
  deriving DecidableEq

/-- The gold of a hero is kept in the database. -/
def heroWorld : DatabaseWorld Unit Hero where
  data := {
    scripts := .discrete
    scriptReplicationMap := fun _ =>
      some { propertyConfig := [{ instanceId := 0, name := "gold", flags := 8 }] } }
  script _ := some ()

def Hero.record (hero : Hero) : Record where
  collection := "heroes"
  key :=
    match hero with
    | .knight => "knight"
    | .mage => "mage"
    | .thief => "thief"

/-- A hero that starts without gold, in a database that takes its time to read. -/
def Hero.track (hero : Hero) : DatabaseEvent Hero :=
  .trackObject ⟨hero, hero.record, none, false⟩

namespace DatabaseService

/-- The knight is saved before its gold has been read. -/
theorem saved_before_load :
    ¬ Runs.Always (step heroWorld) WritesApplied (start (fun _ _ => .int 0))
      [Hero.knight.track, .autosave] := by
  intro h
  have hwrites : ((Runs.run (step heroWorld) (start (fun _ _ => .int 0))
      [Hero.knight.track, .autosave]).writes.map (fun write => write.applied)) = [false] := by
    decide +kernel
  have hmem : false ∈ (Runs.run (step heroWorld) (start (fun _ _ => .int 0))
      [Hero.knight.track, .autosave]).writes.map (fun write => write.applied) := by
    rw [hwrites]
    exact List.mem_singleton_self false
  obtain ⟨write, hwrite, hfalse⟩ := List.mem_map.1 hmem
  rw [h.last write hwrite] at hfalse
  cases hfalse

end DatabaseService

end Godaemon
