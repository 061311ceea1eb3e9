import Mathlib.Data.List.Basic
import Mathlib.Logic.Function.Basic
import Godaemon.Services.DatabaseService
import Godaemon.Services.TextDb

namespace Godaemon
set_option autoImplicit true

/-- A name of a file, which is not one of a directory or the directory above. -/
def FileName (name : String) : Prop := PlainName name ∧ name ≠ "." ∧ name ≠ ".."

instance (name : String) : Decidable (FileName name) := inferInstanceAs (Decidable (_ ∧ _))

def Record.Named (record : Record) : Prop := FileName record.collection ∧ FileName record.key

instance (record : Record) : Decidable record.Named := inferInstanceAs (Decidable (_ ∧ _))

def Record.pair (record : Record) : String × String := (record.collection, record.key)

/-- The values of an object, as they are written below its record. -/
def DatabaseWrite.call (write : DatabaseWrite O) : DbCall :=
  .write write.record.collection write.record.key write.values true true

namespace DatabaseWorld

/-- The database keeps the property of the object. -/
def Kept (w : DatabaseWorld S O) (object : O) (name : String) : Prop :=
  ∃ sr ∈ w.data.getAllScriptReplications (w.script object), ∃ config ∈ sr.propertyConfig,
    config.getDatabase = true ∧ config.name = name

theorem kept_congr {w : DatabaseWorld S O} {object object' : O}
    (h : w.script object = w.script object') (name : String) :
    w.Kept object name ↔ w.Kept object' name := by
  rw [Kept, Kept, h]

end DatabaseWorld

namespace DatabaseService

variable {S O : Type} [DecidableEq O] {w : DatabaseWorld S O} {s : DatabaseService O}
  {object : O}

omit [DecidableEq O] in
theorem mem_databaseValues (name : String) (value : Variant) :
    (name, value) ∈ (((w.data.getAllScriptReplications (w.script object)).flatMap
      (fun sr => sr.propertyConfig)).filter (fun config => config.getDatabase)).map
        (fun config => (config.name, s.properties object config.name)) ↔
      w.Kept object name ∧ value = s.properties object name := by
  simp only [List.mem_map, List.mem_filter, List.mem_flatMap, DatabaseWorld.Kept, Prod.mk.injEq]
  constructor
  · rintro ⟨config, ⟨⟨sr, hsr, hconfig⟩, hdatabase⟩, rfl, rfl⟩
    exact ⟨⟨sr, hsr, config, hconfig, hdatabase, rfl⟩, rfl⟩
  · rintro ⟨⟨sr, hsr, config, hconfig, hdatabase, rfl⟩, rfl⟩
    exact ⟨config, ⟨⟨sr, hsr, hconfig⟩, hdatabase⟩, rfl, rfl⟩

omit [DecidableEq O] in
theorem databaseValues_of_kept {name : String} (h : w.Kept object name) :
    (s.getObjectDatabaseValues w object).get? name = some (s.properties object name) := by
  have hmem : name ∈ s.getObjectDatabaseValues w object :=
    (Dict.mem_ofPairs _).2 ⟨_, (mem_databaseValues name _).2 ⟨h, rfl⟩⟩
  obtain ⟨value, hvalue⟩ := (Dict.mem_iff_get? _).1 hmem
  rw [hvalue, ((mem_databaseValues name value).1 (Dict.mem_of_get?_ofPairs _ hvalue)).2]

omit [DecidableEq O] in
theorem databaseValues_of_not_kept {name : String} (h : ¬ w.Kept object name) :
    (s.getObjectDatabaseValues w object).get? name = none := by
  rw [Dict.get?_eq_none_iff]
  intro hmem
  obtain ⟨value, hvalue⟩ := (Dict.mem_ofPairs _).1 hmem
  exact h ((mem_databaseValues name value).1 hvalue).1

/-- No call is past the barrier, and none waits before it. -/
structure Quiet (s : DatabaseService O) : Prop where
  unlocked : s.trackLocked = false
  waiting : s.waiting = []
  running : s.running = []

/-- What `save_object` writes. -/
def writeOf (w : DatabaseWorld S O) (s : DatabaseService O) (object : O) :
    Option (DatabaseWrite O) :=
  (s.trackedObjects.get? object).map fun record =>
    ⟨object, record, s.getObjectDatabaseValues w object, s.applied.contains (object, record)⟩

/-- A step leaves the service quiet, and writes at most the values of one object, under a record
that is tracked or about to be. -/
structure Effect (w : DatabaseWorld S O) (P : Record → Prop) (s s' : DatabaseService O)
    (new : Option (DatabaseWrite O)) : Prop where
  quiet : s'.Quiet
  writes : s'.writes = s.writes ++ new.toList
  record : ∀ write, new = some write → P write.record
  values : ∀ write, new = some write → write.values = s'.getObjectDatabaseValues w write.object
  tracked : ∀ o record, s'.trackedObjects.get? o = some record → P record

theorem saveObject_eq (w : DatabaseWorld S O) (s : DatabaseService O) (object : O) :
    s.saveObject w object = { s with
      writes := s.writes ++ (s.writeOf w object).toList } := by
  rw [saveObject, writeOf]
  cases s.trackedObjects.get? object with
  | none => simp
  | some record => simp

variable {P : Record → Prop}

theorem Effect.none (h : s.Quiet)
    (htracked : ∀ o record, s.trackedObjects.get? o = some record → P record) :
    Effect w P s s none :=
  ⟨h, (List.append_nil _).symm, fun _ hw => (by cases hw), fun _ hw => (by cases hw), htracked⟩

variable (w) (object) in
theorem effect_saveObject (h : s.Quiet)
    (htracked : ∀ o record, s.trackedObjects.get? o = some record → P record) :
    Effect w P s (s.saveObject w object) (s.writeOf w object) := by
  rw [saveObject_eq]
  have hwrite (write : DatabaseWrite O) (hw : s.writeOf w object = some write) :
      P write.record ∧ write.values = s.getObjectDatabaseValues w write.object := by
    rw [writeOf, Option.map_eq_some_iff] at hw
    obtain ⟨record, hrecord, rfl⟩ := hw
    exact ⟨htracked _ _ hrecord, rfl⟩
  exact ⟨⟨h.unlocked, h.waiting, h.running⟩, rfl, fun write hw => (hwrite write hw).1,
    fun write hw => (hwrite write hw).2, htracked⟩

variable (w) (object) in
theorem effect_untrackObject (h : s.Quiet)
    (htracked : ∀ o record, s.trackedObjects.get? o = some record → P record) :
    Effect w P s (s.untrackObject w object) (s.writeOf w object) := by
  rw [untrackObject]
  split
  · next hmem =>
    have hnone := (Dict.get?_eq_none_iff _).2 hmem
    rw [writeOf, hnone]
    exact .none h htracked
  · have hsave := effect_saveObject w object h htracked
    rw [saveObject_eq] at hsave ⊢
    refine ⟨⟨h.unlocked, h.waiting, h.running⟩, rfl, hsave.record, hsave.values, ?_⟩
    intro o record ho
    rw [Dict.get?_erase] at ho
    split at ho
    · cases ho
    · exact htracked o record ho

/-- The service as it is when a call has applied the values that the database had for it. -/
def tracking (s : DatabaseService O) (call : TrackCall O) (values : Dict String Variant) :
    DatabaseService O :=
  { s.applyObjectDatabaseValues call.object values with
    trackedObjects := s.trackedObjects.set call.object call.record
    applied := (call.object, call.record) ::
      s.applied.filter (fun entry => entry ≠ (call.object, call.record))
    crowded := s.crowded || !s.running.isEmpty
    reentered := s.reentered || call.object ∈ s.trackedObjects }

theorem trackObject_of_quiet {call : TrackCall O} {values : Dict String Variant} (h : s.Quiet)
    (hnew : call.object ∉ s.trackedObjects) (hfreed : call.object ∉ s.freed)
    (hanswer : call.answer = some values) (hwrite : call.writeSuspends = false) :
    s.step w (.trackObject call) = (s.tracking call values).saveObject w call.object := by
  have hin : call.object ∈ s.trackedObjects.set call.object call.record :=
    (Dict.mem_set _).2 (.inl rfl)
  simp only [step, if_neg hfreed, trackObject, if_neg hnew, h.unlocked, Bool.false_eq_true,
    ↓reduceIte, enter, hanswer, afterRead, applyObjectDatabaseValues, hin, not_true_eq_false,
    hwrite, settle, emitTrackComplete, saveObject_eq, h.waiting, resumeAll, tracking]
  rfl

theorem quiet_tracking (call : TrackCall O) (values : Dict String Variant) (h : s.Quiet) :
    (s.tracking call values).Quiet :=
  ⟨h.unlocked, h.waiting, h.running⟩

end DatabaseService

/-- The database service of a server, over the files that outlive it. -/
structure Persistence (O : Type) where
  service : DatabaseService O
  disk : DbRun

/-- What happens to a service whose database answers at once, and that its server is started
again, with other values in the objects. -/
inductive PersistenceEvent (O : Type) where
  | trackObject (object : O) (record : Record)
  | saveObject (object : O)
  | untrackObject (object : O)
  | free (object : O)
  | autosave
  | autosaveNext
  | setProperty (object : O) (name : String) (value : Variant)
  | restart (properties : O → String → Variant)

namespace Persistence

variable {S O : Type} [DecidableEq O] (w : DatabaseWorld S O) (db : TextDb)

def start (properties : O → String → Variant) : Persistence O := ⟨.start properties, .start⟩

/-- The service after an event; a call of `track_object` reads the file of its record. -/
def nextService (s : Persistence O) : PersistenceEvent O → DatabaseService O
  | .trackObject object record => s.service.step w (.trackObject
      ⟨object, record, db.read record.collection record.key true s.disk.files, false⟩)
  | .saveObject object => s.service.step w (.saveObject object)
  | .untrackObject object => s.service.step w (.untrackObject object)
  | .free object => s.service.step w (.free object)
  | .autosave => s.service.step w .autosave
  | .autosaveNext => s.service.step w .autosaveNext
  | .setProperty object name value => s.service.step w (.setProperty object name value)
  | .restart properties => .start properties

/-- What the service hands to the database. -/
def written (s : Persistence O) (event : PersistenceEvent O) : List (DatabaseWrite O) :=
  (s.nextService w db event).writes.drop s.service.writes.length

def step (s : Persistence O) (event : PersistenceEvent O) : Persistence O :=
  ⟨s.nextService w db event,
    (s.written w db event).foldl (fun disk write => disk.step db write.call) s.disk⟩

/-- Records are named by files, and what is written can be read again. -/
structure Allowed (s : Persistence O) (event : PersistenceEvent O) : Prop where
  named : ∀ object record, event = .trackObject object record → record.Named
  stores : ∀ write ∈ s.written w db event, write.call.Stores db

/-- The service is quiet, all records have names of their own, and the files hold what was last
written under them. -/
structure Sound (s : Persistence O) : Prop where
  quiet : s.service.Quiet
  tracked : ∀ o record, s.service.trackedObjects.get? o = some record → record.Named
  holds : DbRun.Holds db s.disk
  writers : ∀ file pair, s.disk.writer file = some pair → FileName pair.1 ∧ FileName pair.2

variable {w db} {s : Persistence O} {event : PersistenceEvent O}

theorem sound_start (properties : O → String → Variant) : (start properties).Sound db :=
  ⟨⟨rfl, rfl, rfl⟩, fun _ _ h => (by cases h), DbRun.holds_start, fun _ _ h => (by cases h)⟩

theorem Sound.read (h : s.Sound db) {record : Record} (hrecord : record.Named) :
    db.read record.collection record.key true s.disk.files =
      some (s.disk.records record.pair) := by
  have hread : s.disk.ReadsRecord db (.read record.collection record.key true) ↔ _ :=
    DbRun.readsRecord_iff h.holds rfl
  apply hread.2
  intro pair hpair
  obtain ⟨hfile, _⟩ := h.holds.written _ pair hpair
  obtain ⟨hcollection, hkey⟩ := h.writers _ pair hpair
  obtain ⟨hc, hk⟩ := TextDb.file_inj_of_plain hcollection.1 hkey.1 hrecord.1.1 hrecord.2.1 hfile
  exact congrArg s.disk.records (Prod.ext hc hk)

theorem nextService_track (h : s.Sound db) {object : O} {record : Record} (hrecord : record.Named)
    (hnew : object ∉ s.service.trackedObjects) (hfreed : object ∉ s.service.freed) :
    s.nextService w db (.trackObject object record) =
      (s.service.tracking ⟨object, record, some (s.disk.records record.pair), false⟩
        (s.disk.records record.pair)).saveObject w object := by
  rw [nextService, h.read hrecord]
  exact DatabaseService.trackObject_of_quiet h.quiet hnew hfreed rfl rfl

theorem exists_effect (h : s.Sound db)
    (hnamed : ∀ object record, event = .trackObject object record → record.Named)
    (hrestart : ∀ properties, event ≠ .restart properties) :
    ∃ new, DatabaseService.Effect w Record.Named s.service (s.nextService w db event) new := by
  have hnone := DatabaseService.Effect.none (w := w) h.quiet h.tracked
  have hsave (o : O) := DatabaseService.effect_saveObject w o h.quiet h.tracked
  have huntrack (o : O) :=
    DatabaseService.effect_untrackObject w o h.quiet h.tracked
  cases event with
  | trackObject object record =>
    by_cases hin : object ∈ s.service.freed ∨ object ∈ s.service.trackedObjects
    · have hsame : s.nextService w db (.trackObject object record) = s.service := by
        simp only [nextService, DatabaseService.step, DatabaseService.trackObject]
        split
        · rfl
        · next hfreed => exact if_pos (hin.resolve_left hfreed)
      rw [hsame]
      exact ⟨none, hnone⟩
    · rw [not_or] at hin
      have hrecord := hnamed object record rfl
      rw [nextService_track h hrecord hin.2 hin.1]
      have htracked (o : O) (r : Record)
          (ho : (s.service.trackedObjects.set object record).get? o = some r) : r.Named := by
        rw [Dict.get?_set] at ho
        split at ho
        · exact Option.some.inj ho ▸ hrecord
        · exact h.tracked o r ho
      have heffect := DatabaseService.effect_saveObject w object
        (DatabaseService.quiet_tracking ⟨object, record,
          some (s.disk.records record.pair), false⟩ (s.disk.records record.pair) h.quiet) htracked
      exact ⟨_, heffect.quiet, heffect.writes, heffect.record, heffect.values, heffect.tracked⟩
  | saveObject object =>
    simp only [nextService, DatabaseService.step]
    split
    · exact ⟨none, hnone⟩
    · exact ⟨_, hsave object⟩
  | untrackObject object =>
    simp only [nextService, DatabaseService.step]
    split
    · exact ⟨none, hnone⟩
    · exact ⟨_, huntrack object⟩
  | free object =>
    simp only [nextService, DatabaseService.step]
    split
    · exact ⟨none, hnone⟩
    · have he := huntrack object
      exact ⟨_, ⟨he.quiet.1, he.quiet.2, he.quiet.3⟩, he.writes, he.record, he.values, he.tracked⟩
  | autosave =>
    simp only [nextService, DatabaseService.step]
    split
    · exact ⟨none, hnone⟩
    · split
      · exact ⟨none, hnone⟩
      · next object _ =>
        have he := hsave object
        exact ⟨_, ⟨he.quiet.1, he.quiet.2, he.quiet.3⟩, he.writes, he.record, he.values,
          he.tracked⟩
  | autosaveNext =>
    simp only [nextService, DatabaseService.step]
    split
    · exact ⟨none, hnone⟩
    · split
      · exact ⟨none, ⟨h.quiet.1, h.quiet.2, h.quiet.3⟩, hnone.writes, hnone.record, hnone.values,
          hnone.tracked⟩
      · next object _ =>
        have he := hsave object
        exact ⟨_, ⟨he.quiet.1, he.quiet.2, he.quiet.3⟩, he.writes, he.record, he.values,
          he.tracked⟩
  | setProperty object name value =>
    exact ⟨none, ⟨h.quiet.1, h.quiet.2, h.quiet.3⟩, hnone.writes, hnone.record,
      fun _ hw => (by cases hw), hnone.tracked⟩
  | restart properties => exact absurd rfl (hrestart properties)

theorem written_spec (h : s.Sound db) (ha : s.Allowed w db event) :
    ∃ new : Option (DatabaseWrite O), s.written w db event = new.toList ∧
      (s.step w db event).service.Quiet ∧
      (∀ write, new = some write → write.record.Named) ∧
      (∀ write, new = some write →
        write.values = (s.step w db event).service.getObjectDatabaseValues w write.object) ∧
      ∀ o record, (s.step w db event).service.trackedObjects.get? o = some record →
        record.Named := by
  by_cases hrestart : ∃ properties, event = .restart properties
  · obtain ⟨properties, rfl⟩ := hrestart
    exact ⟨none, List.drop_nil, ⟨rfl, rfl, rfl⟩, fun _ hw => (by cases hw),
      fun _ hw => (by cases hw), fun _ _ ho => (by cases ho)⟩
  · obtain ⟨new, he⟩ := exists_effect (w := w) h ha.named fun properties hp =>
      hrestart ⟨properties, hp⟩
    have hwritten : s.written w db event = new.toList := by
      rw [written, he.writes, List.drop_left]
    exact ⟨new, hwritten, he.quiet, he.record, he.values, he.tracked⟩

theorem Sound.step (s : Persistence O) (event : PersistenceEvent O) (h : s.Sound db)
    (ha : s.Allowed w db event) : (s.step w db event).Sound db := by
  obtain ⟨new, hwritten, hquiet, hrecord, _, htracked⟩ := written_spec h ha
  have hstores := ha.stores
  have hdisk : (s.step w db event).disk =
      new.toList.foldl (fun disk write => disk.step db write.call) s.disk :=
    congrArg (fun new => List.foldl _ s.disk new) hwritten
  rw [hwritten] at hstores
  cases new with
  | none => exact ⟨hquiet, htracked, hdisk ▸ h.holds, hdisk ▸ h.writers⟩
  | some write =>
    have hcall := hstores write (List.mem_singleton_self _)
    have haccepted : write.call.Accepted := ⟨rfl, rfl⟩
    refine ⟨hquiet, htracked, hdisk ▸ DbRun.holds_step h.holds haccepted hcall, ?_⟩
    intro file pair hpair
    rw [hdisk] at hpair
    simp only [Option.toList_some, List.foldl_cons, List.foldl_nil, DatabaseWrite.call,
      DbRun.step] at hpair
    by_cases hfile : file = db.file write.record.collection write.record.key
    · rw [hfile, Function.update_self] at hpair
      exact Option.some.inj hpair ▸ hrecord write rfl
    · rw [Function.update_of_ne hfile] at hpair
      exact h.writers file pair hpair

theorem Record.pair_inj {record record' : Record} (h : record.pair = record'.pair) :
    record = record' := by
  cases record
  cases record'
  cases h
  rfl

/-- The values that are handed to the database are what it has for their record. -/
theorem records_written (h : s.Sound db) (ha : s.Allowed w db event) {write : DatabaseWrite O}
    (hwrite : write ∈ s.written w db event) :
    (s.step w db event).disk.records write.record.pair =
      (s.step w db event).service.getObjectDatabaseValues w write.object := by
  obtain ⟨new, hwritten, _, _, hvalues, _⟩ := written_spec h ha
  rw [hwritten, Option.mem_toList] at hwrite
  cases hwrite
  rw [← hvalues write rfl, Persistence.step, hwritten]
  exact Function.update_self ..

theorem records_kept {record : Record}
    (hother : ∀ write ∈ s.written w db event, write.record ≠ record) :
    (s.step w db event).disk.records record.pair = s.disk.records record.pair := by
  have hfold (writes : List (DatabaseWrite O)) (hw : ∀ write ∈ writes, write.record ≠ record)
      (disk : DbRun) : (writes.foldl (fun disk write => disk.step db write.call) disk).records
        record.pair = disk.records record.pair := by
    induction writes generalizing disk with
    | nil => rfl
    | cons write writes ih =>
      rw [List.forall_mem_cons] at hw
      rw [List.foldl_cons, ih hw.2]
      exact Function.update_of_ne (fun he => hw.1 (Record.pair_inj he).symm) ..
  exact hfold _ hother s.disk

theorem records_kept_run {record : Record} (events : List (PersistenceEvent O))
    (hother : Runs.Guarded (step w db)
      (fun s e => ∀ write ∈ s.written w db e, write.record ≠ record) s events) :
    (Runs.run (step w db) s events).disk.records record.pair = s.disk.records record.pair := by
  induction events generalizing s with
  | nil => rfl
  | cons event events ih => exact (ih hother.2).trans (records_kept hother.1)

theorem properties_track (h : s.Sound db) {object : O} {record : Record} (hrecord : record.Named)
    (hnew : object ∉ s.service.trackedObjects) (hfreed : object ∉ s.service.freed)
    (name : String) :
    (s.step w db (.trackObject object record)).service.properties object name =
      (s.disk.records record.pair).getD name (s.service.properties object name) := by
  rw [Persistence.step, nextService_track h hrecord hnew hfreed, DatabaseService.saveObject_eq]
  simp only [DatabaseService.tracking, DatabaseService.applyObjectDatabaseValues,
    Function.update_self]

/-- What the service saved last under a record, an object gets that is tracked with it later,
also when the server has been started again since. -/
theorem saved_restored (w : DatabaseWorld S O) (db : TextDb) (properties : O → String → Variant)
    {before after : List (PersistenceEvent O)} {saved later : Persistence O}
    {write : DatabaseWrite O} {object : O}
    (hallowed : Runs.Guarded (step w db) (Allowed w db) (start properties)
      (before ++ event :: after))
    (hsaved : saved = Runs.run (step w db) (start properties) (before ++ [event]))
    (hwrite : write ∈ (Runs.run (step w db) (start properties) before).written w db event)
    (hlater : later = Runs.run (step w db) saved after)
    (hlast : Runs.Guarded (step w db)
      (fun s e => ∀ write' ∈ s.written w db e, write'.record ≠ write.record) saved after)
    (hnew : object ∉ later.service.trackedObjects) (hfreed : object ∉ later.service.freed)
    (hscript : w.script object = w.script write.object) :
    (∀ name, w.Kept object name →
      (later.step w db (.trackObject object write.record)).service.properties object name =
        saved.service.properties write.object name) ∧
      ∀ name, ¬ w.Kept object name →
        (later.step w db (.trackObject object write.record)).service.properties object name =
          later.service.properties object name := by
  have hsplit := Runs.guarded_append.1 hallowed
  have hbefore := (Runs.always_of_guarded Sound.step (sound_start properties) hsplit.1).last
  obtain ⟨hevent, hafter⟩ := hsplit.2
  have hsound := Sound.step _ event hbefore hevent
  have hsaved' : saved = (Runs.run (step w db) (start properties) before).step w db event := by
    rw [hsaved, Runs.run_append, Runs.run_cons, Runs.run_nil]
  rw [← hsaved'] at hsound hafter
  have hsoundLater : later.Sound db :=
    hlater ▸ (Runs.always_of_guarded Sound.step hsound hafter).last
  have hnamed : write.record.Named := by
    obtain ⟨new, hwritten, _, hrecord, _⟩ := written_spec hbefore hevent
    rw [hwritten, Option.mem_toList] at hwrite
    exact hrecord write hwrite
  have hrecords : later.disk.records write.record.pair =
      saved.service.getObjectDatabaseValues w write.object := by
    rw [hlater, records_kept_run after hlast, hsaved']
    exact records_written hbefore hevent hwrite
  have htrack := properties_track (w := w) hsoundLater hnamed hnew hfreed
  have hkept := DatabaseWorld.kept_congr (w := w) hscript
  apply And.intro
  · intro name hname
    rw [htrack, hrecords]
    exact Dict.getD_of_get? _ (DatabaseService.databaseValues_of_kept ((hkept name).1 hname))
  · intro name hname
    rw [htrack, hrecords, Dict.getD,
      DatabaseService.databaseValues_of_not_kept (fun h => hname ((hkept name).2 h))]
    rfl

end Persistence

def goldOf (gold : Int) : Properties := .ofPairs [("gold", .int gold)]

namespace Persistence

def poorHeroes : Persistence Hero := start fun _ _ => .int 0

def knightEarns : List (PersistenceEvent Hero) :=
  [.trackObject .knight Hero.knight.record, .setProperty .knight "gold" (.int 7)]

/-- The server is started again, and the mage comes before the knight does. -/
def mageFirst : List (PersistenceEvent Hero) :=
  [.restart fun _ _ => .int 0, .trackObject .mage Hero.mage.record]

theorem goldOf_stores : (∀ gold ∈ [0, 7], heroDb.bytesToVar (heroDb.varToBytes (goldOf gold)) =
    goldOf gold) ∧ ∀ gold ∈ [0, 7], heroDb.varToBytes (goldOf gold) ≠ [] := by
  simp only [List.forall_mem_cons, List.not_mem_nil, false_implies, implies_true, and_true]
  exact ⟨⟨rfl, rfl⟩, by decide, by decide⟩

theorem heroes_allowed : Runs.Guarded (step heroWorld heroDb) (Allowed heroWorld heroDb)
    poorHeroes (knightEarns ++ .untrackObject .knight :: mageFirst) := by
  have hnone {s : Persistence Hero} {event : PersistenceEvent Hero}
      (h : s.written heroWorld heroDb event = []) (write : DatabaseWrite Hero)
      (hwrite : write ∈ s.written heroWorld heroDb event) : write.call.Stores heroDb := by
    rw [h] at hwrite
    cases hwrite
  have hone {s : Persistence Hero} {event : PersistenceEvent Hero} (hero : Hero) (gold : Int)
      (h : s.written heroWorld heroDb event = [⟨hero, hero.record, goldOf gold, true⟩])
      (hgold : gold ∈ [0, 7]) (write : DatabaseWrite Hero)
      (hwrite : write ∈ s.written heroWorld heroDb event) : write.call.Stores heroDb := by
    rw [h] at hwrite
    rw [List.mem_singleton.1 hwrite]
    exact ⟨goldOf_stores.1 gold hgold, goldOf_stores.2 gold hgold⟩
  have hknight : Hero.knight.record.Named := by decide
  have hmage : Hero.mage.record.Named := by decide
  refine ⟨⟨?_, hone .knight 0 rfl (by decide)⟩, ⟨fun _ _ h => (by cases h), hnone rfl⟩,
    ⟨fun _ _ h => (by cases h), hone .knight 7 rfl (by decide)⟩,
    ⟨fun _ _ h => (by cases h), hnone rfl⟩, ⟨?_, hone .mage 0 rfl (by decide)⟩, trivial⟩
  · intro object record h
    cases h
    exact hknight
  · intro object record h
    cases h
    exact hmage

/-- The knight that comes back has the gold that it had when it left. -/
theorem saved_restored_knight :
    (Runs.run (step heroWorld heroDb) poorHeroes
      (knightEarns ++ .untrackObject .knight :: mageFirst ++
        [.trackObject .knight Hero.knight.record])).service.properties .knight "gold" =
          .int 7 := by
  have hother : Runs.Guarded (step heroWorld heroDb)
      (fun s e => ∀ write ∈ s.written heroWorld heroDb e, write.record ≠ Hero.knight.record)
      (Runs.run (step heroWorld heroDb) poorHeroes (knightEarns ++ [.untrackObject .knight]))
      mageFirst := by
    refine ⟨fun write hwrite => ?_, fun write hwrite => ?_, trivial⟩
    · cases hwrite
    · rw [List.mem_singleton.1 hwrite]
      decide
  have hwrite : ⟨.knight, Hero.knight.record, goldOf 7, true⟩ ∈
      (Runs.run (step heroWorld heroDb) poorHeroes knightEarns).written heroWorld heroDb
        (.untrackObject .knight) := List.mem_singleton_self _
  have hnew : .knight ∉ (Runs.run (step heroWorld heroDb) (Runs.run (step heroWorld heroDb)
      poorHeroes (knightEarns ++ [.untrackObject .knight])) mageFirst).service.trackedObjects := by
    decide +kernel
  have h := saved_restored heroWorld heroDb (fun _ _ => .int 0) heroes_allowed rfl hwrite rfl
    hother hnew (by decide +kernel) rfl
  exact h.1 "gold" ⟨_, List.mem_singleton_self _, _, List.mem_singleton_self _, rfl, rfl⟩

end Persistence

end Godaemon
