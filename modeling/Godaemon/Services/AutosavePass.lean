import Godaemon.Lib.Cursor
import Godaemon.Services.DatabaseService

namespace Godaemon
set_option autoImplicit true

/-- What can happen while an autosave pass awaits, and that it goes on. -/
inductive PassEvent (O : Type) where
  | trackObject (call : TrackCall O)
  | readDone (i : Nat) (values : Dict String Variant)
  | writeDone (i : Nat)
  | untrackObject (object : O)
  | free (object : O)
  | setProperty (object : O) (name : String) (value : Variant)
  | next

def PassEvent.event : PassEvent O → DatabaseEvent O
  | .trackObject call => .trackObject call
  | .readDone i values => .readDone i values
  | .writeDone i => .writeDone i
  | .untrackObject object => .untrackObject object
  | .free object => .free object
  | .setProperty object name value => .setProperty object name value
  | .next => .autosaveNext

/-- A pass, with the objects that have been tracked since it began, and those that it has saved. -/
structure AutosavePass (O : Type) where
  service : DatabaseService O
  kept : List O
  saved : List O

variable {S O : Type} [DecidableEq O] {w : DatabaseWorld S O}

namespace DatabaseService

variable (s : DatabaseService O)

/-- The objects that a pass has not reached yet. -/
def later : List O := s.autosaving.elim [] fun object => Cursor.after object s.trackedObjects.keys

/-- The object that an event tries to save. A call that passes the barrier meanwhile saves what it
has just tracked. -/
def tries : PassEvent O → Option O
  | .readDone i _ =>
    match s.running[i]? with
    | some (call, .reading) => if call.object ∈ s.freed then none else some call.object
    | _ => none
  | .untrackObject object =>
    if object ∈ s.freed ∨ object ∉ s.trackedObjects then none else some object
  | .free object =>
    if object ∈ s.freed ∨ object ∉ s.trackedObjects then none else some object
  | .next => s.later.head?
  | _ => none

/-- The objects whose values have been written. -/
def written : List O := s.writes.map DatabaseWrite.object

/-- The event takes an object out of the tracked ones. -/
def Removes (object : O) : PassEvent O → Prop
  | .untrackObject o => o = object ∧ o ∉ s.freed
  | .free o => o = object ∧ o ∉ s.freed
  | _ => False

/-- A step tracks more objects at most, and the pass stays where it is. -/
structure Grows (s s' : DatabaseService O) : Prop where
  keys : ∃ new, s'.trackedObjects.keys = s.trackedObjects.keys ++ new
  autosaving : s'.autosaving = s.autosaving
  written : s.written <+: s'.written

variable {s} {s' s'' : DatabaseService O}

omit [DecidableEq O] in
theorem Grows.of_eq (h : s'.trackedObjects = s.trackedObjects) (ha : s'.autosaving = s.autosaving)
    (hw : s'.writes = s.writes) : Grows s s' := by
  refine ⟨⟨[], by rw [h, List.append_nil]⟩, ha, ?_⟩
  have hwritten : s'.written = s.written := congrArg (List.map DatabaseWrite.object) hw
  exact hwritten ▸ List.prefix_refl _

omit [DecidableEq O] in
theorem Grows.refl (s : DatabaseService O) : Grows s s := .of_eq rfl rfl rfl

omit [DecidableEq O] in
theorem Grows.trans (h : Grows s s') (h' : Grows s' s'') : Grows s s'' := by
  obtain ⟨new, hnew⟩ := h.keys
  obtain ⟨new', hnew'⟩ := h'.keys
  exact ⟨⟨new ++ new', by rw [hnew', hnew, List.append_assoc]⟩, h'.autosaving.trans h.autosaving,
    h.written.trans h'.written⟩

theorem trackedObjects_saveObject (s : DatabaseService O) (object : O) :
    (s.saveObject w object).trackedObjects = s.trackedObjects := by
  unfold saveObject
  split
  · rfl
  · rfl

theorem autosaving_saveObject (s : DatabaseService O) (object : O) :
    (s.saveObject w object).autosaving = s.autosaving := by
  unfold saveObject
  split
  · rfl
  · rfl

theorem saveObject_written (h : object ∈ s.trackedObjects) :
    (s.saveObject w object).written = s.written ++ [object] := by
  obtain ⟨record, hrecord⟩ := (Dict.mem_iff_get? _).1 h
  rw [saveObject, hrecord, written, List.map_append]
  rfl

theorem grows_saveObject (s : DatabaseService O) (object : O) :
    Grows s (s.saveObject w object) := by
  unfold saveObject
  split
  · exact .refl _
  · refine ⟨⟨[], (List.append_nil _).symm⟩, rfl, ?_⟩
    rw [written, written, List.map_append]
    exact List.prefix_append _ _

theorem grows_afterRead (s : DatabaseService O) (call : TrackCall O)
    (values : Dict String Variant) : Grows s (s.afterRead w call values).2 := by
  have hstart : Grows s { s.applyObjectDatabaseValues call.object values with
      applied := (call.object, call.record) :: s.applied } := .of_eq rfl rfl rfl
  unfold afterRead
  simp only
  split
  · exact .of_eq rfl rfl rfl
  · split
    · exact hstart.trans ((grows_saveObject _ _).trans (.of_eq rfl rfl rfl))
    · exact hstart.trans ((grows_saveObject _ _).trans (.of_eq rfl rfl rfl))

theorem afterRead_written {call : TrackCall O} (values : Dict String Variant)
    (h : call.object ∈ s.trackedObjects) :
    (s.afterRead w call values).2.written = s.written ++ [call.object] := by
  rw [afterRead]
  simp only [applyObjectDatabaseValues, h, not_true_eq_false, ↓reduceIte]
  split
  · exact saveObject_written h
  · exact saveObject_written h

theorem grows_enter (s : DatabaseService O) (call : TrackCall O) :
    Grows s (s.enter w call).2 := by
  have hset : ∃ new, (s.trackedObjects.set call.object call.record).keys =
      s.trackedObjects.keys ++ new := by
    rw [Dict.keys_set]
    split
    · exact ⟨[], (List.append_nil _).symm⟩
    · exact ⟨[call.object], rfl⟩
  unfold enter
  simp only
  split
  · exact .of_eq rfl rfl rfl
  · split
    · exact ⟨hset, rfl, List.prefix_refl _⟩
    · refine Grows.trans ?_ (grows_afterRead _ call _)
      exact ⟨hset, rfl, List.prefix_refl _⟩

theorem grows_settle {result : Bool × DatabaseService O} (h : Grows s result.2) :
    Grows s (settle w result) := by
  have hresume (calls : List (TrackCall O)) (t : DatabaseService O) :
      Grows t (resumeAll w calls t) := by
    induction calls generalizing t with
    | nil => exact .refl _
    | cons call calls ih => exact (grows_enter t call).trans (ih _)
  unfold settle
  split
  · have hstart : Grows result.2 { result.2 with waiting := [] } := .of_eq rfl rfl rfl
    exact h.trans (hstart.trans (hresume _ _))
  · exact h

theorem grows_readDone (s : DatabaseService O) (i : Nat) (values : Dict String Variant) :
    Grows s (s.readDone w i values) := by
  unfold readDone
  split
  · next call _ =>
    simp only
    have hstart : Grows s { s with running := s.running.eraseIdx i } := .of_eq rfl rfl rfl
    split
    · exact hstart
    · exact grows_settle (hstart.trans (grows_afterRead _ call values))
  · exact .of_eq rfl rfl rfl

theorem grows_writeDone (s : DatabaseService O) (i : Nat) : Grows s (s.writeDone w i) := by
  unfold writeDone
  split
  · exact grows_settle (.of_eq rfl rfl rfl)
  · exact .refl _

theorem grows_trackObject (s : DatabaseService O) (call : TrackCall O) :
    Grows s (s.step w (.trackObject call)) := by
  simp only [step, trackObject]
  split
  · exact .refl _
  · split
    · exact .refl _
    · split
      · exact .of_eq rfl rfl rfl
      · exact grows_settle (grows_enter s call)

theorem untrackObject_keys (s : DatabaseService O) (object : O) :
    (s.untrackObject w object).autosaving = s.autosaving ∧
      (s.untrackObject w object).trackedObjects.keys =
        s.trackedObjects.keys.filter (fun key => key ≠ object) ∧
      s.written <+: (s.untrackObject w object).written := by
  unfold untrackObject
  split
  · next hmem =>
    refine ⟨rfl, (List.filter_eq_self.2 fun key hkey => ?_).symm, List.prefix_refl _⟩
    rw [decide_eq_true_eq]
    intro he
    exact hmem (he ▸ hkey)
  · simp only [autosaving_saveObject, trackedObjects_saveObject, Dict.keys_erase, true_and]
    exact (grows_saveObject s object).written

/-- What stays tracked keeps its place, and what is tracked anew comes after it. -/
structure Edits (s s' : DatabaseService O) (removes : O → Prop) : Prop where
  keys : ∃ (stays : O → Bool) (new : List O),
    s'.trackedObjects.keys = s.trackedObjects.keys.filter stays ++ new ∧
      (∀ c, stays c = true ↔ ¬ removes c) ∧ ∀ c ∈ new, c ∉ s.trackedObjects
  autosaving : s'.autosaving = s.autosaving
  written : s.written <+: s'.written

omit [DecidableEq O] in
theorem Grows.edits (h : Grows s s') (hno : ∀ c, ¬ removes c) : Edits s s' removes := by
  obtain ⟨new, hnew⟩ := h.keys
  have hnodup := s'.trackedObjects.nodup_keys
  rw [hnew] at hnodup
  refine ⟨⟨fun _ => true, new, ?_, fun c => iff_of_true rfl (hno c), fun c hc hmem => ?_⟩,
    h.autosaving, h.written⟩
  · rw [hnew, List.filter_true]
  · exact List.disjoint_of_nodup_append hnodup hmem hc

theorem edits_step (s : DatabaseService O) (e : PassEvent O) (he : e ≠ .next) :
    Edits s (s.step w e.event) (fun c => s.Removes c e) := by
  have huntrack (o : O) (hfreed : o ∉ s.freed) (s' : DatabaseService O)
      (hkeys : s'.trackedObjects = (s.untrackObject w o).trackedObjects)
      (ha : s'.autosaving = (s.untrackObject w o).autosaving)
      (hw : s'.written = (s.untrackObject w o).written) :
      Edits s s' (fun c => o = c ∧ o ∉ s.freed) := by
    obtain ⟨hsame, hfilter, hwritten⟩ := s.untrackObject_keys (w := w) o
    refine ⟨⟨fun key => decide (key ≠ o), [], ?_, fun c => ?_, fun c hc => by cases hc⟩,
      ha.trans hsame, hw ▸ hwritten⟩
    · rw [hkeys, hfilter, List.append_nil]
    · rw [decide_eq_true_eq, ne_comm, and_iff_left hfreed]
  cases e with
  | trackObject call => exact (grows_trackObject s call).edits (fun _ h => h)
  | readDone i values => exact (grows_readDone s i values).edits (fun _ h => h)
  | writeDone i => exact (grows_writeDone s i).edits (fun _ h => h)
  | untrackObject o =>
    simp only [PassEvent.event, step, Removes]
    split
    · next hfreed => exact (Grows.refl s).edits (fun _ h => h.2 hfreed)
    · next hfreed => exact huntrack o hfreed _ rfl rfl rfl
  | free o =>
    simp only [PassEvent.event, step, Removes]
    split
    · next hfreed => exact (Grows.refl s).edits (fun _ h => h.2 hfreed)
    · next hfreed => exact huntrack o hfreed _ rfl rfl rfl
  | setProperty o name value => exact Grows.edits (.of_eq rfl rfl rfl) (fun _ h => h)
  | next => exact absurd rfl he

/-- What stays tracked comes later as before, unless the pass is at an object that goes. -/
theorem Edits.mem_later_iff {removes : O → Prop} (h : Edits s s' removes)
    (hb : b ∈ s.trackedObjects) (hb' : b ∈ s'.trackedObjects) : b ∈ s'.later ↔
      b ∈ s.later ∧ ∀ c, s.autosaving = some c → ¬ removes c := by
  obtain ⟨stays, new, hkeys, hstays, hnew⟩ := h.keys
  rw [later, later, h.autosaving]
  cases hcursor : s.autosaving with
  | none => simp
  | some c =>
    have hnodup := s'.trackedObjects.nodup_keys
    rw [hkeys] at hnodup
    have hfilter : b ∈ s.trackedObjects.keys.filter stays := by
      rw [← Dict.mem_keys, hkeys] at hb'
      exact (List.mem_append.1 hb').resolve_right (fun hmem => hnew b hmem hb)
    simp only [Option.elim_some, hkeys, Option.some.injEq, forall_eq']
    rw [Cursor.mem_after_edit hnodup s.trackedObjects.nodup_keys hfilter, hstays, and_comm]

/-- The pass goes on to the next object and saves it, or ends. -/
theorem step_next (s : DatabaseService O) :
    (s.step w (PassEvent.event .next)).trackedObjects = s.trackedObjects ∧
      (s.step w (PassEvent.event .next)).autosaving = s.later.head? ∧
      (s.step w (PassEvent.event .next)).later = s.later.tail ∧
      (s.step w (PassEvent.event .next)).written = s.written ++ s.later.head?.toList := by
  cases hcursor : s.autosaving with
  | none =>
    have hlater : s.later = [] := by
      rw [later, hcursor]
      rfl
    simp only [PassEvent.event, step, hcursor, hlater]
    exact ⟨trivial, rfl, rfl, (List.append_nil _).symm⟩
  | some object =>
    have hlater : s.later = Cursor.after object s.trackedObjects.keys := by
      rw [later, hcursor]
      rfl
    have hnext : s.nextTracked object = s.later.head? := by
      rw [hlater]
      rfl
    simp only [PassEvent.event, step, hcursor, hnext]
    cases hrest : s.later with
    | nil => exact ⟨rfl, rfl, rfl, (List.append_nil _).symm⟩
    | cons next rest =>
      rw [hlater] at hrest
      refine ⟨trackedObjects_saveObject _ _, rfl, ?_, ?_⟩
      · simp only [later, trackedObjects_saveObject, List.tail_cons]
        exact Cursor.after_of_after_eq_cons s.trackedObjects.nodup_keys hrest
      · apply saveObject_written
        exact (Dict.mem_keys _).1 (Cursor.mem_of_mem_after (hrest ▸ List.mem_cons_self))

/-- What an event tries to save is written first of all, if it is tracked. -/
theorem tries_written {e : PassEvent O} (h : s.tries e = some object)
    (ht : object ∈ s.trackedObjects) : s.written ++ [object] <+: (s.step w e.event).written := by
  have huntrack (o : O)
      (ho : (if o ∈ s.freed ∨ o ∉ s.trackedObjects then none else some o) = some object) :
      o ∉ s.freed ∧ (s.untrackObject w o).written = s.written ++ [object] := by
    split at ho
    · cases ho
    · next hno =>
      cases ho
      refine ⟨fun hfreed => hno (.inl hfreed), ?_⟩
      rw [untrackObject, if_neg (not_not_intro ht)]
      exact saveObject_written ht
  cases e with
  | trackObject call => cases h
  | readDone i values =>
    rw [tries] at h
    split at h
    · next call hcall =>
      split at h
      · cases h
      · next hfreed =>
        cases h
        simp only [PassEvent.event, step, readDone, hcall, if_neg hfreed]
        let t := { s with running := s.running.eraseIdx i }
        have hread : (t.afterRead w call values).2.written = s.written ++ [call.object] :=
          afterRead_written values ht
        rw [← hread]
        exact (grows_settle (Grows.refl _)).written
    · cases h
  | writeDone i => cases h
  | untrackObject o =>
    obtain ⟨hfreed, hwritten⟩ := huntrack o h
    simp only [PassEvent.event, step, if_neg hfreed]
    exact hwritten ▸ List.prefix_refl _
  | free o =>
    obtain ⟨hfreed, hwritten⟩ := huntrack o h
    simp only [PassEvent.event, step, if_neg hfreed]
    exact hwritten ▸ List.prefix_refl _
  | setProperty o name value => cases h
  | next =>
    have hhead : s.later.head? = some object := h
    have hwritten := (step_next (w := w) s).2.2.2
    rw [hhead] at hwritten
    exact hwritten ▸ List.prefix_refl _

end DatabaseService

namespace AutosavePass

/-- A pass begins, and saves the first of the tracked objects. -/
def start (w : DatabaseWorld S O) (s : DatabaseService O) : AutosavePass O :=
  ⟨s.step w .autosave, s.trackedObjects.keys, s.trackedObjects.keys.head?.toList⟩

def step (w : DatabaseWorld S O) (p : AutosavePass O) (e : PassEvent O) : AutosavePass O :=
  let service := p.service.step w e.event
  { service := service
    kept := p.kept.filter (fun object => object ∈ service.trackedObjects)
    saved :=
      match e with
      | .next => p.saved ++ p.service.later.head?.toList
      | _ => p.saved }

/-- The pass ends with the last of the events. -/
def Ends (w : DatabaseWorld S O) : AutosavePass O → List (PassEvent O) → Prop
  | p, [] => p.service.autosaving = none
  | p, e :: events => p.service.autosaving ≠ none ∧ Ends w (p.step w e) events

/-- An object that an event tries to save is tracked. -/
def TriesTracked (p : AutosavePass O) (e : PassEvent O) : Prop :=
  ∀ object, p.service.tries e = some object → object ∈ p.service.trackedObjects

/-- The event does not take the object that the pass is at out of the tracked ones, or another one
does not come later. -/
def Spares (object : O) (p : AutosavePass O) (e : PassEvent O) : Prop :=
  ∀ c, p.service.autosaving = some c → p.service.Removes c e → object ∉ p.service.later

/-- If the read of a call ends, its object, not freed, is still tracked. -/
def ReadsTracked (p : AutosavePass O) : PassEvent O → Prop
  | .readDone i _ => ∀ call, p.service.running[i]? = some (call, .reading) →
    call.object ∉ p.service.freed → call.object ∈ p.service.trackedObjects
  | _ => True

variable {p : AutosavePass O} {s : DatabaseService O} {b : O}

theorem mem_kept_of_run (events : List (PassEvent O)) (h : b ∈ (Runs.run (step w) p events).kept) :
    b ∈ p.kept := by
  induction events generalizing p with
  | nil => exact h
  | cons e events ih => exact (List.mem_filter.1 (ih h)).1

theorem later_spec (s : DatabaseService O) :
    s.later.Nodup ∧ ∀ c ∈ s.later, c ∈ s.trackedObjects := by
  unfold DatabaseService.later
  cases s.autosaving with
  | none => exact ⟨List.nodup_nil, fun c hc => by cases hc⟩
  | some c =>
    refine ⟨?_, fun d hd => Cursor.mem_of_mem_after hd⟩
    exact s.trackedObjects.nodup_keys.sublist
      ((List.drop_sublist 1 _).trans (List.dropWhile_sublist _))

theorem triesTracked_iff (p : AutosavePass O) (e : PassEvent O) :
    p.TriesTracked e ↔ p.ReadsTracked e := by
  have huntrack (o : O) : ∀ object,
      (if o ∈ p.service.freed ∨ o ∉ p.service.trackedObjects then none else some o) =
        some object → object ∈ p.service.trackedObjects := by
    intro object h
    split at h
    · cases h
    · next hno =>
      cases h
      exact Decidable.not_not.1 (not_or.1 hno).2
  cases e with
  | trackObject call => exact iff_of_true (fun _ h => by cases h) trivial
  | readDone i values =>
    simp only [TriesTracked, ReadsTracked, DatabaseService.tries]
    split
    · next call hcall =>
      simp only [hcall, Option.some.injEq, Prod.mk.injEq, and_true, forall_eq']
      split
      · next hfreed => exact iff_of_true (fun _ h => by cases h) (fun h => absurd hfreed h)
      · next hfreed => simp only [Option.some.injEq, forall_eq', hfreed, not_false_eq_true,
          forall_const]
    · next hother =>
      exact iff_of_true (fun _ h => by cases h) (fun call h => absurd h (hother call))
  | writeDone i => exact iff_of_true (fun _ h => by cases h) trivial
  | untrackObject o => exact iff_of_true (huntrack o) trivial
  | free o => exact iff_of_true (huntrack o) trivial
  | setProperty o name value => exact iff_of_true (fun _ h => by cases h) trivial
  | next =>
    refine iff_of_true (fun object h => ?_) trivial
    exact (later_spec p.service).2 object (List.mem_of_mem_head? h)

theorem kept_step (w : DatabaseWorld S O) (p : AutosavePass O) (e : PassEvent O) :
    ∀ object ∈ (p.step w e).kept, object ∈ (p.step w e).service.trackedObjects := by
  intro object h
  exact of_decide_eq_true (List.mem_filter.1 h).2

theorem step_of_ne_next (hkept : ∀ o ∈ p.kept, o ∈ p.service.trackedObjects) (he : e ≠ .next)
    (hb : b ∈ (p.step w e).kept) : (p.step w e).saved = p.saved ∧
      (b ∈ (p.step w e).service.later ↔ b ∈ p.service.later ∧
        ∀ c, p.service.autosaving = some c → ¬ p.service.Removes c e) := by
  have hbefore := hkept b (List.mem_filter.1 hb).1
  have hafter := kept_step w p e b hb
  refine ⟨?_, (DatabaseService.edits_step p.service e he).mem_later_iff hbefore hafter⟩
  cases e with
  | next => exact absurd rfl he
  | _ => rfl

theorem run_of_not_mem_later (events : List (PassEvent O))
    (hkept : ∀ o ∈ p.kept, o ∈ p.service.trackedObjects) (hlater : b ∉ p.service.later)
    (hb : b ∈ (Runs.run (step w) p events).kept) :
    (b ∈ (Runs.run (step w) p events).saved ↔ b ∈ p.saved) ∧
      Runs.Guarded (step w) (Spares b) p events := by
  induction events generalizing p with
  | nil => exact ⟨Iff.rfl, trivial⟩
  | cons e events ih =>
    have hstep : b ∉ (p.step w e).service.later ∧ (b ∈ (p.step w e).saved ↔ b ∈ p.saved) := by
      by_cases he : e = .next
      · subst he
        obtain ⟨_, _, htail, _⟩ := DatabaseService.step_next (w := w) p.service
        refine ⟨fun hmem => hlater (List.mem_of_mem_tail (htail ▸ hmem)), ?_⟩
        refine List.mem_append.trans (or_iff_left fun hmem => hlater ?_)
        exact List.mem_of_mem_head? (Option.mem_toList.1 hmem)
      · obtain ⟨hsaved, hiff⟩ := step_of_ne_next hkept he (mem_kept_of_run events hb)
        rw [hsaved]
        exact ⟨fun hmem => hlater (hiff.1 hmem).1, Iff.rfl⟩
    obtain ⟨hiff, hguarded⟩ := ih (kept_step w p e) hstep.1 hb
    exact ⟨hiff.trans hstep.2, fun _ _ _ => hlater, hguarded⟩

/-- An object that comes later is saved exactly if nobody takes away the object that the pass is
at: by induction on the events, up to the one that decides. -/
theorem run_of_mem_later (events : List (PassEvent O))
    (hkept : ∀ o ∈ p.kept, o ∈ p.service.trackedObjects) (hlater : b ∈ p.service.later)
    (hsaved : b ∉ p.saved) (hends : Ends w p events)
    (hb : b ∈ (Runs.run (step w) p events).kept) :
    b ∈ (Runs.run (step w) p events).saved ↔ Runs.Guarded (step w) (Spares b) p events := by
  induction events generalizing p with
  | nil =>
    rw [DatabaseService.later, hends] at hlater
    cases hlater
  | cons e events ih =>
    have hkept' := kept_step w p e
    by_cases he : e = .next
    · subst he
      obtain ⟨_, _, htail, _⟩ := DatabaseService.step_next (w := w) p.service
      have hspares : p.Spares b .next := fun _ _ h => h.elim
      have hnodup := (later_spec p.service).1
      have hsaved' : b ∈ (p.step w .next).saved ↔ p.service.later.head? = some b := by
        refine List.mem_append.trans ((or_iff_right hsaved).trans ?_)
        exact Option.mem_toList
      cases hrest : p.service.later with
      | nil =>
        rw [hrest] at hlater
        cases hlater
      | cons x rest =>
        rw [hrest] at hlater hnodup htail hsaved'
        obtain ⟨hx, _⟩ := List.nodup_cons.1 hnodup
        have hrest' : (p.step w .next).service.later = rest := htail
        by_cases hbx : b = x
        · subst hbx
          obtain ⟨hiff, hguarded⟩ := run_of_not_mem_later (p := p.step w .next) events hkept'
            (fun hmem => hx (hrest' ▸ hmem)) hb
          exact iff_of_true (hiff.2 (hsaved'.2 rfl)) ⟨hspares, hguarded⟩
        · have hmem : b ∈ (p.step w .next).service.later := by
            rw [hrest']
            exact (List.mem_cons.1 hlater).resolve_left hbx
          have hnot : b ∉ (p.step w .next).saved := by
            rw [hsaved', List.head?_cons, Option.some.injEq]
            exact fun h => hbx h.symm
          exact (ih hkept' hmem hnot hends.2 hb).trans (and_iff_right hspares).symm
    · obtain ⟨hsame, hiff⟩ := step_of_ne_next hkept he (mem_kept_of_run events hb)
      by_cases hremoves : ∀ c, p.service.autosaving = some c → ¬ p.service.Removes c e
      · have hspares : p.Spares b e := fun c hc h => absurd h (hremoves c hc)
        exact (ih hkept' (hiff.2 ⟨hlater, hremoves⟩) (hsame ▸ hsaved) hends.2 hb).trans
          (and_iff_right hspares).symm
      · have hpast := run_of_not_mem_later (p := p.step w e) events hkept'
          (fun hmem => hremoves (hiff.1 hmem).2) hb
        refine iff_of_false (fun h => hsaved (hsame ▸ hpast.1.1 h)) (fun h => ?_)
        exact hremoves fun c hc hc' => h.1 c hc hc' hlater

theorem start_spec (hs : s.autosaving = none) :
    (start w s).service.trackedObjects = s.trackedObjects ∧
      (start w s).service.later = s.trackedObjects.keys.tail ∧
      (start w s).service.written = s.written ++ (start w s).saved := by
  simp only [start, DatabaseService.step, hs, Option.isSome_none, Bool.false_eq_true, ↓reduceIte]
  cases hkeys : s.trackedObjects.keys with
  | nil =>
    simp only [List.head?_nil]
    refine ⟨trivial, ?_, (List.append_nil _).symm⟩
    rw [DatabaseService.later, hs]
    rfl
  | cons first rest =>
    refine ⟨DatabaseService.trackedObjects_saveObject _ _, ?_, ?_⟩
    · simp only [List.head?_cons, DatabaseService.later, Option.elim_some,
        DatabaseService.trackedObjects_saveObject, hkeys, List.tail_cons]
      exact Cursor.after_cons_self
    · apply DatabaseService.saveObject_written
      exact (Dict.mem_keys _).1 (hkeys ▸ List.mem_cons_self)

/-- What the pass has saved the service has written since the pass began. -/
theorem saved_written (hs : s.autosaving = none) (events : List (PassEvent O)) :
    ∃ new, (Runs.run (step w) (start w s) events).service.written = s.written ++ new ∧
      (Runs.run (step w) (start w s) events).saved.Sublist new := by
  have hstep (p : AutosavePass O) (e : PassEvent O)
      (hp : ∃ new, p.service.written = s.written ++ new ∧ p.saved.Sublist new) :
      ∃ new, (p.step w e).service.written = s.written ++ new ∧
        (p.step w e).saved.Sublist new := by
    obtain ⟨new, hnew, hsaved⟩ := hp
    by_cases he : e = .next
    · rw [he]
      obtain ⟨_, _, _, hwritten⟩ := DatabaseService.step_next (w := w) p.service
      refine ⟨new ++ p.service.later.head?.toList, ?_, hsaved.append (List.Sublist.refl _)⟩
      rw [← List.append_assoc, ← hnew]
      exact hwritten
    · obtain ⟨more, hmore⟩ := (DatabaseService.edits_step (w := w) p.service e he).written
      refine ⟨new ++ more, ?_, ?_⟩
      · rw [← List.append_assoc, ← hnew]
        exact hmore.symm
      · have hsame : (p.step w e).saved = p.saved := by
          cases e with
          | next => exact absurd rfl he
          | _ => rfl
        rw [hsame]
        exact hsaved.trans (List.sublist_append_left _ _)
  have hstart : ∃ new, (start w s).service.written = s.written ++ new ∧
      (start w s).saved.Sublist new := ⟨_, (start_spec hs).2.2, List.Sublist.refl _⟩
  exact (Runs.always_of_step hstep hstart events).last

/-- A pass saves every object that is tracked throughout, and nobody tries to save an object that
is not tracked, exactly if the object that the pass is at is not untracked or freed while another
one that stays tracked comes later, and no read ends for an object that has been untracked. -/
theorem autosave_saves_all_iff (w : DatabaseWorld S O) (s : DatabaseService O)
    (hs : s.autosaving = none) (events : List (PassEvent O)) (hends : Ends w (start w s) events) :
    ((∀ object ∈ (Runs.run (step w) (start w s) events).kept,
        object ∈ (Runs.run (step w) (start w s) events).saved) ∧
      Runs.Guarded (step w) TriesTracked (start w s) events) ↔
    Runs.Guarded (step w) (fun p e =>
      (∀ object ∈ (Runs.run (step w) (start w s) events).kept, p.Spares object e) ∧
        p.ReadsTracked e) (start w s) events := by
  rw [Runs.guarded_and, Runs.guarded_forall, Runs.guarded_congr triesTracked_iff]
  apply and_congr_left'
  apply forall₂_congr
  intro object hobject
  obtain ⟨htracked, hlater, _⟩ := start_spec (w := w) hs
  have hkept : ∀ o ∈ (start w s).kept, o ∈ (start w s).service.trackedObjects := by
    rw [htracked]
    exact fun o ho => ho
  have hmem : object ∈ s.trackedObjects.keys := mem_kept_of_run events hobject
  have hnodup := s.trackedObjects.nodup_keys
  have hsaved : (start w s).saved = s.trackedObjects.keys.head?.toList := rfl
  cases hkeys : s.trackedObjects.keys with
  | nil =>
    rw [hkeys] at hmem
    cases hmem
  | cons first rest =>
    rw [hkeys] at hmem hnodup hlater hsaved
    obtain ⟨hfirst, _⟩ := List.nodup_cons.1 hnodup
    have hrest : (start w s).service.later = rest := hlater
    by_cases ho : object = first
    · subst ho
      obtain ⟨hiff, hguarded⟩ := run_of_not_mem_later events hkept
        (fun hmem => hfirst (hrest ▸ hmem)) hobject
      exact iff_of_true (hiff.2 (hsaved ▸ List.mem_singleton_self _)) hguarded
    · apply run_of_mem_later events hkept
      · rw [hrest]
        exact (List.mem_cons.1 hmem).resolve_left ho
      · rw [hsaved]
        exact fun h => ho (List.mem_singleton.1 h)
      · exact hends
      · exact hobject

/-- The knight and the mage are tracked. -/
def heroService : DatabaseService Hero :=
  { DatabaseService.start (fun _ _ => .int 0) with
    trackedObjects := .ofPairs [(.knight, Hero.knight.record), (.mage, Hero.mage.record)] }

def heroPass (events : List (PassEvent Hero)) : AutosavePass Hero :=
  Runs.run (step heroWorld) (start heroWorld heroService) events

/-- The knight is untracked once the pass is at the mage. -/
def knightLeavesLate : List (PassEvent Hero) := [.next, .untrackObject .knight, .next]

theorem autosave_saves_mage :
    Hero.mage ∈ (heroPass knightLeavesLate).kept ∧
      Hero.mage ∈ (heroPass knightLeavesLate).saved := by
  have hends : Ends heroWorld (start heroWorld heroService) knightLeavesLate :=
    ⟨by decide, by decide, by decide, rfl⟩
  have hkept : Hero.mage ∈ (heroPass knightLeavesLate).kept := by decide
  have h := (autosave_saves_all_iff heroWorld heroService rfl knightLeavesLate hends).2
  refine ⟨hkept, (h ⟨⟨fun _ _ _ _ hno => hno.elim, trivial⟩, ⟨fun o _ c hc hremoves => ?_, trivial⟩,
    ⟨fun _ _ _ _ hno => hno.elim, trivial⟩, trivial⟩).1 _ hkept⟩
  cases hc
  cases hremoves.1

/-- The knight is untracked while it is being saved. -/
def knightLeavesEarly : List (PassEvent Hero) := [.untrackObject .knight, .next]

/-- The mage is not saved by the pass. -/
theorem mage_not_saved : Ends heroWorld (start heroWorld heroService) knightLeavesEarly ∧
    ¬ ∀ object ∈ (heroPass knightLeavesEarly).kept,
      object ∈ (heroPass knightLeavesEarly).saved := by
  refine ⟨⟨by decide, by decide, rfl⟩, fun h => ?_⟩
  exact absurd (h .mage (by decide)) (by decide)

end AutosavePass

end Godaemon
