import Godaemon.Services.DatabaseService

namespace Godaemon
set_option autoImplicit true

/-- The database answers the call only later. -/
def TrackCall.suspends (call : TrackCall O) : Bool := call.answer.isNone || call.writeSuspends

namespace DatabaseService

variable {S O : Type} [DecidableEq O] (w : DatabaseWorld S O) (s : DatabaseService O)

/-- No two calls have been past the barrier at once, and no object has been entered twice. -/
def Exclusive : Prop := s.crowded = false ∧ s.reentered = false

/-- Resumed one after the other, these calls do not meet: all but the last run through, and they
are for different objects, none of which is tracked. -/
def Orderly (calls : List (TrackCall O)) (trackedObjects : Dict O Record) (freed : List O) : Prop :=
  (∀ call ∈ calls.dropLast, call.object ∈ freed ∨ call.suspends = false) ∧
    ((calls.filter (fun call => call.object ∉ freed)).map (fun call => call.object)).Nodup ∧
    ∀ call ∈ calls, call.object ∉ freed → call.object ∉ trackedObjects

/-- A call that is past the barrier ends with this event. -/
def Completes : DatabaseEvent O → Prop
  | .readDone i _ => ∃ call, s.running[i]? = some (call, .reading) ∧ call.object ∉ s.freed ∧
    (call.object ∉ s.trackedObjects ∨ call.writeSuspends = false)
  | .writeDone i => ∃ call, s.running[i]? = some (call, .writing)
  | _ => False

/-- When a call ends, those that wait for it do not meet. -/
def Admits (event : DatabaseEvent O) : Prop :=
  s.Completes event → Orderly s.waiting s.trackedObjects s.freed

/-- The barrier is locked while anyone is past it or waits, and at most one call is past it. -/
structure Barred : Prop where
  running : s.trackLocked = false → s.running = []
  waiting : s.trackLocked = false → s.waiting = []
  one : s.running.length ≤ 1

/-- A call that is past the barrier ends, or is suspended. -/
structure Passes (result : Bool × DatabaseService O) : Prop where
  waiting : result.2.waiting = s.waiting
  freed : result.2.freed = s.freed
  tracked : result.2.trackedObjects = s.trackedObjects
  crowded : result.2.crowded = s.crowded
  reentered : result.2.reentered = s.reentered
  ended : result.1 = true → result.2.running = s.running ∧ result.2.trackLocked = false
  suspended : result.1 = false → result.2.trackLocked = s.trackLocked ∧
    ∃ entry, result.2.running = s.running ++ [entry]

/-- The state in which a call has passed the barrier and its object is tracked. -/
def entered (call : TrackCall O) : DatabaseService O :=
  { s with
    trackLocked := true
    crowded := s.crowded || !s.running.isEmpty
    trackedObjects := s.trackedObjects.set call.object call.record
    applied := s.applied.filter (fun entry => entry ≠ (call.object, call.record))
    reentered := s.reentered || call.object ∈ s.trackedObjects }

variable {w} {s : DatabaseService O} {call : TrackCall O} {object : O}

omit [DecidableEq O] in
theorem Barred.only (hb : s.Barred) {i : Nat} {entry : TrackCall O × TrackPhase}
    (h : s.running[i]? = some entry) : s.trackLocked = true ∧ s.running.eraseIdx i = [] := by
  obtain ⟨hi, _⟩ := List.getElem?_eq_some_iff.1 h
  apply And.intro
  · rw [← Bool.not_eq_false]
    intro hunlocked
    rw [hb.running hunlocked] at hi
    exact Nat.not_lt_zero i hi
  · apply List.eq_nil_of_length_eq_zero
    rw [List.length_eraseIdx_of_lt hi]
    have hone := hb.one
    omega

theorem saveObject_frame (w : DatabaseWorld S O) (s : DatabaseService O) (object : O) :
    ∃ writes, s.saveObject w object = { s with
      writes := writes } := by
  rw [saveObject]
  split
  · exact ⟨_, rfl⟩
  · exact ⟨_, rfl⟩

theorem afterRead_passes (w : DatabaseWorld S O) (s : DatabaseService O) (call : TrackCall O)
    (values : Dict String Variant) : s.Passes (s.afterRead w call values) ∧
      ((s.afterRead w call values).1 = true ↔
        call.object ∉ s.trackedObjects ∨ call.writeSuspends = false) := by
  simp only [afterRead]
  split
  · next hmem =>
    exact ⟨⟨rfl, rfl, rfl, rfl, rfl, fun _ => ⟨rfl, rfl⟩, Bool.noConfusion⟩,
      iff_of_true rfl (.inl hmem)⟩
  · next hmem =>
    obtain ⟨writes, hframe⟩ := saveObject_frame w
      { s.applyObjectDatabaseValues call.object values with
        applied := (call.object, call.record) :: s.applied } call.object
    have hframe' : saveObject w { s.applyObjectDatabaseValues call.object values with
        applied := (call.object, call.record) ::
          (s.applyObjectDatabaseValues call.object values).applied } call.object = _ := hframe
    rw [hframe']
    split
    · next hsuspends =>
      refine ⟨⟨rfl, rfl, rfl, rfl, rfl, Bool.noConfusion, fun _ => ⟨rfl, _, rfl⟩⟩,
        iff_of_false Bool.noConfusion ?_⟩
      intro h
      cases h with
      | inl h => exact hmem h
      | inr h => exact absurd hsuspends (by rw [h]; decide)
    · next hsuspends =>
      refine ⟨⟨rfl, rfl, rfl, rfl, rfl, fun _ => ⟨rfl, rfl⟩, Bool.noConfusion⟩,
        iff_of_true rfl (.inr ?_)⟩
      exact Bool.eq_false_iff.2 hsuspends

theorem enter_of_freed (h : call.object ∈ s.freed) : s.enter w call = (false, { s with
    trackLocked := true
    crowded := s.crowded || !s.running.isEmpty }) := by
  simp only [enter]
  rw [if_pos h]

theorem enter_passes (h : call.object ∉ s.freed) : (s.entered call).Passes (s.enter w call) ∧
    ((s.enter w call).1 = true ↔ call.suspends = false) := by
  simp only [enter]
  rw [if_neg h]
  cases hanswer : call.answer with
  | none =>
    refine ⟨⟨rfl, rfl, rfl, rfl, rfl, Bool.noConfusion, fun _ => ⟨rfl, _, rfl⟩⟩,
      iff_of_false Bool.noConfusion ?_⟩
    rw [TrackCall.suspends, hanswer]
    exact Bool.noConfusion
  | some values =>
    obtain ⟨hpasses, hends⟩ := afterRead_passes w (s.entered call) call values
    refine ⟨hpasses, hends.trans ?_⟩
    have hmem : call.object ∈ (s.entered call).trackedObjects := (Dict.mem_set _).2 (.inl rfl)
    simp only [hmem, not_true_eq_false, false_or, TrackCall.suspends, hanswer,
      Option.isNone_some, Bool.false_or]

theorem enter_flags (w : DatabaseWorld S O) (s : DatabaseService O) (call : TrackCall O) :
    (s.enter w call).2.crowded = (s.crowded || !s.running.isEmpty) ∧
      (s.enter w call).2.reentered =
        (s.reentered || (call.object ∉ s.freed && call.object ∈ s.trackedObjects)) := by
  by_cases hfreed : call.object ∈ s.freed
  · rw [enter_of_freed hfreed]
    simp [hfreed]
  · obtain ⟨hpasses, _⟩ := enter_passes (w := w) hfreed
    rw [hpasses.crowded, hpasses.reentered]
    simp [entered, hfreed]

theorem resumeAll_exclusive (calls : List (TrackCall O))
    (h : (resumeAll w calls s).Exclusive) : s.Exclusive := by
  induction calls generalizing s with
  | nil => exact h
  | cons call calls ih =>
    have hflags := enter_flags w s call
    have hexclusive := ih h
    rw [Exclusive, hflags.1, hflags.2, Bool.or_eq_false_iff, Bool.or_eq_false_iff] at hexclusive
    exact ⟨hexclusive.1.1, hexclusive.2.1⟩

theorem resumeAll_crowded {calls : List (TrackCall O)} (hrunning : s.running ≠ [])
    (hcalls : calls ≠ []) : ¬ (resumeAll w calls s).Exclusive := by
  cases calls with
  | nil => exact absurd rfl hcalls
  | cons call calls =>
    intro h
    have hexclusive := (resumeAll_exclusive calls h).1
    rw [(enter_flags w s call).1, Bool.or_eq_false_iff] at hexclusive
    exact hrunning (by simpa using hexclusive.2)

theorem orderly_singleton {trackedObjects : Dict O Record} {freed : List O} :
    Orderly [call] trackedObjects freed ↔
      (call.object ∉ freed → call.object ∉ trackedObjects) := by
  by_cases h : call.object ∈ freed
  · simp [Orderly, h]
  · simp [Orderly, h]

theorem orderly_cons {calls : List (TrackCall O)} {trackedObjects : Dict O Record}
    {freed : List O} (hcalls : calls ≠ []) :
    Orderly (call :: calls) trackedObjects freed ↔
      (call.object ∈ freed ∨ call.suspends = false) ∧
        (call.object ∉ freed → call.object ∉ trackedObjects) ∧
        Orderly calls (if call.object ∈ freed then trackedObjects
          else trackedObjects.set call.object call.record) freed := by
  simp only [Orderly, List.dropLast_cons_of_ne_nil hcalls, List.forall_mem_cons]
  by_cases hfreed : call.object ∈ freed
  · have hskip : (call :: calls).filter (fun call => call.object ∉ freed) =
        calls.filter (fun call => call.object ∉ freed) := by simp [hfreed]
    rw [if_pos hfreed, hskip]
    simp only [hfreed, true_or, true_and, not_true_eq_false, false_implies]
  · have hkeep : (call :: calls).filter (fun call => call.object ∉ freed) =
        call :: calls.filter (fun call => call.object ∉ freed) := by simp [hfreed]
    rw [if_neg hfreed, hkeep, List.map_cons, List.nodup_cons]
    simp only [hfreed, false_or, not_false_eq_true, forall_const, Dict.mem_set, List.mem_map,
      List.mem_filter, decide_eq_true_eq, not_exists, not_and, not_or]
    apply Iff.intro
    · intro h
      obtain ⟨⟨hruns, hrest⟩, ⟨hnew, hnodup⟩, huntracked, hothers⟩ := h
      exact ⟨hruns, huntracked, hrest, hnodup,
        fun other hother halive => ⟨hnew other ⟨hother, halive⟩, hothers other hother halive⟩⟩
    · intro h
      obtain ⟨hruns, huntracked, hrest, hnodup, hothers⟩ := h
      exact ⟨⟨hruns, hrest⟩, ⟨fun other hother => (hothers other hother.1 hother.2).1, hnodup⟩,
        huntracked, fun other hother halive => (hothers other hother halive).2⟩

/-- Calls that are resumed while nobody is past the barrier do not meet exactly if they are
orderly. -/
theorem resumeAll_exclusive_iff (calls : List (TrackCall O)) (hrunning : s.running = []) :
    (resumeAll w calls s).Exclusive ↔
      s.Exclusive ∧ Orderly calls s.trackedObjects s.freed := by
  induction calls generalizing s with
  | nil => simp [resumeAll, Orderly]
  | cons call calls ih =>
    have hflags := enter_flags w s call
    have henter : (s.enter w call).2.Exclusive ↔
        s.Exclusive ∧ (call.object ∉ s.freed → call.object ∉ s.trackedObjects) := by
      simp only [Exclusive, hflags, hrunning, List.isEmpty_nil, Bool.not_true, Bool.or_false,
        Bool.or_eq_false_iff, Bool.and_eq_false_iff, decide_eq_false_iff_not, not_not]
      tauto
    rw [resumeAll]
    by_cases hcalls : calls = []
    · rw [hcalls, resumeAll, henter, orderly_singleton]
    · rw [orderly_cons hcalls]
      by_cases hfreed : call.object ∈ s.freed
      · have hstate := congrArg Prod.snd (enter_of_freed (w := w) hfreed)
        have hrunning' : (s.enter w call).2.running = [] := by
          rw [hstate]
          exact hrunning
        rw [ih hrunning', henter, if_pos hfreed]
        have htracked : (s.enter w call).2.trackedObjects = s.trackedObjects := by rw [hstate]
        have hfreed' : (s.enter w call).2.freed = s.freed := by rw [hstate]
        simp only [htracked, hfreed', hfreed, not_true_eq_false, false_implies, and_true, true_or,
          true_and]
      · obtain ⟨hpasses, hends⟩ := enter_passes (w := w) hfreed
        rw [if_neg hfreed]
        cases hemits : (s.enter w call).1 with
        | false =>
          obtain ⟨_, entry, hentry⟩ := hpasses.suspended hemits
          have hne : (s.enter w call).2.running ≠ [] := by
            rw [hentry]
            simp
          have hsuspends : ¬ call.suspends = false := fun h => by
            rw [hends.2 h] at hemits
            cases hemits
          exact iff_of_false (resumeAll_crowded hne hcalls)
            (fun h => h.2.1.elim hfreed hsuspends)
        | true =>
          have hrunning' : (s.enter w call).2.running = [] := by
            rw [(hpasses.ended hemits).1]
            exact hrunning
          rw [ih hrunning', henter, hpasses.tracked, hpasses.freed]
          simp only [hends.1 hemits, hfreed, or_true, true_and, entered, and_assoc]

theorem resumeAll_barred (calls : List (TrackCall O)) (hrunning : s.running = [])
    (hwaiting : s.waiting = []) (horderly : Orderly calls s.trackedObjects s.freed) :
    (resumeAll w calls s).Barred := by
  induction calls generalizing s with
  | nil =>
    refine ⟨fun _ => hrunning, fun _ => hwaiting, ?_⟩
    rw [resumeAll, hrunning]
    exact Nat.zero_le 1
  | cons call calls ih =>
    rw [resumeAll]
    by_cases hfreed : call.object ∈ s.freed
    · have hstate := congrArg Prod.snd (enter_of_freed (w := w) hfreed)
      rw [hstate]
      by_cases hcalls : calls = []
      · rw [hcalls]
        refine ⟨Bool.noConfusion, Bool.noConfusion, ?_⟩
        change s.running.length ≤ 1
        rw [hrunning]
        exact Nat.zero_le 1
      · rw [orderly_cons hcalls, if_pos hfreed] at horderly
        exact ih hrunning hwaiting horderly.2.2
    · obtain ⟨hpasses, hends⟩ := enter_passes (w := w) hfreed
      have hwaiting' : (s.enter w call).2.waiting = [] := hpasses.waiting.trans hwaiting
      by_cases hcalls : calls = []
      · rw [hcalls, resumeAll]
        cases hemits : (s.enter w call).1 with
        | false =>
          obtain ⟨hlocked, entry, hentry⟩ := hpasses.suspended hemits
          apply Barred.mk
          · intro hunlocked
            rw [hlocked] at hunlocked
            cases hunlocked
          · intro _
            exact hwaiting'
          · rw [hentry]
            change (s.running ++ [entry]).length ≤ 1
            rw [hrunning]
            exact Nat.le_refl 1
        | true =>
          have hrunning' : (s.enter w call).2.running = [] :=
            (hpasses.ended hemits).1.trans hrunning
          exact ⟨fun _ => hrunning', fun _ => hwaiting', by rw [hrunning']; exact Nat.zero_le 1⟩
      · rw [orderly_cons hcalls, if_neg hfreed] at horderly
        obtain ⟨hruns, _, hrest⟩ := horderly
        have hemits := hends.2 (hruns.resolve_left hfreed)
        apply ih
        · exact (hpasses.ended hemits).1.trans hrunning
        · exact hwaiting'
        · rw [hpasses.tracked, hpasses.freed]
          exact hrest

/-- When a call ends or is suspended and nobody else is past the barrier, exclusion is kept exactly
if those that are then resumed are orderly. -/
theorem settle_spec {result : Bool × DatabaseService O} (hpasses : s.Passes result)
    (hrunning : s.running = []) (hlocked : s.trackLocked = true) (hx : s.Exclusive) :
    ((settle w result).Exclusive ↔
        (result.1 = true → Orderly s.waiting s.trackedObjects s.freed)) ∧
      ((result.1 = true → Orderly s.waiting s.trackedObjects s.freed) →
        (settle w result).Barred) := by
  have hx' : result.2.Exclusive := by
    rw [Exclusive, hpasses.crowded, hpasses.reentered]
    exact hx
  rw [settle]
  cases hemits : result.1 with
  | false =>
    obtain ⟨hkept, entry, hentry⟩ := hpasses.suspended hemits
    rw [if_neg (by decide)]
    refine ⟨iff_of_true hx' Bool.noConfusion, fun _ => ⟨?_, ?_, ?_⟩⟩
    · intro hunlocked
      rw [hkept, hlocked] at hunlocked
      cases hunlocked
    · intro hunlocked
      rw [hkept, hlocked] at hunlocked
      cases hunlocked
    · rw [hentry, hrunning]
      exact Nat.le_refl 1
  | true =>
    have hrunning' : result.2.running = [] := (hpasses.ended hemits).1.trans hrunning
    rw [if_pos rfl, emitTrackComplete, hpasses.waiting]
    have horderly : Orderly s.waiting result.2.trackedObjects result.2.freed ↔
        Orderly s.waiting s.trackedObjects s.freed := by rw [hpasses.tracked, hpasses.freed]
    apply And.intro
    · refine (resumeAll_exclusive_iff s.waiting ?_).trans ?_
      · exact hrunning'
      · rw [forall_prop_of_true rfl]
        exact (and_iff_right hx').trans horderly
    · intro h
      apply resumeAll_barred s.waiting
      · exact hrunning'
      · rfl
      · exact horderly.2 (h rfl)

theorem readDone_spec (hb : s.Barred) (hx : s.Exclusive) (i : Nat)
    (values : Dict String Variant) :
    ((s.readDone w i values).Exclusive ↔ s.Admits (.readDone i values)) ∧
      (s.Admits (.readDone i values) → (s.readDone w i values).Barred) := by
  simp only [readDone]
  split
  · next call hcall =>
    obtain ⟨hlocked, hsingle⟩ := hb.only hcall
    by_cases hfreed : call.object ∈ s.freed
    · have hidle : ¬ s.Completes (.readDone i values) := by
        intro h
        obtain ⟨other, hother, halive, _⟩ := h
        rw [hcall] at hother
        cases hother
        exact halive hfreed
      rw [if_pos hfreed]
      refine ⟨iff_of_true hx (fun h => absurd h hidle), fun _ => ⟨?_, ?_, ?_⟩⟩
      · intro hunlocked
        exact hsingle
      · intro hunlocked
        exact absurd hlocked (by rw [hunlocked]; decide)
      · change (s.running.eraseIdx i).length ≤ 1
        rw [hsingle]
        exact Nat.zero_le 1
    · obtain ⟨hpasses, hends⟩ := afterRead_passes w { s with
        running := s.running.eraseIdx i } call values
      have hcompletes : s.Completes (.readDone i values) ↔
          (afterRead w { s with
            running := s.running.eraseIdx i } call values).1 = true := by
        rw [hends]
        simp only [Completes, hcall, Option.some.injEq, Prod.mk.injEq, and_true,
          exists_eq_left', hfreed, not_false_eq_true, true_and]
      have hspec := settle_spec (w := w) hpasses hsingle hlocked hx
      rw [if_neg hfreed]
      simp only [Admits, hcompletes]
      exact hspec
  · next hother =>
    have hidle : ¬ s.Completes (.readDone i values) := by
      intro h
      obtain ⟨call, hcall, _⟩ := h
      exact hother call hcall
    exact ⟨iff_of_true hx (fun h => absurd h hidle), fun _ => hb⟩

theorem writeDone_spec (hb : s.Barred) (hx : s.Exclusive) (i : Nat) :
    ((s.writeDone w i).Exclusive ↔ s.Admits (.writeDone i)) ∧
      (s.Admits (.writeDone i) → (s.writeDone w i).Barred) := by
  simp only [writeDone]
  split
  · next call hcall =>
    obtain ⟨hlocked, hsingle⟩ := hb.only hcall
    have hcompletes : s.Completes (.writeDone i) := ⟨call, hcall⟩
    have hpasses : Passes { s with
        running := s.running.eraseIdx i } (true, { s with
        running := s.running.eraseIdx i
        trackLocked := false }) := ⟨rfl, rfl, rfl, rfl, rfl, fun _ => ⟨rfl, rfl⟩, Bool.noConfusion⟩
    have hspec := settle_spec (w := w) hpasses hsingle hlocked hx
    rw [forall_prop_of_true rfl] at hspec
    rw [Admits, forall_prop_of_true hcompletes]
    exact hspec
  · next hother =>
    have hidle : ¬ s.Completes (.writeDone i) := by
      intro h
      obtain ⟨call, hcall⟩ := h
      exact hother call hcall
    exact ⟨iff_of_true hx (fun h => absurd h hidle), fun _ => hb⟩

theorem trackObject_barred (hb : s.Barred) (hx : s.Exclusive) :
    (s.trackObject w call).Exclusive ∧ (s.trackObject w call).Barred := by
  rw [trackObject]
  split
  · exact ⟨hx, hb⟩
  · next htracked =>
    split
    · next hlocked =>
      refine ⟨hx, ⟨?_, ?_, hb.one⟩⟩
      · intro hunlocked
        exact absurd hlocked (by rw [hunlocked]; decide)
      · intro hunlocked
        exact absurd hlocked (by rw [hunlocked]; decide)
    · next hunlocked =>
      have hrunning := hb.running (Bool.eq_false_iff.2 hunlocked)
      have hwaiting := hb.waiting (Bool.eq_false_iff.2 hunlocked)
      have horderly : Orderly [call] s.trackedObjects s.freed :=
        orderly_singleton.2 (fun _ => htracked)
      have hentered := (resumeAll_exclusive_iff (w := w) [call] hrunning).2 ⟨hx, horderly⟩
      have hbarred := resumeAll_barred (w := w) [call] hrunning hwaiting horderly
      rw [resumeAll, resumeAll] at hentered hbarred
      have hkept : (s.enter w call).2.waiting = [] := by
        by_cases hfreed : call.object ∈ s.freed
        · rw [enter_of_freed hfreed]
          exact hwaiting
        · exact (enter_passes (w := w) hfreed).1.waiting.trans hwaiting
      have hsettle : settle w (s.enter w call) = (s.enter w call).2 := by
        rw [settle, emitTrackComplete, hkept, resumeAll]
        split
        · rw [← hkept]
        · rfl
      rw [hsettle]
      exact ⟨hentered, hbarred⟩

omit [DecidableEq O] in
theorem Barred.of_frame {t : DatabaseService O} (hb : s.Barred)
    (hlocked : t.trackLocked = s.trackLocked) (hrunning : t.running = s.running)
    (hwaiting : t.waiting = s.waiting) : t.Barred := by
  apply Barred.mk
  · rw [hlocked, hrunning]
    exact hb.running
  · rw [hlocked, hwaiting]
    exact hb.waiting
  · rw [hrunning]
    exact hb.one

theorem saveObject_barred (object : O) (hb : s.Barred) (hx : s.Exclusive) :
    (s.saveObject w object).Exclusive ∧ (s.saveObject w object).Barred := by
  obtain ⟨writes, hframe⟩ := saveObject_frame w s object
  rw [hframe]
  exact ⟨hx, hb.of_frame rfl rfl rfl⟩

theorem untrackObject_barred (object : O) (hb : s.Barred) (hx : s.Exclusive) :
    (s.untrackObject w object).Exclusive ∧ (s.untrackObject w object).Barred := by
  rw [untrackObject]
  split
  · exact ⟨hx, hb⟩
  · obtain ⟨hx', hb'⟩ := saveObject_barred (w := w) object hb hx
    exact ⟨hx', hb'.of_frame rfl rfl rfl⟩

theorem step_barred (event : DatabaseEvent O) (hb : s.Barred) (hx : s.Exclusive) :
    ((s.step w event).Exclusive ↔ s.Admits event) ∧
      (s.Admits event → (s.step w event).Barred) := by
  have hother {t : DatabaseService O} (hidle : ¬ s.Completes event)
      (ht : t.Exclusive ∧ t.Barred) :
      (t.Exclusive ↔ s.Admits event) ∧ (s.Admits event → t.Barred) :=
    ⟨iff_of_true ht.1 (fun h => absurd h hidle), fun _ => ht.2⟩
  cases event with
  | readDone i values => exact readDone_spec hb hx i values
  | writeDone i => exact writeDone_spec hb hx i
  | trackObject call =>
    apply hother id
    rw [step]
    split
    · exact ⟨hx, hb⟩
    · exact trackObject_barred hb hx
  | saveObject o =>
    apply hother id
    rw [step]
    split
    · exact ⟨hx, hb⟩
    · exact saveObject_barred o hb hx
  | untrackObject o =>
    apply hother id
    rw [step]
    split
    · exact ⟨hx, hb⟩
    · exact untrackObject_barred o hb hx
  | free o =>
    apply hother id
    rw [step]
    split
    · exact ⟨hx, hb⟩
    · obtain ⟨hx', hb'⟩ := untrackObject_barred (w := w) o hb hx
      exact ⟨hx', hb'.of_frame rfl rfl rfl⟩
  | autosave =>
    apply hother id
    rw [step]
    split
    · exact ⟨hx, hb⟩
    · split
      · exact ⟨hx, hb⟩
      · next o _ =>
        obtain ⟨hx', hb'⟩ := saveObject_barred (w := w) o hb hx
        exact ⟨hx', hb'.of_frame rfl rfl rfl⟩
  | autosaveNext =>
    apply hother id
    rw [step]
    split
    · exact ⟨hx, hb⟩
    · split
      · exact ⟨hx, hb.of_frame rfl rfl rfl⟩
      · next next _ =>
        obtain ⟨hx', hb'⟩ := saveObject_barred (w := w) next hb hx
        exact ⟨hx', hb'.of_frame rfl rfl rfl⟩
  | setProperty o name value => exact hother id ⟨hx, hb.of_frame rfl rfl rfl⟩

/-- Calls of `track_object` exclude each other in a run exactly if, whenever a call past the
barrier ends, those that wait for it do not meet. -/
theorem track_exclusion_iff (w : DatabaseWorld S O) (properties : O → String → Variant)
    (events : List (DatabaseEvent O)) :
    Runs.Always (step w) Exclusive (start properties) events ↔
      Runs.Guarded (step w) Admits (start properties) events := by
  apply Runs.always_iff_guarded (I := Barred)
  · intro s event hb hx hadmits
    exact (step_barred event hb hx).2 hadmits
  · intro s event hb hx
    exact (step_barred event hb hx).1
  · exact ⟨fun _ => rfl, fun _ => rfl, Nat.zero_le 1⟩
  · exact ⟨rfl, rfl⟩

/-- While the knight is read two others wait. Both are past the barrier once it is done. -/
theorem barrier_lets_two_in :
    ¬ Runs.Always (step heroWorld) Exclusive (start (fun _ _ => .int 0))
      [Hero.knight.track, Hero.mage.track, Hero.thief.track, .readDone 0 .empty] := by
  intro h
  have hcrowded : (Runs.run (step heroWorld) (start (fun _ _ => .int 0))
      [Hero.knight.track, Hero.mage.track, Hero.thief.track, .readDone 0 .empty]).crowded =
        true := by
    decide +kernel
  rw [h.last.1] at hcrowded
  cases hcrowded

end DatabaseService

end Godaemon
