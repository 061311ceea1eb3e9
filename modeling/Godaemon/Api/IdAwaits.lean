import Mathlib.Data.List.Range
import Godaemon.Lib.Runs

namespace Godaemon
set_option autoImplicit true

/-- A coroutine that awaits the id of an object before it goes on, by the number of its call. -/
structure AwaitingCall (N : Type) where
  object : N
  number : Nat
  deriving DecidableEq

/-- The objects whose ids are awaited, and the coroutines that await them: those that the next
frame resumes, those that the present one has yet to resume, and those that have gone on. -/
structure IdAwaits (N : Type) where
  objectAwaits : List N
  suspended : List (AwaitingCall N)
  resuming : List (AwaitingCall N)
  passed : List (AwaitingCall N)
  calls : Nat

inductive AwaitEvent (N : Type) where
  | addObjectIdAwait (object : N)
  /-- `add_object` or `remove_object`. -/
  | release (object : N)
  | awaitForId (object : N)
  | processFrame
  | resume
  deriving DecidableEq

namespace IdAwaits

variable {N : Type} [DecidableEq N]

def start : IdAwaits N := ⟨[], [], [], [], 0⟩

/-- The head of the loop in `await_for_id`. -/
def check (s : IdAwaits N) (call : AwaitingCall N) : IdAwaits N :=
  if call.object ∈ s.objectAwaits then { s with suspended := s.suspended ++ [call] }
  else { s with passed := s.passed ++ [call] }

def step (s : IdAwaits N) : AwaitEvent N → IdAwaits N
  | .addObjectIdAwait object =>
    if object ∈ s.objectAwaits then s else { s with objectAwaits := s.objectAwaits ++ [object] }
  | .release object => { s with objectAwaits := s.objectAwaits.filter (· ≠ object) }
  | .awaitForId object => { s with calls := s.calls + 1 }.check ⟨object, s.calls⟩
  -- the signal resumes those that were connected to it when it was emitted
  | .processFrame =>
    if s.resuming = [] then { s with resuming := s.suspended, suspended := [] } else s
  | .resume =>
    match s.resuming with
    | [] => s
    | call :: resuming => { s with resuming := resuming }.check call

/-- The calls of a list that are about one object. -/
def about (object : N) (calls : List (AwaitingCall N)) : List (AwaitingCall N) :=
  calls.filter fun call => call.object = object

/-- The calls about an object: those that have gone on, and those that wait in the order of their
queue. -/
def lane (s : IdAwaits N) (object : N) : List (AwaitingCall N) :=
  about object s.passed ++
    if object ∈ s.objectAwaits then about object s.suspended ++ about object s.resuming
    else about object s.resuming ++ about object s.suspended

/-- The rest of a frame: what it has yet to resume goes on, or waits for the next one. -/
def restOfFrame (s : IdAwaits N) : List (AwaitEvent N) :=
  List.replicate s.resuming.length .resume

/-- The calls as they are after the next frame, if all that comes is that the id of an object is
known once the present frame is over. -/
def onceKnown (s : IdAwaits N) (object : N) : IdAwaits N :=
  let next := ((Runs.run step s s.restOfFrame).step (.release object)).step .processFrame
  Runs.run step next next.restOfFrame

/-- Calls in the order of their numbers. -/
def Ascending (calls : List (AwaitingCall N)) : Prop :=
  calls.Pairwise fun call call' => call.number < call'.number

instance (calls : List (AwaitingCall N)) : Decidable (Ascending calls) :=
  inferInstanceAs (Decidable (List.Pairwise _ _))

/-- No call about an object waits. -/
def Idle (s : IdAwaits N) (object : N) : Prop :=
  about object s.suspended = [] ∧ about object s.resuming = []

/-- The calls about any object all go on, in the order in which they have been made. -/
def InOrder (s : IdAwaits N) : Prop :=
  ∀ object, (s.onceKnown object).Idle object ∧ Ascending (about object (s.onceKnown object).passed)

/-- A call does not come before calls about its object that wait, and the object does not begin or
cease to be awaited between two that a frame resumes. -/
def InTurn (s : IdAwaits N) : AwaitEvent N → Prop
  | .addObjectIdAwait object => object ∉ s.objectAwaits →
    about object s.resuming = [] ∨ about object s.suspended = []
  | .release object => object ∈ s.objectAwaits →
    about object s.resuming = [] ∨ about object s.suspended = []
  | .awaitForId object => about object s.resuming = [] ∧
    (object ∈ s.objectAwaits ∨ about object s.suspended = [])
  | _ => True

/-- Every call has gone on or waits, once. -/
def Accounted (s : IdAwaits N) : Prop :=
  ((s.passed ++ (s.resuming ++ s.suspended)).map AwaitingCall.number).Perm (List.range s.calls)

variable {s : IdAwaits N} {object : N}

@[simp] theorem about_nil : about object [] = [] := rfl

@[simp] theorem about_append (calls calls' : List (AwaitingCall N)) :
    about object (calls ++ calls') = about object calls ++ about object calls' :=
  List.filter_append ..

theorem about_cons (call : AwaitingCall N) (calls : List (AwaitingCall N)) :
    about object (call :: calls) =
      if call.object = object then call :: about object calls else about object calls := by
  rw [about, List.filter_cons, about]
  simp only [decide_eq_true_eq]

omit [DecidableEq N] in
theorem ascending_append {calls calls' : List (AwaitingCall N)} :
    Ascending (calls ++ calls') ↔ Ascending calls ∧ Ascending calls' ∧
      ∀ call ∈ calls, ∀ call' ∈ calls', call.number < call'.number :=
  List.pairwise_append

omit [DecidableEq N] in
theorem ascending_swap_iff {front calls calls' : List (AwaitingCall N)}
    (h : Ascending (front ++ (calls ++ calls'))) :
    Ascending (front ++ (calls' ++ calls)) ↔ calls = [] ∨ calls' = [] := by
  constructor
  · intro hswapped
    by_contra hno
    rw [not_or, ← ne_eq, ← ne_eq, List.ne_nil_iff_exists_cons, List.ne_nil_iff_exists_cons] at hno
    obtain ⟨⟨call, rest, rfl⟩, call', rest', rfl⟩ := hno
    have hlt := (ascending_append.1 (ascending_append.1 h).2.1).2.2 call List.mem_cons_self call'
      List.mem_cons_self
    have hgt := (ascending_append.1 (ascending_append.1 hswapped).2.1).2.2 call'
      List.mem_cons_self call List.mem_cons_self
    exact Nat.lt_asymm hlt hgt
  · intro hnil
    cases hnil with
    | inl hnil =>
      rw [hnil] at h ⊢
      rwa [List.append_nil]
    | inr hnil =>
      rw [hnil] at h ⊢
      rwa [List.append_nil] at h

omit [DecidableEq N] in
theorem ascending_insert_iff {front back : List (AwaitingCall N)} {call : AwaitingCall N}
    (h : Ascending (front ++ back)) (hnew : ∀ c ∈ front ++ back, c.number < call.number) :
    Ascending (front ++ [call] ++ back) ↔ back = [] := by
  constructor
  · intro hinserted
    by_contra hno
    rw [← ne_eq, List.ne_nil_iff_exists_cons] at hno
    obtain ⟨c, rest, rfl⟩ := hno
    have hlt := (ascending_append.1 hinserted).2.2 call (List.mem_append_right _
      (List.mem_singleton_self call)) c List.mem_cons_self
    exact Nat.lt_asymm hlt (hnew c (List.mem_append_right _ List.mem_cons_self))
  · rintro rfl
    rw [List.append_nil] at h hnew ⊢
    refine ascending_append.2 ⟨h, List.pairwise_singleton _ _, fun c hc c' hc' => ?_⟩
    rw [List.mem_singleton.1 hc']
    exact hnew c hc

theorem number_lt (h : s.Accounted) {call : AwaitingCall N} (hcall : call ∈ s.lane object) :
    call.number < s.calls := by
  have hmem : call ∈ s.passed ++ (s.resuming ++ s.suspended) := by
    rw [lane] at hcall
    simp only [List.mem_append]
    split at hcall
    · simp only [List.mem_append, about, List.mem_filter] at hcall
      tauto
    · simp only [List.mem_append, about, List.mem_filter] at hcall
      tauto
  exact List.mem_range.1 (h.mem_iff.1 (List.mem_map_of_mem hmem))

theorem lane_congr {objectAwaits : List N} (h : object ∈ objectAwaits ↔ object ∈ s.objectAwaits) :
    { s with objectAwaits := objectAwaits }.lane object = s.lane object := by
  simp only [lane, h]

theorem check_lane_of_ne (call : AwaitingCall N) (h : call.object ≠ object) :
    (s.check call).lane object = s.lane object := by
  have hnone : about object [call] = [] := by
    rw [about_cons, if_neg h, about_nil]
  rw [check]
  split
  · simp only [lane, about_append, hnone, List.append_nil]
  · simp only [lane, about_append, hnone, List.append_nil]

theorem accounted_check (call : AwaitingCall N)
    (h : ((s.passed ++ (call :: s.resuming ++ s.suspended)).map AwaitingCall.number).Perm
      (List.range s.calls)) : (s.check call).Accounted := by
  rw [check]
  split
  · refine (List.Perm.map _ (List.Perm.append_left _ ?_)).trans h
    rw [← List.append_assoc]
    exact List.perm_append_singleton _ _
  · refine (List.Perm.of_eq ?_).trans h
    rw [List.append_assoc]
    rfl

theorem Accounted.step (h : s.Accounted) (event : AwaitEvent N) : (s.step event).Accounted := by
  cases event with
  | addObjectIdAwait object =>
    rw [IdAwaits.step]
    split
    · exact h
    · exact h
  | release object => exact h
  | awaitForId object =>
    apply accounted_check
    rw [List.range_succ]
    refine (List.Perm.map _ List.perm_middle).trans ?_
    exact (h.cons s.calls).trans (List.perm_append_singleton _ _).symm
  | processFrame =>
    rw [IdAwaits.step]
    split
    · next hnone =>
      rw [Accounted, hnone, List.nil_append] at h
      rw [Accounted, List.append_nil]
      exact h
    · exact h
  | resume =>
    simp only [IdAwaits.step]
    split
    · exact h
    · next call resuming hcalls =>
      apply accounted_check
      rw [Accounted, hcalls] at h
      exact h

theorem resume_lane {call : AwaitingCall N} {resuming : List (AwaitingCall N)}
    (h : s.resuming = call :: resuming) (object : N) :
    ({ s with resuming := resuming }.check call).lane object = s.lane object := by
  by_cases hobject : call.object = object
  · have hone : about object [call] = [call] := by
      rw [about_cons, if_pos hobject, about_nil]
    have hall : about object s.resuming = call :: about object resuming := by
      rw [h, about_cons, if_pos hobject]
    rw [check]
    by_cases hawaits : object ∈ s.objectAwaits
    · simp only [lane, hobject, if_pos hawaits, about_append, hone, hall, List.append_assoc,
        List.singleton_append]
    · simp only [lane, hobject, if_neg hawaits, about_append, hone, hall, List.append_assoc,
        List.cons_append, List.nil_append]
  · rw [check_lane_of_ne call hobject]
    have hall : about object s.resuming = about object resuming := by
      rw [h, about_cons, if_neg hobject]
    simp only [lane, hall]

theorem processFrame_lane (s : IdAwaits N) (object : N) :
    (s.step .processFrame).lane object = s.lane object := by
  rw [step]
  split
  · next hnone =>
    simp only [lane, hnone, about_nil, List.append_nil, List.nil_append]
  · rfl

theorem run_restOfFrame (s : IdAwaits N) : Runs.run step s s.restOfFrame =
    { s with
      resuming := []
      suspended := s.suspended ++ s.resuming.filter (fun call => call.object ∈ s.objectAwaits)
      passed := s.passed ++ s.resuming.filter (fun call => call.object ∉ s.objectAwaits) } := by
  obtain ⟨objectAwaits, suspended, resuming, passed, calls⟩ := s
  simp only [restOfFrame]
  induction resuming generalizing suspended passed with
  | nil => simp
  | cons call resuming ih =>
    rw [List.length_cons, List.replicate_succ, Runs.run_cons]
    by_cases hawaits : call.object ∈ objectAwaits
    · have hstep : step ⟨objectAwaits, suspended, call :: resuming, passed, calls⟩ .resume =
          ⟨objectAwaits, suspended ++ [call], resuming, passed, calls⟩ := if_pos hawaits
      rw [hstep, ih]
      simp [hawaits]
    · have hstep : step ⟨objectAwaits, suspended, call :: resuming, passed, calls⟩ .resume =
          ⟨objectAwaits, suspended, resuming, passed ++ [call], calls⟩ := if_neg hawaits
      rw [hstep, ih]
      simp [hawaits]

theorem about_filter (object : N) (P : N → Prop) [DecidablePred P] (calls : List (AwaitingCall N)) :
    about object (calls.filter fun call => P call.object) =
      if P object then about object calls else [] := by
  induction calls with
  | nil => rw [List.filter_nil, about_nil, ite_self]
  | cons call calls ih =>
    rw [List.filter_cons, about_cons]
    by_cases hobject : call.object = object
    · rw [if_pos hobject, hobject]
      by_cases hP : P object
      · simp only [hP, decide_true, ↓reduceIte, about_cons, hobject, ih]
      · simp only [hP, decide_false, Bool.false_eq_true, ↓reduceIte, ih]
    · rw [if_neg hobject]
      split
      · rw [about_cons, if_neg hobject, ih]
      · exact ih

/-- The lane is what goes on once the id is known. -/
theorem onceKnown_passed (s : IdAwaits N) (object : N) :
    about object (s.onceKnown object).passed = s.lane object := by
  have hknown : object ∉ s.objectAwaits.filter (· ≠ object) := by simp
  have hpassed := about_filter object (fun o => o ∉ s.objectAwaits) s.resuming
  have hwaits := about_filter object (fun o => o ∈ s.objectAwaits) s.resuming
  have hnext (calls : List (AwaitingCall N)) :=
    about_filter object (fun o => o ∉ s.objectAwaits.filter (· ≠ object)) calls
  rw [onceKnown, run_restOfFrame, run_restOfFrame]
  simp only [step, ↓reduceIte, about_append, hpassed, hnext, if_pos hknown, hwaits, lane]
  by_cases hawaits : object ∈ s.objectAwaits
  · simp only [hawaits, not_true_eq_false, ↓reduceIte, List.append_nil]
  · simp only [hawaits, not_false_eq_true, ↓reduceIte, List.append_nil, List.append_assoc]

theorem idle_onceKnown (s : IdAwaits N) (object : N) : (s.onceKnown object).Idle object := by
  have hknown : object ∉ s.objectAwaits.filter (· ≠ object) := by simp
  have hnext (calls : List (AwaitingCall N)) :=
    about_filter object (fun o => o ∈ s.objectAwaits.filter (· ≠ object)) calls
  rw [Idle, onceKnown, run_restOfFrame, run_restOfFrame]
  simp only [step, ↓reduceIte, about_append, about_nil, hnext, if_neg hknown, List.append_nil,
    and_self]

theorem inOrder_iff : s.InOrder ↔ ∀ object, Ascending (s.lane object) := by
  simp only [InOrder, onceKnown_passed, idle_onceKnown, true_and]

theorem addObjectIdAwait_inOrder_iff (h : s.InOrder) :
    (s.step (.addObjectIdAwait object)).InOrder ↔ s.InTurn (.addObjectIdAwait object) := by
  rw [inOrder_iff] at h
  rw [inOrder_iff, step, InTurn]
  by_cases hawaits : object ∈ s.objectAwaits
  · rw [if_pos hawaits]
    exact iff_of_true h fun hno => absurd hawaits hno
  · rw [if_neg hawaits]
    have hother (o : N) (ho : o ≠ object) :
        { s with objectAwaits := s.objectAwaits ++ [object] }.lane o = s.lane o := by
      apply lane_congr
      simp [ho]
    have hself := h object
    rw [lane, if_neg hawaits] at hself
    have hiff := ascending_swap_iff hself
    have hlane : { s with objectAwaits := s.objectAwaits ++ [object] }.lane object =
        about object s.passed ++ (about object s.suspended ++ about object s.resuming) := by
      rw [lane, if_pos (List.mem_append_right _ (List.mem_singleton_self object))]
    rw [← hlane] at hiff
    constructor
    · intro hs _
      exact hiff.1 (hs object)
    · intro hturn o
      by_cases ho : o = object
      · rw [ho]
        exact hiff.2 (hturn hawaits)
      · rw [hother o ho]
        exact h o

theorem release_inOrder_iff (h : s.InOrder) :
    (s.step (.release object)).InOrder ↔ s.InTurn (.release object) := by
  rw [inOrder_iff] at h
  rw [inOrder_iff, step, InTurn]
  have hother (o : N) (ho : o ≠ object ∨ object ∉ s.objectAwaits) :
      { s with objectAwaits := s.objectAwaits.filter (· ≠ object) }.lane o = s.lane o := by
    apply lane_congr
    rw [List.mem_filter, decide_eq_true_eq]
    exact and_iff_left_of_imp fun hmem he => ho.elim (fun hne => hne he) fun hno => hno (he ▸ hmem)
  by_cases hawaits : object ∈ s.objectAwaits
  · have hself := h object
    rw [lane, if_pos hawaits] at hself
    have hiff := ascending_swap_iff hself
    have hlane : { s with objectAwaits := s.objectAwaits.filter (· ≠ object) }.lane object =
        about object s.passed ++ (about object s.resuming ++ about object s.suspended) := by
      rw [lane, if_neg]
      simp
    rw [← hlane, or_comm] at hiff
    constructor
    · intro hs _
      exact hiff.1 (hs object)
    · intro hturn o
      by_cases ho : o = object
      · rw [ho]
        exact hiff.2 (hturn hawaits)
      · rw [hother o (.inl ho)]
        exact h o
  · refine iff_of_true (fun o => ?_) fun hmem => absurd hmem hawaits
    rw [hother o (.inr hawaits)]
    exact h o

theorem awaitForId_inOrder_iff (hall : s.Accounted) (h : s.InOrder) :
    (s.step (.awaitForId object)).InOrder ↔ s.InTurn (.awaitForId object) := by
  rw [inOrder_iff] at h
  have hother (o : N) (ho : o ≠ object) :
      (s.step (.awaitForId object)).lane o = s.lane o :=
    check_lane_of_ne (s := { s with calls := s.calls + 1 }) ⟨object, s.calls⟩ (Ne.symm ho)
  have hone : about object [AwaitingCall.mk object s.calls] = [⟨object, s.calls⟩] := by
    rw [about_cons, if_pos rfl, about_nil]
  have hself := h object
  have hnew (c : AwaitingCall N) (hc : c ∈ s.lane object) : c.number < s.calls := number_lt hall hc
  have hiff : (s.step (.awaitForId object)).InOrder ↔
      Ascending ((s.step (.awaitForId object)).lane object) := by
    rw [inOrder_iff]
    refine ⟨fun hs => hs object, fun hs o => ?_⟩
    by_cases ho : o = object
    · rw [ho]
      exact hs
    · rw [hother o ho]
      exact h o
  rw [hiff, InTurn]
  by_cases hawaits : object ∈ s.objectAwaits
  · have hlane : (s.step (.awaitForId object)).lane object =
        about object s.passed ++ about object s.suspended ++ [⟨object, s.calls⟩] ++
          about object s.resuming := by
      simp only [step, check, if_pos hawaits, lane, about_append, hone, List.append_assoc]
    rw [lane, if_pos hawaits, ← List.append_assoc] at hself hnew
    rw [hlane, ascending_insert_iff hself hnew]
    exact (and_iff_left (.inl hawaits)).symm
  · have hlane : (s.step (.awaitForId object)).lane object =
        about object s.passed ++ [⟨object, s.calls⟩] ++
          (about object s.resuming ++ about object s.suspended) := by
      simp only [step, check, if_neg hawaits, lane, about_append, hone, List.append_assoc]
    rw [lane, if_neg hawaits] at hself hnew
    rw [hlane, ascending_insert_iff hself hnew, List.append_eq_nil_iff, or_iff_right hawaits]

theorem step_inOrder_iff (hall : s.Accounted) (h : s.InOrder) (event : AwaitEvent N) :
    (s.step event).InOrder ↔ s.InTurn event := by
  cases event with
  | addObjectIdAwait object => exact addObjectIdAwait_inOrder_iff h
  | release object => exact release_inOrder_iff h
  | awaitForId object => exact awaitForId_inOrder_iff hall h
  | processFrame =>
    rw [inOrder_iff] at h ⊢
    refine iff_of_true (fun o => ?_) trivial
    rw [processFrame_lane]
    exact h o
  | resume =>
    rw [inOrder_iff] at h ⊢
    refine iff_of_true (fun o => ?_) trivial
    simp only [step]
    split
    · exact h o
    · next call resuming hcalls =>
      rw [resume_lane hcalls]
      exact h o

theorem InOrder.passed (h : s.InOrder) (object : N) : Ascending (about object s.passed) :=
  (ascending_append.1 (inOrder_iff.1 h object)).1

/-- No call is lost and none goes on twice; and the runs in which the calls about an object go on in
the order in which they have been made, whenever its id becomes known, are those in which every
call is in turn. -/
theorem calls_in_order_iff (events : List (AwaitEvent N)) :
    Runs.Always step Accounted (start : IdAwaits N) events ∧
      (Runs.Always step InOrder (start : IdAwaits N) events ↔
        Runs.Guarded step InTurn (start : IdAwaits N) events) ∧
      (Runs.Guarded step InTurn (start : IdAwaits N) events →
        Runs.Always step (fun s => ∀ object, Ascending (about object s.passed))
          (start : IdAwaits N) events) := by
  have hstart : (start : IdAwaits N).Accounted := List.Perm.refl []
  have horder : (start : IdAwaits N).InOrder := inOrder_iff.2 fun object => List.Pairwise.nil
  have hiff : Runs.Always step InOrder (start : IdAwaits N) events ↔
      Runs.Guarded step InTurn (start : IdAwaits N) events :=
    Runs.always_iff_guarded (fun _ event hall _ _ => hall.step event)
      (fun _ event hall h => step_inOrder_iff hall h event) hstart horder
  exact ⟨Runs.always_of_step (fun _ event h => h.step event) hstart events, hiff,
    fun hturn => (hiff.2 hturn).mono fun _ h => h.passed⟩

/-- A call is made between the one before it and the frame that resumes that one. -/
example : ¬ Runs.Always step InOrder (start : IdAwaits Nat)
    [.addObjectIdAwait 5, .awaitForId 5, .release 5, .awaitForId 5] := by
  intro h
  exact absurd (h.last 5).2 (by decide)

theorem step_lane (event : AwaitEvent N) (h : object ∉ s.objectAwaits)
    (hevent : event ≠ .addObjectIdAwait object) :
    object ∉ (s.step event).objectAwaits ∧
      (s.lane object).Sublist ((s.step event).lane object) := by
  cases event with
  | addObjectIdAwait o =>
    have ho : o ≠ object := fun heq => hevent (heq ▸ rfl)
    rw [step]
    split
    · exact ⟨h, List.Sublist.refl _⟩
    · have hmem : object ∈ s.objectAwaits ++ [o] ↔ object ∈ s.objectAwaits := by
        simp [ho.symm]
      rw [lane_congr hmem]
      exact ⟨fun hawaits => h (hmem.1 hawaits), List.Sublist.refl _⟩
  | release o =>
    have hmem : object ∈ s.objectAwaits.filter (· ≠ o) ↔ object ∈ s.objectAwaits :=
      iff_of_false (fun hawaits => h (List.mem_of_mem_filter hawaits)) h
    rw [step, lane_congr hmem]
    exact ⟨fun hawaits => h (hmem.1 hawaits), List.Sublist.refl _⟩
  | awaitForId o =>
    rw [step, check]
    by_cases ho : o = object
    · rw [ho, if_neg h]
      refine ⟨h, ?_⟩
      simp only [lane, if_neg h, about_append, List.append_assoc]
      exact (List.sublist_append_right _ _).append_left _
    · have hone : about object [AwaitingCall.mk o s.calls] = [] := by
        rw [about_cons, if_neg ho, about_nil]
      split
      · simp only [lane, about_append, hone, List.append_nil]
        exact ⟨h, List.Sublist.refl _⟩
      · simp only [lane, about_append, hone, List.append_nil]
        exact ⟨h, List.Sublist.refl _⟩
  | processFrame =>
    rw [processFrame_lane]
    refine ⟨?_, List.Sublist.refl _⟩
    rw [step]
    split
    · exact h
    · exact h
  | resume =>
    simp only [step]
    split
    · exact ⟨h, List.Sublist.refl _⟩
    · next call resuming hcalls =>
      rw [resume_lane hcalls]
      refine ⟨?_, List.Sublist.refl _⟩
      rw [check]
      split
      · exact h
      · exact h

/-- The object is not awaited in the run. -/
theorem guarded_ne {events : List (AwaitEvent N)}
    (hevents : .addObjectIdAwait object ∉ events) :
    Runs.Guarded step (fun _ event => event ≠ .addObjectIdAwait object) s events :=
  Runs.guarded_of_forall fun _ hevent _ heq => hevents (heq ▸ hevent)

theorem run_lane {events : List (AwaitEvent N)} (h : object ∉ s.objectAwaits)
    (hevents : .addObjectIdAwait object ∉ events) :
    object ∉ (Runs.run step s events).objectAwaits ∧
      (s.lane object).Sublist ((Runs.run step s events).lane object) := by
  have hstep (t : IdAwaits N) (event : AwaitEvent N)
      (ht : object ∉ t.objectAwaits ∧ (s.lane object).Sublist (t.lane object))
      (hevent : event ≠ .addObjectIdAwait object) :
      object ∉ (t.step event).objectAwaits ∧
        (s.lane object).Sublist ((t.step event).lane object) := by
    obtain ⟨hknown, hlane⟩ := step_lane event ht.1 hevent
    exact ⟨hknown, ht.2.trans hlane⟩
  exact (Runs.always_of_guarded hstep ⟨h, List.Sublist.refl _⟩ (guarded_ne hevents)).last

theorem step_suspended (event : AwaitEvent N) (h : object ∉ s.objectAwaits)
    (hnone : about object s.suspended = []) : about object (s.step event).suspended = [] := by
  have hcheck (t : IdAwaits N) (call : AwaitingCall N) (hknown : object ∉ t.objectAwaits)
      (hnone : about object t.suspended = []) : about object (t.check call).suspended = [] := by
    rw [check]
    split
    · next hawaits =>
      have ho : call.object ≠ object := fun heq => hknown (heq ▸ hawaits)
      rw [about_append, hnone, about_cons, if_neg ho, about_nil, List.append_nil]
    · exact hnone
  cases event with
  | addObjectIdAwait o =>
    rw [step]
    split
    · exact hnone
    · exact hnone
  | release o => exact hnone
  | awaitForId o => exact hcheck _ _ h hnone
  | processFrame =>
    rw [step]
    split
    · rfl
    · exact hnone
  | resume =>
    simp only [step]
    split
    · exact hnone
    · exact hcheck _ _ h hnone

theorem run_suspended {events : List (AwaitEvent N)} (h : object ∉ s.objectAwaits)
    (hnone : about object s.suspended = []) (hevents : .addObjectIdAwait object ∉ events) :
    about object (Runs.run step s events).suspended = [] := by
  have hstep (t : IdAwaits N) (event : AwaitEvent N)
      (ht : object ∉ t.objectAwaits ∧ about object t.suspended = [])
      (hevent : event ≠ .addObjectIdAwait object) :
      object ∉ (t.step event).objectAwaits ∧ about object (t.step event).suspended = [] :=
    ⟨(step_lane event ht.1 hevent).1, step_suspended event ht.1 ht.2⟩
  exact (Runs.always_of_guarded hstep ⟨h, hnone⟩ (guarded_ne hevents)).last.2

/-- Once the id of an object is known, and as long as it is not awaited again, the calls about it
that wait have gone on when the next frame is over, in the order in which they wait, whatever comes
in between. -/
theorem released_calls_pass (s : IdAwaits N) (before after : List (AwaitEvent N))
    (h : object ∉ s.objectAwaits) (hbefore : .addObjectIdAwait object ∉ before)
    (hafter : .addObjectIdAwait object ∉ after) (hover : (Runs.run step s before).resuming = []) :
    let t := Runs.run step s (before ++ .processFrame :: after)
    t.resuming = [] →
      (about object (s.passed ++ (s.resuming ++ s.suspended))).Sublist (about object t.passed) ∧
        t.Idle object := by
  intro t hnext
  obtain ⟨hknown, _⟩ := run_lane h hbefore
  have hevents : .addObjectIdAwait object ∉ before ++ .processFrame :: after := by
    simp [hbefore, hafter]
  obtain ⟨hknown', hlane⟩ := run_lane h hevents
  have hframe : (Runs.run step s before).step .processFrame =
      { Runs.run step s before with
        resuming := (Runs.run step s before).suspended, suspended := [] } := if_pos hover
  have hnone : about object t.suspended = [] := by
    change about object (Runs.run step s (before ++ .processFrame :: after)).suspended = []
    rw [Runs.run_append, Runs.run_cons, hframe]
    exact run_suspended hknown rfl hafter
  refine ⟨?_, hnone, congrArg (about object) hnext⟩
  change (s.lane object).Sublist (t.lane object) at hlane
  change object ∉ t.objectAwaits at hknown'
  simp only [lane, if_neg h, if_neg hknown', hnext, hnone, about_nil, List.append_nil] at hlane
  simp only [about_append]
  exact hlane

/-- Two calls that wait when the id becomes known. -/
def waitingCalls : IdAwaits Nat := Runs.run step start
  [.addObjectIdAwait 5, .awaitForId 5, .processFrame, .resume, .awaitForId 5, .release 5]

/-- A call about another object comes to wait with them, and one about theirs goes on at once while
they are being resumed. -/
theorem waitingCalls_pass :
    let t := Runs.run step waitingCalls ([.addObjectIdAwait 6, .awaitForId 6] ++
      .processFrame :: [.resume, .awaitForId 5, .resume, .resume])
    t.passed = [⟨5, 0⟩, ⟨5, 3⟩, ⟨5, 1⟩] ∧
      List.Sublist [⟨5, 0⟩, ⟨5, 1⟩] (about 5 t.passed) ∧ t.Idle 5 :=
  ⟨by decide, released_calls_pass waitingCalls [.addObjectIdAwait 6, .awaitForId 6]
    [.resume, .awaitForId 5, .resume, .resume] (by decide : 5 ∉ waitingCalls.objectAwaits)
    (by decide) (by decide) (by decide) (by decide)⟩

end IdAwaits

end Godaemon
