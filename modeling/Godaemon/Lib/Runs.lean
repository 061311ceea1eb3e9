import Mathlib.Data.List.Basic

set_option autoImplicit true

namespace Runs

variable {σ : Type u} {ι : Type v} (step : σ → ι → σ)

/-- Feed a list of inputs to a step function. -/
def run (s : σ) (is : List ι) : σ := is.foldl step s

/-- Every input of the list meets a condition in the state in which it is consumed. -/
def Guarded (guard : σ → ι → Prop) : σ → List ι → Prop
  | _, [] => True
  | s, i :: is => guard s i ∧ Guarded guard (step s i) is

/-- A property holds before the first input and after every one. -/
def Always (P : σ → Prop) : σ → List ι → Prop
  | s, [] => P s
  | s, i :: is => P s ∧ Always P (step s i) is

@[simp] theorem run_nil (s : σ) : run step s [] = s := rfl

@[simp] theorem run_cons (s : σ) (i : ι) (is : List ι) :
    run step s (i :: is) = run step (step s i) is := rfl

@[simp] theorem run_append (s : σ) (is js : List ι) :
    run step s (is ++ js) = run step (run step s is) js := List.foldl_append

variable {step}

theorem guarded_append {guard : σ → ι → Prop} {js : List ι} :
    Guarded step guard s (is ++ js) ↔
      Guarded step guard s is ∧ Guarded step guard (run step s is) js := by
  induction is generalizing s with
  | nil => exact (and_iff_right trivial).symm
  | cons i is ih => exact (and_congr_right fun _ => ih).trans and_assoc.symm

theorem guarded_congr {guard guard' : σ → ι → Prop} (h : ∀ s i, guard s i ↔ guard' s i) :
    Guarded step guard s is ↔ Guarded step guard' s is := by
  induction is generalizing s with
  | nil => exact Iff.rfl
  | cons i is ih => exact and_congr (h s i) ih

theorem guarded_and {guard guard' : σ → ι → Prop} :
    Guarded step (fun s i => guard s i ∧ guard' s i) s is ↔
      Guarded step guard s is ∧ Guarded step guard' s is := by
  induction is generalizing s with
  | nil => exact ⟨fun _ => ⟨trivial, trivial⟩, fun _ => trivial⟩
  | cons i is ih =>
    simp only [Guarded, ih]
    exact and_and_and_comm

theorem guarded_of_forall {guard : σ → ι → Prop} (h : ∀ i ∈ is, ∀ s, guard s i) :
    Guarded step guard s is := by
  induction is generalizing s with
  | nil => trivial
  | cons i is ih =>
    exact ⟨h i List.mem_cons_self s, ih fun j hj => h j (List.mem_cons_of_mem i hj)⟩

theorem guarded_forall {P : κ → Prop} {guard : κ → σ → ι → Prop} :
    Guarded step (fun s i => ∀ k, P k → guard k s i) s is ↔
      ∀ k, P k → Guarded step (guard k) s is := by
  induction is generalizing s with
  | nil => exact ⟨fun _ _ _ => trivial, fun _ => trivial⟩
  | cons i is ih =>
    simp only [Guarded, ih]
    exact ⟨fun h k hk => ⟨h.1 k hk, h.2 k hk⟩, fun h => ⟨fun k hk => (h k hk).1,
      fun k hk => (h k hk).2⟩⟩

theorem Always.head {P : σ → Prop} (h : Always step P s is) : P s := by
  cases is with
  | nil => exact h
  | cons i is => exact h.1

theorem Always.last {P : σ → Prop} (h : Always step P s is) : P (run step s is) := by
  induction is generalizing s with
  | nil => exact h
  | cons i is ih => exact ih h.2

theorem Always.mono {P Q : σ → Prop} (hPQ : ∀ s, P s → Q s) (h : Always step P s is) :
    Always step Q s is := by
  induction is generalizing s with
  | nil => exact hPQ s h
  | cons i is ih => exact ⟨hPQ s h.1, ih h.2⟩

/-- The invariant rule: what every step preserves holds along every run. -/
theorem always_of_step {P : σ → Prop} (hstep : ∀ s i, P s → P (step s i)) (hs : P s)
    (is : List ι) : Always step P s is := by
  induction is generalizing s with
  | nil => exact hs
  | cons i is ih => exact ⟨hs, ih (hstep s i hs)⟩

theorem always_of_guarded {P : σ → Prop} {guard : σ → ι → Prop}
    (hstep : ∀ s i, P s → guard s i → P (step s i)) (hs : P s) (hg : Guarded step guard s is) :
    Always step P s is := by
  induction is generalizing s with
  | nil => exact hs
  | cons i is ih => exact ⟨hs, ih (hstep s i hs hg.1) hg.2⟩

/-- If, under an invariant, a step keeps a property exactly when it is guarded, then a run keeps
the property throughout exactly when it is guarded throughout. -/
theorem always_iff_guarded {I P : σ → Prop} {guard : σ → ι → Prop}
    (hI : ∀ s i, I s → P s → guard s i → I (step s i))
    (hP : ∀ s i, I s → P s → (P (step s i) ↔ guard s i)) (his : I s) (hps : P s) :
    Always step P s is ↔ Guarded step guard s is := by
  induction is generalizing s with
  | nil => exact ⟨fun _ => trivial, fun _ => hps⟩
  | cons i is ih =>
    constructor
    · intro h
      have hg := (hP s i his hps).1 h.2.head
      exact ⟨hg, (ih (hI s i his hps hg) h.2.head).1 h.2⟩
    · intro h
      have hps' := (hP s i his hps).2 h.1
      exact ⟨hps, (ih (hI s i his hps h.1) hps').2 h.2⟩

end Runs
