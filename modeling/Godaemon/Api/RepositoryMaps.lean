import Godaemon.Lib.Runs
import Godaemon.Api.Repository

namespace Godaemon
set_option autoImplicit true

/-- The ids that a caller may name. -/
abbrev ObjectId := {i : Int // 0 ≤ i ∧ i < maxId}

/-- A repository together with the objects that the engine has freed. -/
structure RepositoryWorld (N : Type) where
  repository : Repository N
  freed : List N

inductive RepositoryCall (N : Type) where
  | addObject (object : N) (objectId : Option ObjectId)
  | removeObject (object : N)
  | removeObjectId (id : Int)
  | getObject (id : Int)
  | free (object : N)

namespace Repository

variable {N : Type} [DecidableEq N] {r : Repository N}

instance (r : Repository N) (object : N) : Decidable (r.CanAdd object) :=
  inferInstanceAs (Decidable (_ ∧ _))

theorem addObject_of_id (r : Repository N) (n : N) (objectId : ObjectId) :
    (r.addObject n objectId.val).2 =
      ⟨r.objectToId.set n objectId.val, r.idToObject.set objectId.val n, r.currentId⟩ := by
  have hne : objectId.val ≠ -1 := by
    have hr := objectId.property.1
    omega
  simp only [Repository.addObject, if_neg hne]

theorem backed_set (h : Backed r) (hn : n ∉ r.objectToId) (hc : 0 ≤ c ∧ c < maxId) :
    Backed ⟨r.objectToId.set n j, r.idToObject.set j n, c⟩ := by
  refine ⟨fun m i hm => ?_, hc⟩
  simp only [Dict.get?_set] at hm ⊢
  by_cases hi : i = j
  · rw [if_pos hi] at hm
    cases hm
    rw [if_pos rfl, hi]
  · rw [if_neg hi] at hm
    have hi := h.backed m i hm
    have hne : m ≠ n := by
      intro he
      subst he
      exact hn ((Dict.mem_iff_get? _).2 ⟨i, hi⟩)
    rw [if_neg hne, hi]

theorem Backed.addObject (h : Backed r) (hadd : r.CanAdd n) (objectId : Int) :
    Backed (r.addObject n objectId).2 := by
  apply backed_set h hadd.1
  split
  · exact allocatedId_range h.cursor
  · exact h.cursor

theorem Backed.erase (h : Backed r) (hn : r.objectToId.get? n = some i) :
    Backed ⟨r.objectToId.erase n, r.idToObject.erase i, r.currentId⟩ := by
  refine ⟨fun m j hm => ?_, h.cursor⟩
  simp only [Dict.get?_erase] at hm ⊢
  by_cases hj : j = i
  · rw [if_pos hj] at hm
    cases hm
  · rw [if_neg hj] at hm
    have hback := h.backed m j hm
    have hne : m ≠ n := by
      intro he
      rw [he, hn] at hback
      exact hj (Option.some.inj hback).symm
    rw [if_neg hne, hback]

theorem Backed.removeObject (h : Backed r) (hn : n ∈ r.objectToId) : Backed (r.removeObject n) := by
  obtain ⟨i, hi⟩ := (Dict.mem_iff_get? _).1 hn
  simp only [Repository.removeObject, hi]
  exact h.erase hi

theorem Backed.removeObjectId (h : Backed r) (hi : i ∈ r.idToObject) :
    Backed (r.removeObjectId i) := by
  obtain ⟨n, hn⟩ := (Dict.mem_iff_get? _).1 hi
  simp only [Repository.removeObjectId, hn]
  exact h.erase (h.backed n i hn)

theorem Backed.getObject (h : Backed r) (isInstanceValid : N → Bool) (i : Int) :
    Backed (r.getObject isInstanceValid i).2 := by
  unfold Repository.getObject
  split
  · exact h
  · split
    · exact h
    · refine ⟨fun m j hm => ?_, h.cursor⟩
      rw [Dict.get?_erase] at hm
      split at hm
      · cases hm
      · exact h.backed m j hm

end Repository

namespace RepositoryWorld

variable {N : Type} [DecidableEq N] (s : RepositoryWorld N)

def isInstanceValid (object : N) : Bool := object ∉ s.freed

/-- A call whose assertions fail has no effect. The engine does not pass a freed object on. -/
def step (s : RepositoryWorld N) : RepositoryCall N → RepositoryWorld N
  | .addObject object objectId =>
    if s.isInstanceValid object ∧ s.repository.CanAdd object then
      { s with repository := (s.repository.addObject object (objectId.elim (-1) (·.val))).2 }
    else s
  | .removeObject object =>
    if s.isInstanceValid object ∧ object ∈ s.repository.objectToId then
      { s with repository := s.repository.removeObject object }
    else s
  | .removeObjectId id =>
    if id ∈ s.repository.idToObject then { s with repository := s.repository.removeObjectId id }
    else s
  | .getObject id => { s with repository := (s.repository.getObject s.isInstanceValid id).2 }
  | .free object => { s with freed := object :: s.freed }

def new (freed : List N) : RepositoryWorld N := ⟨.new, freed⟩

/-- The maps are inverse to each other on live objects, and have equally many entries. -/
structure MutuallyInverse : Prop where
  inverse : ∀ n i, s.isInstanceValid n = true →
    (s.repository.objectToId.get? n = some i ↔ s.repository.idToObject.get? i = some n)
  distinct : ∀ n m i, s.isInstanceValid n = true → s.isInstanceValid m = true →
    s.repository.objectToId.get? n = some i → s.repository.objectToId.get? m = some i → n = m
  size : s.repository.objectToId.size = s.repository.idToObject.size

/-- An id that a caller names is not in use, and no freed object is looked up. -/
def Admits : RepositoryCall N → Prop
  | .addObject object (some objectId) =>
    s.isInstanceValid object ∧ s.repository.CanAdd object → objectId.val ∉ s.repository.idToObject
  | .getObject id => ∀ object, s.repository.idToObject.get? id = some object →
    s.isInstanceValid object = true
  | _ => True

variable {s}

theorem backed_step (h : s.repository.Backed) (call : RepositoryCall N) :
    (s.step call).repository.Backed := by
  cases call with
  | addObject object objectId =>
    simp only [step]
    split
    · next hc => exact h.addObject hc.2 _
    · exact h
  | removeObject object =>
    simp only [step]
    split
    · next hc => exact h.removeObject hc.2
    · exact h
  | removeObjectId id =>
    simp only [step]
    split
    · next hc => exact h.removeObjectId hc
    · exact h
  | getObject id => exact h.getObject _ id
  | free object => exact h

theorem backed_run (freed : List N) (calls : List (RepositoryCall N)) :
    (Runs.run step (new freed) calls).repository.Backed := by
  have hstep (s : RepositoryWorld N) (call : RepositoryCall N) (h : s.repository.Backed) :
      (s.step call).repository.Backed := backed_step h call
  exact (Runs.always_of_step hstep Repository.Coherent.new.backed calls).last

theorem allocatedId_free_run (freed : List N) (calls : List (RepositoryCall N)) :
    let r := (Runs.run step (new freed) calls).repository
    (r.objectToId.size : Int) < maxId → r.allocatedId ∉ r.idToObject :=
  (backed_run freed calls).allocatedId_free

theorem mutuallyInverse_iff (h : s.repository.Coherent) : s.MutuallyInverse ↔
    s.repository.objectToId.size = s.repository.idToObject.size := by
  constructor
  · intro hm
    exact hm.size
  · intro hsize
    refine ⟨fun n i _ => h.inverse n i, fun n m i _ _ hn hm => ?_, hsize⟩
    rw [h.inverse] at hn hm
    rw [hn] at hm
    exact Option.some.inj hm

theorem coherent_step (h : s.repository.Coherent) (call : RepositoryCall N)
    (ha : s.Admits call) : (s.step call).repository.Coherent := by
  cases call with
  | addObject object objectId =>
    simp only [step]
    split
    · next hc =>
      cases objectId with
      | none => exact h.addObject hc.2
      | some objectId =>
        simp only [Option.elim_some, Repository.addObject_of_id]
        exact h.assign hc.2.1 (ha hc) objectId.property h.cursor
    · exact h
  | removeObject object =>
    simp only [step]
    split
    · next hc => exact h.removeObject hc.2
    · exact h
  | removeObjectId id =>
    simp only [step]
    split
    · next hc =>
      obtain ⟨n, hn⟩ := (Dict.mem_iff_get? _).1 hc
      rw [h.removeObjectId_eq hn]
      exact h.removeObject ((Dict.mem_iff_get? _).2 ⟨id, (h.inverse n id).2 hn⟩)
    · exact h
  | getObject id =>
    simp only [step, Repository.getObject_of_valid ha]
    exact h
  | free object => exact h

/-- An object that is added keeps the maps equally large if its id is not in use. -/
theorem size_addObject_iff {r : Repository N} (hsize : r.objectToId.size = r.idToObject.size)
    (hn : n ∉ r.objectToId) (i : ObjectId) :
    (r.addObject n i.val).2.objectToId.size = (r.addObject n i.val).2.idToObject.size ↔
      i.val ∉ r.idToObject := by
  simp only [Repository.addObject_of_id, Dict.size_set, if_neg hn, hsize]
  split
  · next hused => simp [hused]
  · next hfree => simp [hfree]

theorem size_removeObject {r : Repository N} (h : r.Coherent) (hn : n ∈ r.objectToId)
    (hsize : r.objectToId.size = r.idToObject.size) :
    (r.removeObject n).objectToId.size = (r.removeObject n).idToObject.size := by
  obtain ⟨i, hi⟩ := (Dict.mem_iff_get? _).1 hn
  have hid : i ∈ r.idToObject := (Dict.mem_iff_get? _).2 ⟨n, (h.inverse n i).1 hi⟩
  have h1 := Dict.size_erase _ hn
  have h2 := Dict.size_erase _ hid
  simp only [Repository.removeObject, hi]
  omega

omit [DecidableEq N] in
theorem size_getObject_iff {r : Repository N} {isInstanceValid : N → Bool}
    (hsize : r.objectToId.size = r.idToObject.size) :
    (r.getObject isInstanceValid i).2.objectToId.size =
        (r.getObject isInstanceValid i).2.idToObject.size ↔
      ∀ n, r.idToObject.get? i = some n → isInstanceValid n = true := by
  unfold Repository.getObject
  cases hi : r.idToObject.get? i with
  | none => simp [hsize]
  | some n =>
    by_cases hv : isInstanceValid n = true
    · simp [hv, hsize]
    · have hlen := Dict.size_erase _ ((Dict.mem_iff_get? _).2 ⟨n, hi⟩)
      simp only [hv, Bool.false_eq_true, ↓reduceIte, Option.some.injEq, forall_eq', iff_false]
      omega

theorem size_step_iff (h : s.repository.Coherent)
    (hsize : s.repository.objectToId.size = s.repository.idToObject.size)
    (call : RepositoryCall N) :
    (s.step call).repository.objectToId.size = (s.step call).repository.idToObject.size ↔
      s.Admits call := by
  cases call with
  | addObject object objectId =>
    simp only [step]
    by_cases hc : s.isInstanceValid object ∧ s.repository.CanAdd object
    · rw [if_pos hc]
      cases objectId with
      | none =>
        have hfree := h.allocatedId_free hc.2.2
        simp only [Option.elim_none, Repository.addObject, ↓reduceIte, Dict.size_set,
          if_neg hc.2.1, if_neg hfree, hsize, Admits]
      | some objectId =>
        rw [Option.elim_some, size_addObject_iff hsize hc.2.1]
        exact ⟨fun hfree _ => hfree, fun hfree => hfree hc⟩
    · rw [if_neg hc]
      cases objectId with
      | none => exact ⟨fun _ => trivial, fun _ => hsize⟩
      | some objectId => exact ⟨fun _ ha => absurd ha hc, fun _ => hsize⟩
  | removeObject object =>
    refine ⟨fun _ => trivial, fun _ => ?_⟩
    simp only [step]
    split
    · next hc => exact size_removeObject h hc.2 hsize
    · exact hsize
  | removeObjectId id =>
    refine ⟨fun _ => trivial, fun _ => ?_⟩
    simp only [step]
    split
    · next hc =>
      obtain ⟨n, hn⟩ := (Dict.mem_iff_get? _).1 hc
      rw [h.removeObjectId_eq hn]
      exact size_removeObject h ((Dict.mem_iff_get? _).2 ⟨id, (h.inverse n id).2 hn⟩) hsize
    · exact hsize
  | getObject id => exact size_getObject_iff hsize
  | free object => exact ⟨fun _ => trivial, fun _ => hsize⟩

/-- The maps are inverse to each other throughout exactly if no caller names an id that is in use
and none looks up an object that has been freed. -/
theorem mutuallyInverse_iff_guarded (freed : List N) (calls : List (RepositoryCall N)) :
    Runs.Always step MutuallyInverse (new freed) calls ↔
      Runs.Guarded step Admits (new freed) calls := by
  apply Runs.always_iff_guarded (I := fun s => s.repository.Coherent)
  · intro s call h _ ha
    exact coherent_step h call ha
  · intro s call h hm
    rw [mutuallyInverse_iff h] at hm
    constructor
    · intro hm'
      exact (size_step_iff h hm call).1 hm'.size
    · intro ha
      rw [mutuallyInverse_iff (coherent_step h call ha)]
      exact (size_step_iff h hm call).2 ha
  · exact Repository.Coherent.new
  · exact (mutuallyInverse_iff Repository.Coherent.new).2 rfl

/-- Two objects can be given one id. -/
theorem same_id_twice :
    ¬ Runs.Always step MutuallyInverse (new ([] : List Nat))
      [.addObject 0 (some ⟨5, by decide⟩), .addObject 1 (some ⟨5, by decide⟩)] := by
  intro h
  have hd := h.last.distinct 0 1 5 (by decide) (by decide) (by decide) (by decide)
  cases hd

end RepositoryWorld

end Godaemon
