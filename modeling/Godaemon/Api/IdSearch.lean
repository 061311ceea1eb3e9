import Godaemon.Api.Repository

namespace Godaemon
set_option autoImplicit true

namespace Repository

variable {N : Type} {r : Repository N}

/-- The loop that looks for a free id. It has no result within these rounds if it goes on. -/
def searchId (idToObject : Dict Int N) : Nat → Int → Option Int
  | 0, _ => none
  | rounds + 1, currentId =>
    if currentId ∈ idToObject then searchId idToObject rounds (nextId currentId)
    else some currentId

theorem searchId_eq_freeId (used : Dict Int N) (h : freeId used fuel i ∉ used) :
    searchId used (fuel + 1) i = some (freeId used fuel i) := by
  induction fuel generalizing i with
  | zero =>
    unfold freeId at h ⊢
    rw [searchId, if_neg h]
  | succ fuel ih =>
    unfold freeId at h ⊢
    unfold searchId
    by_cases hi : i ∈ used
    · rw [if_pos hi] at h ⊢
      rw [if_pos hi]
      exact ih h
    · rw [if_neg hi, if_neg hi]

theorem searchId_mono (h : searchId used fuel i = some j) (hf : fuel ≤ fuel') :
    searchId used fuel' i = some j := by
  induction fuel generalizing i fuel' with
  | zero => cases h
  | succ fuel ih =>
    obtain ⟨fuel', rfl⟩ := Nat.exists_eq_add_of_le' (Nat.le_trans (Nat.le_add_left 1 fuel) hf)
    unfold searchId at h ⊢
    split at h
    · next hi =>
      rw [if_pos hi]
      exact ih h (Nat.le_of_succ_le_succ hf)
    · next hi =>
      rw [if_neg hi]
      exact h

/-- What the search relies on: where it resumes is an id, only ids are in use, and no more of
them than there are objects. -/
structure Searchable (r : Repository N) : Prop where
  cursor : 0 ≤ r.currentId ∧ r.currentId < maxId
  keys : ∀ i, i ∈ r.idToObject → 0 ≤ i ∧ i < maxId
  size : r.idToObject.size ≤ r.objectToId.size

theorem Searchable.allocatedId_free (h : Searchable r) (hs : (r.objectToId.size : Int) < maxId) :
    r.allocatedId ∉ r.idToObject := by
  have hsize := h.size
  exact freeId_free _ h.cursor (by omega) (by omega)

/-- A repository within its capacity gives every object an id that was free. -/
theorem addObject_allocates [DecidableEq N] (h : Searchable r)
    (hs : (r.objectToId.size : Int) < maxId) (object : N) :
    ∃ id, (∃ rounds, ∀ fuel ≥ rounds, searchId r.idToObject fuel r.currentId = some id) ∧
      (r.addObject object).1 = id ∧ id ∉ r.idToObject ∧ (0 ≤ id ∧ id < maxId) ∧
      (r.addObject object).2.objectToId.get? object = some id ∧
      (r.addObject object).2.idToObject.get? id = some object ∧
      (∀ n, n ≠ object → (r.addObject object).2.objectToId.get? n = r.objectToId.get? n) ∧
      (∀ i, i ≠ id → (r.addObject object).2.idToObject.get? i = r.idToObject.get? i) ∧
      (0 ≤ (r.addObject object).2.currentId ∧ (r.addObject object).2.currentId < maxId) ∧
      ∀ i, i ∈ (r.addObject object).2.idToObject → 0 ≤ i ∧ i < maxId := by
  have hfree := h.allocatedId_free hs
  have hrange := allocatedId_range h.cursor
  refine ⟨r.allocatedId, ⟨_, fun fuel hf => searchId_mono (searchId_eq_freeId _ hfree) hf⟩, ?_⟩
  simp only [addObject, ↓reduceIte, Dict.get?_set_self, Dict.mem_set, true_and]
  refine ⟨hfree, hrange, ?_, ?_, hrange, ?_⟩
  · intro n hn
    exact Dict.get?_set_ne _ hn
  · intro i hi
    exact Dict.get?_set_ne _ hi
  · intro i hi
    rcases hi with rfl | hi
    · exact hrange
    · exact h.keys i hi

/-- The last id is in use, and so is the first: the search wraps around. -/
theorem addObject_wraps :
    let r : Repository Nat :=
      ⟨.ofPairs [(0, maxId - 1), (1, 0)], .ofPairs [(maxId - 1, 0), (0, 1)], maxId - 1⟩
    ∃ rounds, searchId r.idToObject rounds r.currentId = some 1 := by
  intro r
  have hsearchable : Searchable r := by
    refine ⟨by decide, fun i hi => ?_, by decide⟩
    have hi : i ∈ r.idToObject.keys := hi
    rw [show r.idToObject.keys = [maxId - 1, 0] from rfl, List.mem_cons, List.mem_singleton] at hi
    rw [maxId_eq] at *
    omega
  obtain ⟨id, ⟨rounds, hsearch⟩, hid, _⟩ := addObject_allocates hsearchable (by decide) 2
  have hone : (r.addObject 2).1 = 1 := by decide
  rw [hone] at hid
  subst hid
  exact ⟨rounds, hsearch rounds (Nat.le_refl _)⟩

end Repository

end Godaemon
