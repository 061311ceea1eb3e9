import Mathlib.Algebra.Order.Ring.Int
import Mathlib.Data.List.Perm.Subperm
import Godaemon.Lib.Dict

namespace Godaemon
set_option autoImplicit true

/-- The width of a repository id, in bits and bytes. -/
def maxBits : Nat := 32
def maxBytes : Nat := maxBits / 8
def maxId : Int := 2 ^ maxBits

theorem maxId_eq : maxId = 4294967296 := rfl

/-- The ids of the registered objects, and where the search for a free id resumes. -/
structure Repository (N : Type) where
  objectToId : Dict N Int
  idToObject : Dict Int N
  currentId : Int

namespace Repository

variable {N : Type} [DecidableEq N]

def new : Repository N := ⟨.empty, .empty, 0⟩

def nextId (currentId : Int) : Int := if currentId + 1 ≥ maxId then 0 else currentId + 1

/-- The search for a free id, for a bounded number of rounds. -/
def freeId (idToObject : Dict Int N) : Nat → Int → Int
  | 0, currentId => currentId
  | fuel + 1, currentId =>
    if currentId ∈ idToObject then freeId idToObject fuel (nextId currentId) else currentId

/-- The id that the next object without an id of its own is given. -/
def allocatedId (r : Repository N) : Int :=
  freeId r.idToObject (r.objectToId.size + 1) r.currentId

/-- The source asserts this before it adds an object. Its further assertion on an explicit id
looks the id up among the objects, where it never is. -/
def CanAdd (r : Repository N) (object : N) : Prop :=
  object ∉ r.objectToId ∧ (r.objectToId.size : Int) < maxId

/-- Add an object; the id `-1` asks for a free one. -/
def addObject (r : Repository N) (object : N) (objectId : Int := -1) : Int × Repository N :=
  let currentId := if objectId = -1 then r.allocatedId else r.currentId
  let objectId := if objectId = -1 then currentId else objectId
  (objectId, ⟨r.objectToId.set object objectId, r.idToObject.set objectId object, currentId⟩)

def removeObject (r : Repository N) (object : N) : Repository N :=
  ⟨r.objectToId.erase object,
    match r.objectToId.get? object with
    | some objectId => r.idToObject.erase objectId
    | none => r.idToObject,
    r.currentId⟩

def removeObjectId (r : Repository N) (id : Int) : Repository N :=
  ⟨match r.idToObject.get? id with
    | some object => r.objectToId.erase object
    | none => r.objectToId,
    r.idToObject.erase id,
    r.currentId⟩

/-- The object of an id. An object that the engine has freed is dropped when it is met. -/
def getObject (r : Repository N) (isInstanceValid : N → Bool) (id : Int) :
    Option N × Repository N :=
  match r.idToObject.get? id with
  | none => (none, r)
  | some object =>
    if isInstanceValid object then (some object, r)
    else (none, { r with idToObject := r.idToObject.erase id })

def getId (r : Repository N) (object : N) : Int := r.objectToId.getD object (-1)

omit [DecidableEq N] in
theorem getObject_fst (r : Repository N) (isInstanceValid : N → Bool) (id : Int) :
    (r.getObject isInstanceValid id).1 = (r.idToObject.get? id).filter isInstanceValid := by
  rw [getObject]
  cases r.idToObject.get? id with
  | none => rfl
  | some object =>
    simp only [Option.filter_some]
    split
    · rfl
    · rfl

omit [DecidableEq N] in
theorem getObject_getObject (r : Repository N) (isInstanceValid : N → Bool) (id i : Int) :
    ((r.getObject isInstanceValid id).2.getObject isInstanceValid i).1 =
      (r.getObject isInstanceValid i).1 := by
  rw [getObject_fst, getObject_fst, getObject]
  cases hid : r.idToObject.get? id with
  | none => rfl
  | some object =>
    by_cases hvalid : isInstanceValid object = true
    · simp only [hvalid, ↓reduceIte]
    · simp only [hvalid, Bool.false_eq_true, ↓reduceIte, Dict.get?_erase]
      by_cases hi : i = id
      · rw [if_pos hi, hi, hid, Option.filter_some_neg (Bool.eq_false_iff.2 hvalid)]
        rfl
      · rw [if_neg hi]

omit [DecidableEq N] in
theorem get?_of_getObject (r : Repository N) (isInstanceValid : N → Bool) (id i : Int) (n : N)
    (h : (r.getObject isInstanceValid id).2.idToObject.get? i = some n) :
    r.idToObject.get? i = some n := by
  rw [getObject] at h
  cases hid : r.idToObject.get? id with
  | none =>
    rw [hid] at h
    exact h
  | some object =>
    rw [hid] at h
    by_cases hvalid : isInstanceValid object = true
    · simp only [hvalid, ↓reduceIte] at h
      exact h
    · simp only [hvalid, Bool.false_eq_true, ↓reduceIte, Dict.get?_erase] at h
      split at h
      · cases h
      · exact h

omit [DecidableEq N] in
theorem getObject_of_valid {r : Repository N} {isInstanceValid : N → Bool} {id : Int}
    (h : ∀ n, r.idToObject.get? id = some n → isInstanceValid n = true) :
    r.getObject isInstanceValid id = (r.idToObject.get? id, r) := by
  unfold getObject
  cases hg : r.idToObject.get? id with
  | none => rfl
  | some n => simp only [h n hg, ↓reduceIte]

omit [DecidableEq N] in
theorem getObject_of_some {r : Repository N} {isInstanceValid : N → Bool} {id : Int}
    (h : (r.getObject isInstanceValid id).1 = some n) :
    r.getObject isInstanceValid id = (some n, r) ∧ r.idToObject.get? id = some n := by
  unfold getObject at h ⊢
  cases hg : r.idToObject.get? id with
  | none =>
    rw [hg] at h
    cases h
  | some m =>
    rw [hg] at h
    by_cases hv : isInstanceValid m = true
    · simp only [hv, ↓reduceIte] at h ⊢
      exact ⟨Prod.ext h rfl, h⟩
    · simp only [hv, Bool.false_eq_true, ↓reduceIte] at h
      cases h

/-- The two maps are inverse to each other, and all ids are in range. -/
structure Coherent (r : Repository N) : Prop where
  inverse : ∀ n i, r.objectToId.get? n = some i ↔ r.idToObject.get? i = some n
  range : ∀ n i, r.objectToId.get? n = some i → 0 ≤ i ∧ i < maxId
  cursor : 0 ≤ r.currentId ∧ r.currentId < maxId

/-- What an id stands for has that id. -/
structure Backed (r : Repository N) : Prop where
  backed : ∀ n i, r.idToObject.get? i = some n → r.objectToId.get? n = some i
  cursor : 0 ≤ r.currentId ∧ r.currentId < maxId

variable {r : Repository N}

theorem Coherent.new : Coherent (new : Repository N) :=
  ⟨fun n i => by simp [Repository.new], fun n i h => by simp [Repository.new] at h,
    by simp [Repository.new, maxId_eq]⟩

theorem getId_eq_iff (hi : i ≠ -1) : r.getId n = i ↔ r.objectToId.get? n = some i := by
  unfold getId Dict.getD
  cases r.objectToId.get? n with
  | none => simp [Ne.symm hi]
  | some j => simp

theorem Coherent.getId_of_mem (h : Coherent r) (hn : n ∈ r.objectToId) :
    0 ≤ r.getId n ∧ r.getId n < maxId ∧ r.idToObject.get? (r.getId n) = some n := by
  obtain ⟨i, hi⟩ := (Dict.mem_iff_get? _).1 hn
  have hr := h.range n i hi
  rw [(getId_eq_iff (by omega)).2 hi]
  exact ⟨hr.1, hr.2, (h.inverse n i).1 hi⟩

theorem Coherent.getId_inj (h : Coherent r) (hn : n ∈ r.objectToId) (hm : m ∈ r.objectToId)
    (he : r.getId n = r.getId m) : n = m := by
  have h1 := (h.getId_of_mem hn).2.2
  rw [he, (h.getId_of_mem hm).2.2] at h1
  exact (Option.some.inj h1).symm

theorem nextId_eq (h : 0 ≤ i ∧ i < maxId) : nextId i = (i + 1) % maxId := by
  unfold nextId
  rw [maxId_eq] at *
  split <;> omega

omit [DecidableEq N] in
theorem freeId_spec (used : Dict Int N) (fuel : Nat) (h : 0 ≤ i ∧ i < maxId) :
    freeId used fuel i ∉ used ∨ ∀ k < fuel, (i + k) % maxId ∈ used := by
  induction fuel generalizing i with
  | zero => exact .inr (fun k hk => by omega)
  | succ fuel ih =>
    unfold freeId
    by_cases hi : i ∈ used
    · rw [if_pos hi, nextId_eq h]
      rw [maxId_eq] at *
      have hr : 0 ≤ (i + 1) % 4294967296 ∧ (i + 1) % 4294967296 < 4294967296 := by omega
      rcases ih hr with hf | hall
      · exact .inl hf
      · refine .inr (fun k hk => ?_)
        cases k with
        | zero =>
          have he : (i + (0 : Nat)) % 4294967296 = i := by omega
          rw [he]
          exact hi
        | succ k =>
          have he : (i + (k + 1 : Nat)) % 4294967296 =
              ((i + 1) % 4294967296 + k) % 4294967296 := by omega
          rw [he]
          exact hall k (by omega)
    · rw [if_neg hi]
      exact .inl hi

omit [DecidableEq N] in
theorem freeId_range (used : Dict Int N) (fuel : Nat) (h : 0 ≤ i ∧ i < maxId) :
    0 ≤ freeId used fuel i ∧ freeId used fuel i < maxId := by
  induction fuel generalizing i with
  | zero => exact h
  | succ fuel ih =>
    unfold freeId
    split
    · apply ih
      rw [nextId_eq h]
      rw [maxId_eq] at *
      omega
    · exact h

omit [DecidableEq N] in
/-- The search finds a free id, wherever it resumes: it meets more ids than are in use. -/
theorem freeId_free (used : Dict Int N) (h : 0 ≤ i ∧ i < maxId) (hs : (used.size : Int) < maxId)
    (hf : used.size < fuel) : freeId used fuel i ∉ used := by
  rcases freeId_spec used fuel h with hfree | hall
  · exact hfree
  · exfalso
    let ids : List Int := (List.range (used.size + 1)).map (fun k : Nat => (i + k) % maxId)
    have hnodup : ids.Nodup := by
      refine List.Nodup.map_on ?_ List.nodup_range
      intro a ha b hb hab
      rw [List.mem_range] at ha hb
      rw [maxId_eq] at *
      omega
    have hsub : ids ⊆ used.keys := by
      intro j hj
      obtain ⟨k, hk, rfl⟩ := List.mem_map.1 hj
      exact hall k (Nat.lt_of_lt_of_le (List.mem_range.1 hk) hf)
    have hlen := (hnodup.subperm hsub).length_le
    simp only [ids, List.length_map, List.length_range, Dict.keys] at hlen
    exact absurd hlen (Nat.not_succ_le_self _)

theorem Backed.size_le (h : Backed r) : r.idToObject.size ≤ r.objectToId.size := by
  have hobjects : (r.idToObject.keys.map r.idToObject.get?).Nodup := by
    refine r.idToObject.nodup_keys.map_on (fun a ha b hb hab => ?_)
    obtain ⟨n, hn⟩ := (Dict.mem_iff_get? _).1 ha
    have hb := h.backed n b (hab ▸ hn)
    rw [h.backed n a hn] at hb
    exact Option.some.inj hb
  have hsub : r.idToObject.keys.map r.idToObject.get? ⊆ r.objectToId.keys.map some := by
    intro o ho
    obtain ⟨i, hi, rfl⟩ := List.mem_map.1 ho
    obtain ⟨n, hn⟩ := (Dict.mem_iff_get? _).1 hi
    rw [hn]
    exact List.mem_map_of_mem ((Dict.mem_iff_get? _).2 ⟨i, h.backed n i hn⟩)
  have hlen := (hobjects.subperm hsub).length_le
  simpa only [List.length_map, Dict.keys, Dict.size] using hlen

theorem Backed.allocatedId_free (h : Backed r) (hs : (r.objectToId.size : Int) < maxId) :
    r.allocatedId ∉ r.idToObject := by
  have hsize := h.size_le
  exact freeId_free _ h.cursor (by omega) (by omega)

theorem Coherent.backed (h : Coherent r) : Backed r :=
  ⟨fun n i => (h.inverse n i).2, h.cursor⟩

theorem Coherent.allocatedId_free (h : Coherent r) (hs : (r.objectToId.size : Int) < maxId) :
    r.allocatedId ∉ r.idToObject := h.backed.allocatedId_free hs

omit [DecidableEq N] in
theorem allocatedId_range (h : 0 ≤ r.currentId ∧ r.currentId < maxId) :
    0 ≤ r.allocatedId ∧ r.allocatedId < maxId := freeId_range _ _ h

theorem Coherent.assign (h : Coherent r) (hn : n ∉ r.objectToId) (hj : j ∉ r.idToObject)
    (hrange : 0 ≤ j ∧ j < maxId) (hc : 0 ≤ c ∧ c < maxId) :
    Coherent ⟨r.objectToId.set n j, r.idToObject.set j n, c⟩ := by
  refine ⟨fun m i => ?_, fun m i hm => ?_, hc⟩
  · simp only [Dict.get?_set]
    by_cases hm : m = n
    · subst hm
      rw [if_pos rfl]
      by_cases hi : i = j
      · simp [hi]
      · rw [if_neg hi]
        constructor
        · intro he
          exact absurd (Option.some.inj he).symm hi
        · intro he
          exact absurd ((Dict.mem_iff_get? _).2 ⟨i, (h.inverse m i).2 he⟩) hn
    · rw [if_neg hm]
      by_cases hi : i = j
      · subst hi
        rw [if_pos rfl]
        constructor
        · intro he
          exact absurd ((Dict.mem_iff_get? _).2 ⟨m, (h.inverse m _).1 he⟩) hj
        · intro he
          exact absurd (Option.some.inj he).symm hm
      · rw [if_neg hi]
        exact h.inverse m i
  · rw [Dict.get?_set] at hm
    split at hm
    · cases hm
      exact hrange
    · exact h.range m i hm

theorem Coherent.addObject (h : Coherent r) (hadd : r.CanAdd n) :
    Coherent (r.addObject n).2 := by
  simp only [Repository.addObject, ↓reduceIte]
  have hrange := allocatedId_range h.cursor
  exact h.assign hadd.1 (h.allocatedId_free hadd.2) hrange hrange

theorem Coherent.removeObject (h : Coherent r) (hn : n ∈ r.objectToId) :
    Coherent (r.removeObject n) := by
  obtain ⟨j, hj⟩ := (Dict.mem_iff_get? _).1 hn
  simp only [Repository.removeObject, hj]
  refine ⟨fun m i => ?_, fun m i hm => ?_, h.cursor⟩
  · rw [Dict.get?_erase, Dict.get?_erase]
    by_cases hm : m = n
    · subst hm
      rw [if_pos rfl]
      by_cases hi : i = j
      · simp [hi]
      · rw [if_neg hi]
        constructor
        · intro he
          cases he
        · intro he
          rw [(h.inverse m i).2 he] at hj
          exact absurd (Option.some.inj hj) hi
    · rw [if_neg hm]
      by_cases hi : i = j
      · subst hi
        rw [if_pos rfl]
        constructor
        · intro he
          have h1 := (h.inverse n i).1 hj
          rw [(h.inverse m i).1 he] at h1
          exact absurd (Option.some.inj h1) hm
        · intro he
          cases he
      · rw [if_neg hi]
        exact h.inverse m i
  · rw [Dict.get?_erase] at hm
    split at hm
    · cases hm
    · exact h.range m i hm

theorem Coherent.removeObjectId_eq (h : Coherent r) (hn : r.idToObject.get? i = some n) :
    r.removeObjectId i = r.removeObject n := by
  simp only [Repository.removeObjectId, Repository.removeObject, hn, (h.inverse n i).2 hn]

end Repository

end Godaemon
