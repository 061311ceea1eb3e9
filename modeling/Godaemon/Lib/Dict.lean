import Mathlib.Data.List.Induction
import Mathlib.Data.List.Nodup

set_option autoImplicit true

/-- A dictionary that iterates in insertion order: overwriting a key keeps its place,
a new key goes to the end. -/
structure Dict (K : Type u) (V : Type v) where
  entries : List (K × V)
  nodup : (entries.map Prod.fst).Nodup

namespace Dict

variable {K : Type u} {V : Type v} [DecidableEq K]

/-- The value stored under the first matching key of an entry list. -/
def lookup (k : K) : List (K × V) → Option V
  | [] => none
  | (k', v) :: es => if k' = k then some v else lookup k es

/-- Overwrite in place, or append. -/
def upsert (k : K) (v : V) : List (K × V) → List (K × V)
  | [] => [(k, v)]
  | (k', w) :: es => if k' = k then (k', v) :: es else (k', w) :: upsert k v es

theorem lookup_eq_none_iff (es : List (K × V)) :
    lookup k es = none ↔ k ∉ es.map Prod.fst := by
  induction es with
  | nil => simp [lookup]
  | cons e es ih =>
    simp only [lookup, List.map_cons, List.mem_cons, not_or]
    split
    · next h => simp [h]
    · next h => simp [ih, Ne.symm h]

theorem lookup_upsert (es : List (K × V)) :
    lookup k' (upsert k v es) = if k' = k then some v else lookup k' es := by
  induction es with
  | nil => simp only [upsert, lookup, eq_comm]
  | cons e es ih =>
    obtain ⟨a, w⟩ := e
    simp only [upsert]
    by_cases ha : a = k
    · subst ha
      by_cases hk : a = k'
      · simp [lookup, hk]
      · simp [lookup, hk, Ne.symm hk]
    · by_cases hk : a = k'
      · subst hk
        simp [lookup, ha]
      · simp [lookup, ha, hk, ih]

theorem mem_keys_upsert (es : List (K × V)) :
    k' ∈ (upsert k v es).map Prod.fst ↔ k' = k ∨ k' ∈ es.map Prod.fst := by
  rw [← not_iff_not, ← lookup_eq_none_iff, lookup_upsert, not_or, ← lookup_eq_none_iff]
  split <;> simp_all

theorem nodup_upsert (es : List (K × V)) (h : (es.map Prod.fst).Nodup) :
    ((upsert k v es).map Prod.fst).Nodup := by
  induction es with
  | nil => simp [upsert]
  | cons e es ih =>
    obtain ⟨a, w⟩ := e
    simp only [List.map_cons, List.nodup_cons] at h
    simp only [upsert]
    split
    · simpa using h
    · next ha =>
      simp only [List.map_cons, List.nodup_cons, mem_keys_upsert, not_or]
      exact ⟨⟨ha, h.1⟩, ih h.2⟩

theorem lookup_filter (es : List (K × V)) (p : K → Bool) :
    lookup k (es.filter (fun e => p e.1)) = if p k then lookup k es else none := by
  induction es with
  | nil => simp [lookup]
  | cons e es ih =>
    obtain ⟨a, w⟩ := e
    simp only [List.filter_cons]
    by_cases ha : a = k
    · subst ha
      cases hp : p a <;> simp [hp, lookup, ih]
    · cases hp : p a <;> simp [lookup, ha, ih]

theorem lookup_map (es : List (K × V)) (f : K → V → W) :
    lookup k (es.map (fun e => (e.1, f e.1 e.2))) = (lookup k es).map (f k) := by
  induction es with
  | nil => rfl
  | cons e es ih =>
    obtain ⟨a, w⟩ := e
    simp only [List.map_cons, lookup]
    split
    · next h => simp [h]
    · exact ih

def empty : Dict K V := ⟨[], List.nodup_nil⟩

instance : Inhabited (Dict K V) := ⟨empty⟩

def get? (d : Dict K V) (k : K) : Option V := lookup k d.entries

def getD (d : Dict K V) (k : K) (v : V) : V := (d.get? k).getD v

def set (d : Dict K V) (k : K) (v : V) : Dict K V :=
  ⟨upsert k v d.entries, nodup_upsert d.entries d.nodup⟩

/-- Keep the entries whose key passes a test. -/
def filterKeys (d : Dict K V) (p : K → Bool) : Dict K V :=
  ⟨d.entries.filter (fun e => p e.1),
    d.nodup.sublist (List.filter_sublist.map Prod.fst)⟩

def erase (d : Dict K V) (k : K) : Dict K V := d.filterKeys (fun a => a ≠ k)

def mapValues (d : Dict K V) (f : K → V → W) : Dict K W :=
  ⟨d.entries.map (fun e => (e.1, f e.1 e.2)), by
    have h : (d.entries.map (fun e => (e.1, f e.1 e.2))).map Prod.fst =
        d.entries.map Prod.fst := by
      simp only [List.map_map]
      rfl
    rw [h]
    exact d.nodup⟩

/-- The same values under other keys. -/
def mapKeys (d : Dict K V) (f : K → J) (hf : f.Injective) : Dict J V :=
  ⟨d.entries.map (fun e => (f e.1, e.2)), by
    have h : (d.entries.map (fun e => (f e.1, e.2))).map Prod.fst =
        (d.entries.map Prod.fst).map f := by
      simp only [List.map_map]
      rfl
    rw [h]
    exact d.nodup.map hf⟩

def keys (d : Dict K V) : List K := d.entries.map Prod.fst

def values (d : Dict K V) : List V := d.entries.map Prod.snd

def size (d : Dict K V) : Nat := d.entries.length

instance : Membership K (Dict K V) := ⟨fun d k => k ∈ d.keys⟩

instance (d : Dict K V) (k : K) : Decidable (k ∈ d) := inferInstanceAs (Decidable (k ∈ d.keys))

omit [DecidableEq K] in
@[simp] theorem mem_keys (d : Dict K V) : k ∈ d.keys ↔ k ∈ d := Iff.rfl

omit [DecidableEq K] in
theorem nodup_keys (d : Dict K V) : d.keys.Nodup := d.nodup

theorem mem_iff_get? (d : Dict K V) : k ∈ d ↔ ∃ v, d.get? k = some v := by
  rw [← Option.isSome_iff_exists, Option.isSome_iff_ne_none, ne_eq, get?, lookup_eq_none_iff,
    not_not]
  rfl

theorem get?_eq_none_iff (d : Dict K V) : d.get? k = none ↔ k ∉ d := by
  rw [get?, lookup_eq_none_iff]
  rfl

theorem mem_values_of_get? (d : Dict K V) (h : d.get? k = some v) : v ∈ d.values := by
  have hl (es : List (K × V)) (h : lookup k es = some v) : v ∈ es.map Prod.snd := by
    induction es with
    | nil => cases h
    | cons e es ih =>
      simp only [lookup] at h
      split at h
      · exact List.mem_cons.2 (.inl (Option.some.inj h).symm)
      · exact List.mem_cons_of_mem _ (ih h)
  exact hl d.entries h

@[simp] theorem get?_empty : (empty : Dict K V).get? k = none := rfl

omit [DecidableEq K] in
@[simp] theorem not_mem_empty : k ∉ (empty : Dict K V) := List.not_mem_nil

theorem get?_set (d : Dict K V) :
    (d.set k v).get? k' = if k' = k then some v else d.get? k' :=
  lookup_upsert d.entries

@[simp] theorem get?_set_self (d : Dict K V) : (d.set k v).get? k = some v := by
  simp [get?_set]

theorem get?_set_ne (d : Dict K V) (h : k' ≠ k) : (d.set k v).get? k' = d.get? k' := by
  simp [get?_set, h]

theorem get?_filterKeys (d : Dict K V) (p : K → Bool) :
    (d.filterKeys p).get? k = if p k then d.get? k else none :=
  lookup_filter d.entries p

theorem get?_erase (d : Dict K V) :
    (d.erase k).get? k' = if k' = k then none else d.get? k' := by
  rw [erase, get?_filterKeys]
  by_cases h : k' = k <;> simp [h]

@[simp] theorem get?_mapValues (d : Dict K V) (f : K → V → W) :
    (d.mapValues f).get? k = (d.get? k).map (f k) :=
  lookup_map d.entries f

@[simp] theorem mem_set (d : Dict K V) : k' ∈ d.set k v ↔ k' = k ∨ k' ∈ d :=
  mem_keys_upsert d.entries

@[simp] theorem mem_erase (d : Dict K V) : k' ∈ d.erase k ↔ k' ≠ k ∧ k' ∈ d := by
  rw [← not_iff_not, ← get?_eq_none_iff, get?_erase, not_and, ← get?_eq_none_iff]
  by_cases h : k' = k <;> simp [h]

theorem get?_mapKeys [DecidableEq J] (d : Dict K V) {f : K → J} (hf : f.Injective) :
    (d.mapKeys f hf).get? (f k) = d.get? k := by
  have hl (es : List (K × V)) : lookup (f k) (es.map fun e => (f e.1, e.2)) = lookup k es := by
    induction es with
    | nil => rfl
    | cons e es ih => simp only [List.map_cons, lookup, hf.eq_iff, ih]
  exact hl d.entries

theorem exists_of_get?_mapKeys [DecidableEq J] (d : Dict K V) {f : K → J} (hf : f.Injective)
    (h : (d.mapKeys f hf).get? j = some v) : ∃ k, j = f k ∧ d.get? k = some v := by
  have hmem : j ∈ (d.mapKeys f hf).keys := (mem_iff_get? _).2 ⟨v, h⟩
  rw [keys, mapKeys, List.map_map, List.mem_map] at hmem
  obtain ⟨e, _, he⟩ := hmem
  have hj : f e.1 = j := he
  rw [← hj, get?_mapKeys d hf] at h
  exact ⟨e.1, hj.symm, h⟩

theorem getD_of_get? (d : Dict K V) (h : d.get? k = some v) : d.getD k w = v := by
  simp [getD, h]

theorem getD_set (d : Dict K V) :
    (d.set k v).getD k' w = if k' = k then v else d.getD k' w := by
  rw [getD, get?_set, getD]
  split <;> rfl

theorem getD_erase (d : Dict K V) :
    (d.erase k).getD k' w = if k' = k then w else d.getD k' w := by
  rw [getD, get?_erase, getD]
  split <;> rfl

theorem lookup_eq_some_iff {es : List (K × V)} (h : (es.map Prod.fst).Nodup) :
    lookup k es = some v ↔ (k, v) ∈ es := by
  induction es with
  | nil => simp [lookup]
  | cons e es ih =>
    obtain ⟨a, w⟩ := e
    rw [List.map_cons, List.nodup_cons] at h
    rw [lookup, List.mem_cons, Prod.mk.injEq]
    split
    · next he =>
      have hnot : (k, v) ∉ es := by
        intro hm
        rw [he] at h
        exact h.1 (List.mem_map.2 ⟨(k, v), hm, rfl⟩)
      simp [he, hnot, eq_comm]
    · next he => simp [Ne.symm he, ih h.2]

theorem mem_entries_iff (d : Dict K V) : (k, v) ∈ d.entries ↔ d.get? k = some v :=
  (lookup_eq_some_iff d.nodup).symm

theorem upsert_of_not_mem {es : List (K × V)} (h : k ∉ es.map Prod.fst) :
    upsert k v es = es ++ [(k, v)] := by
  induction es with
  | nil => rfl
  | cons e es ih =>
    obtain ⟨a, w⟩ := e
    rw [List.map_cons, List.mem_cons, not_or] at h
    rw [upsert, if_neg (Ne.symm h.1), ih h.2, List.cons_append]

theorem entries_set_of_not_mem (d : Dict K V) (h : k ∉ d) :
    (d.set k v).entries = d.entries ++ [(k, v)] :=
  upsert_of_not_mem h

theorem upsert_upsert (es : List (K × V)) : upsert k w (upsert k v es) = upsert k w es := by
  induction es with
  | nil => simp only [upsert, ↓reduceIte]
  | cons e es ih =>
    by_cases he : e.1 = k
    · simp only [upsert, he, ↓reduceIte]
    · simp only [upsert, he, ↓reduceIte, ih]

theorem set_set (d : Dict K V) : (d.set k v).set k w = d.set k w := by
  simp only [set, upsert_upsert]

theorem upsert_of_lookup {es : List (K × V)} (h : lookup k es = some v) : upsert k v es = es := by
  induction es with
  | nil => cases h
  | cons e es ih =>
    obtain ⟨a, w⟩ := e
    unfold lookup at h
    unfold upsert
    split at h
    · next he =>
      cases h
      rw [if_pos he]
    · next he => rw [if_neg he, ih h]

theorem set_of_get? (d : Dict K V) (h : d.get? k = some v) : d.set k v = d := by
  simp only [set, upsert_of_lookup h]

theorem erase_set_of_not_mem (d : Dict K V) (h : k ∉ d) : (d.set k v).erase k = d := by
  have hentries : (d.entries ++ [(k, v)]).filter (fun e => decide (e.1 ≠ k)) = d.entries := by
    rw [List.filter_append, List.filter_eq_self.2]
    · simp
    · intro e he
      rw [decide_eq_true_eq]
      intro hk
      exact h (hk ▸ List.mem_map_of_mem he)
  simp only [erase, filterKeys, entries_set_of_not_mem d h, hentries]

theorem upsert_keys (es : List (K × V)) : (upsert k v es).map Prod.fst =
    if k ∈ es.map Prod.fst then es.map Prod.fst else es.map Prod.fst ++ [k] := by
  induction es with
  | nil => rfl
  | cons e es ih =>
    simp only [upsert, List.map_cons, List.mem_cons]
    by_cases he : e.1 = k
    · simp [he]
    · simp only [he, Ne.symm he, ↓reduceIte, false_or, List.map_cons, ih]
      split <;> rfl

theorem keys_set (d : Dict K V) : (d.set k v).keys = if k ∈ d then d.keys else d.keys ++ [k] :=
  upsert_keys d.entries

theorem keys_erase (d : Dict K V) : (d.erase k).keys = d.keys.filter (fun a => a ≠ k) := by
  simp only [keys, erase, filterKeys, List.filter_map]
  rfl

omit [DecidableEq K] in
theorem length_keys (d : Dict K V) : d.keys.length = d.size := List.length_map _

theorem size_set (d : Dict K V) : (d.set k v).size = if k ∈ d then d.size else d.size + 1 := by
  rw [← length_keys, keys_set]
  split
  · exact length_keys d
  · rw [List.length_append, length_keys, List.length_singleton]

theorem size_erase (d : Dict K V) (h : k ∈ d) : (d.erase k).size + 1 = d.size := by
  have hk : (d.erase k).keys = d.keys.erase k := by
    rw [keys_erase, d.nodup_keys.erase_eq_filter]
    apply List.filter_congr
    intro a _
    simp only [ne_eq, decide_not, bne, Bool.beq_eq_decide_eq]
  rw [← length_keys, hk, ← length_keys]
  exact List.length_erase_add_one h

/-- The dictionary that a list of assignments builds. -/
def ofPairs (es : List (K × V)) : Dict K V := es.foldl (fun d e => d.set e.1 e.2) empty

theorem ofPairs_append (es : List (K × V)) (e : K × V) :
    ofPairs (es ++ [e]) = (ofPairs es).set e.1 e.2 :=
  List.foldl_append

theorem mem_ofPairs (es : List (K × V)) : k ∈ ofPairs es ↔ ∃ v, (k, v) ∈ es := by
  induction es using List.reverseRecOn with
  | nil => simp [ofPairs]
  | append_singleton es e ih =>
    obtain ⟨a, w⟩ := e
    rw [ofPairs_append, mem_set, ih]
    constructor
    · rintro (rfl | ⟨v, hv⟩)
      · exact ⟨w, List.mem_append_right _ List.mem_cons_self⟩
      · exact ⟨v, List.mem_append_left _ hv⟩
    · rintro ⟨v, hv⟩
      rcases List.mem_append.1 hv with hv | hv
      · exact .inr ⟨v, hv⟩
      · exact .inl (Prod.mk.inj (List.mem_singleton.1 hv)).1

theorem mem_of_get?_ofPairs (es : List (K × V)) (h : (ofPairs es).get? k = some v) :
    (k, v) ∈ es := by
  induction es using List.reverseRecOn with
  | nil => simp [ofPairs] at h
  | append_singleton es e ih =>
    obtain ⟨a, w⟩ := e
    rw [ofPairs_append, get?_set] at h
    split at h
    · next hk =>
      cases h
      subst hk
      exact List.mem_append_right _ List.mem_cons_self
    · exact List.mem_append_left _ (ih h)

/-- Look a pair of keys up in a dictionary of dictionaries. -/
def get2? (d : Dict K (Dict J V)) [DecidableEq J] (k : K) (j : J) : Option V :=
  (d.get? k).bind (fun e => e.get? j)

/-- Store under a pair of keys, adding the inner dictionary where it is missing. -/
def set2 (d : Dict K (Dict J V)) [DecidableEq J] (k : K) (j : J) (v : V) : Dict K (Dict J V) :=
  d.set k ((d.getD k empty).set j v)

theorem get2?_set2 [DecidableEq J] (d : Dict K (Dict J V)) :
    (d.set2 k j v).get2? k' j' = if k' = k ∧ j' = j then some v else d.get2? k' j' := by
  simp only [get2?, set2, get?_set]
  by_cases hk : k' = k
  · subst hk
    simp only [↓reduceIte, Option.bind_some, get?_set, true_and, getD]
    cases d.get? k' <;> simp
  · simp [hk]

/-- Drop what is stored under a pair of keys; an inner dictionary stays where it is empty. -/
def erase2 (d : Dict K (Dict J V)) [DecidableEq J] (k : K) (j : J) : Dict K (Dict J V) :=
  match d.get? k with
  | none => d
  | some e => d.set k (e.erase j)

theorem get2?_erase2 [DecidableEq J] (d : Dict K (Dict J V)) :
    (d.erase2 k j).get2? k' j' = if k' = k ∧ j' = j then none else d.get2? k' j' := by
  rw [erase2]
  cases hk : d.get? k with
  | none =>
    by_cases hboth : k' = k ∧ j' = j
    · rw [if_pos hboth, get2?, hboth.1, hk]
      rfl
    · rw [if_neg hboth]
  | some e =>
    simp only [get2?, get?_set]
    by_cases hself : k' = k
    · simp only [hself, hk, ↓reduceIte, Option.bind_some, get?_erase, true_and]
    · simp only [hself, ↓reduceIte, false_and]

theorem get2?_erase [DecidableEq J] (d : Dict K (Dict J V)) :
    (d.erase k).get2? k' j = if k' = k then none else d.get2? k' j := by
  simp only [get2?, get?_erase]
  split <;> rfl

theorem get2?_empty [DecidableEq J] : (empty : Dict K (Dict J V)).get2? k j = none := rfl

end Dict
