import Mathlib.Data.List.Basic

set_option autoImplicit true

namespace Segments

/-- Address an element of a list of segments by one running index: walk along the segments, taking
off the length of each one that lies before the index. -/
def fetch : List (List α) → Int → Option α
  | [], _ => none
  | seg :: segs, i =>
    if i < seg.length then (if i < 0 then none else seg[i.toNat]?)
    else fetch segs (i - seg.length)

/-- Stop at the first item that passes a test, and add the index found in it to the lengths
of the segments of the items before it. -/
def locate (stop : β → Bool) (idx : β → Int) (seg : β → List α) : Int → List β → Option Int
  | _, [] => none
  | offset, b :: bs =>
    if stop b then some (offset + idx b) else locate stop idx seg (offset + (seg b).length) bs

theorem fetch_natCast (segs : List (List α)) (i : Nat) : fetch segs i = segs.flatten[i]? := by
  induction segs generalizing i with
  | nil => rfl
  | cons seg segs ih =>
    simp only [fetch, List.flatten_cons]
    by_cases h : i < seg.length
    · have h0 : ¬ (i : Int) < 0 := by omega
      rw [if_pos (by omega), if_neg h0, List.getElem?_append_left h, Int.toNat_natCast]
    · have hsub : (i : Int) - seg.length = (i - seg.length : Nat) := by omega
      rw [if_neg (by omega), hsub, ih, List.getElem?_append_right (by omega)]

theorem fetch_lt {segs : List (List α)} (h : fetch segs i = some a) : i < segs.flatten.length := by
  by_cases hi : i < 0
  · omega
  · obtain ⟨n, rfl⟩ := Int.eq_ofNat_of_zero_le (by omega : 0 ≤ i)
    rw [fetch_natCast] at h
    obtain ⟨hlt, _⟩ := List.getElem?_eq_some_iff.1 h
    omega

theorem fetch_append_offset (pre segs : List (List α)) (i : Int) (h : 0 ≤ i) :
    fetch (pre ++ segs) (pre.flatten.length + i) = fetch segs i := by
  obtain ⟨n, rfl⟩ := Int.eq_ofNat_of_zero_le h
  have hsum : (pre.flatten.length : Int) + n = (pre.flatten.length + n : Nat) := by omega
  rw [hsum, fetch_natCast, fetch_natCast, List.flatten_append,
    List.getElem?_append_right (by omega)]
  congr 1
  omega

variable {stop : β → Bool} {idx : β → Int} {seg : β → List α}

theorem locate_first (hpre : ∀ p ∈ pre, stop p = false) (hs : stop b = true) :
    locate stop idx seg offset (pre ++ b :: post) =
      some (offset + (pre.map seg).flatten.length + idx b) := by
  induction pre generalizing offset with
  | nil => simp [locate, hs]
  | cons p pre ih =>
    simp only [List.cons_append, locate, hpre p List.mem_cons_self, Bool.false_eq_true,
      ↓reduceIte]
    rw [ih (fun s h => hpre s (List.mem_cons_of_mem _ h))]
    simp only [List.map_cons, List.flatten_cons, List.length_append, Option.some.injEq]
    omega

theorem exists_first (stop : β → Bool) (h : ∃ b ∈ bs, stop b = true) :
    ∃ pre b post, bs = pre ++ b :: post ∧ (∀ p ∈ pre, stop p = false) ∧ stop b = true := by
  induction bs with
  | nil => simp at h
  | cons s bs ih =>
    cases hs : stop s with
    | true => exact ⟨[], s, bs, rfl, by simp, hs⟩
    | false =>
      have h' : ∃ b ∈ bs, stop b = true := by
        obtain ⟨b, hm, ht⟩ := h
        rcases List.mem_cons.1 hm with rfl | hm
        · rw [hs] at ht
          cases ht
        · exact ⟨b, hm, ht⟩
      obtain ⟨pre, b, post, rfl, hpre, ht⟩ := ih h'
      exact ⟨s :: pre, b, post, rfl, by simpa [hs] using hpre, ht⟩

end Segments
