import Mathlib.Data.List.Basic
import Mathlib.Data.List.Nodup

set_option autoImplicit true

/-! A cursor that walks along a list while elements are taken out of it and others are added at
its end. -/
namespace Cursor

variable [DecidableEq α] {c a b : α} {l : List α}

/-- What lies after an element, nothing if it is not there. -/
def after (c : α) (l : List α) : List α := (l.dropWhile (fun a => a ≠ c)).drop 1

theorem after_cons_self : after c (c :: l) = l := by
  simp [after]

theorem after_cons_ne (h : a ≠ c) : after c (a :: l) = after c l := by
  simp [after, h]

theorem mem_of_mem_after (h : b ∈ after c l) : b ∈ l :=
  (List.dropWhile_sublist _).subset ((List.drop_sublist 1 _).subset h)

theorem after_of_after_eq_cons (hl : l.Nodup) (h : after c l = a :: rest) : after a l = rest := by
  induction l with
  | nil => cases h
  | cons d l ih =>
    obtain ⟨hd, hl⟩ := List.nodup_cons.1 hl
    by_cases hc : d = c
    · subst hc
      rw [after_cons_self] at h
      subst h
      rw [after_cons_ne (List.ne_of_not_mem_cons hd), after_cons_self]
    · rw [after_cons_ne hc] at h
      have ha : a ∈ l := mem_of_mem_after (h ▸ List.mem_cons_self)
      have hne : d ≠ a := by
        intro he
        exact hd (he ▸ ha)
      rw [after_cons_ne hne, ih hl h]

theorem after_append_of_not_mem (h : c ∉ l) : after c (l ++ new) = after c new := by
  induction l with
  | nil => rfl
  | cons a l ih =>
    rw [List.mem_cons, not_or] at h
    rw [List.cons_append, after_cons_ne (Ne.symm h.1), ih h.2]

/-- What stays in the list stays after the cursor, as long as the cursor's element stays. -/
theorem mem_after_edit {p : α → Bool} (hl : (l.filter p ++ new).Nodup) (hlist : l.Nodup)
    (hb : b ∈ l.filter p) :
    b ∈ after c (l.filter p ++ new) ↔ p c = true ∧ b ∈ after c l := by
  induction l with
  | nil => cases hb
  | cons a l ih =>
    obtain ⟨ha, hlist⟩ := List.nodup_cons.1 hlist
    by_cases hp : p a = true
    · rw [List.filter_cons_of_pos hp, List.cons_append] at hl ⊢
      rw [List.filter_cons_of_pos hp] at hb
      obtain ⟨hfirst, hl⟩ := List.nodup_cons.1 hl
      by_cases hc : a = c
      · subst hc
        rw [after_cons_self, after_cons_self, and_iff_right hp]
        rcases List.mem_cons.1 hb with rfl | hb
        · exact iff_of_false hfirst ha
        · exact iff_of_true (List.mem_append_left _ hb) (List.mem_filter.1 hb).1
      · rw [after_cons_ne hc, after_cons_ne hc]
        rcases List.mem_cons.1 hb with rfl | hb
        · exact iff_of_false (fun h => hfirst (mem_of_mem_after h))
            (fun h => ha (mem_of_mem_after h.2))
        · exact ih hl hlist hb
    · rw [List.filter_cons_of_neg hp] at hl hb ⊢
      by_cases hc : a = c
      · subst hc
        have hgone : a ∉ l.filter p := fun h => hp (List.mem_filter.1 h).2
        rw [after_append_of_not_mem hgone]
        exact iff_of_false
          (fun h => List.disjoint_of_nodup_append hl hb (mem_of_mem_after h)) (fun h => hp h.1)
      · rw [after_cons_ne hc]
        exact ih hl hlist hb

end Cursor
