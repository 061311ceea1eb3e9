import Mathlib.Algebra.Order.Group.Defs
import Mathlib.Algebra.Order.Group.Unbundled.Basic
import Mathlib.Data.List.Basic

set_option autoImplicit true

namespace SlidingWindow

variable {T : Type u} [LinearOrder T]

/-- The times of a list that lie in a closed window. -/
def window (a b : T) (times : List T) : List T := times.filter (fun t => a ≤ t ∧ t ≤ b)

variable {a b d t : T} {times others : List T} {n : Nat}

theorem window_append : window a b (times ++ others) = window a b times ++ window a b others :=
  List.filter_append _ _

theorem window_eq_nil (h : ∀ t ∈ times, t < a) : window a b times = [] := by
  rw [window, List.filter_eq_nil_iff]
  intro t ht hin
  exact absurd (of_decide_eq_true hin).1 (not_le_of_gt (h t ht))

theorem dropWhile_lt (hsorted : times.Pairwise (· ≤ ·)) (hlate : ∀ t ∈ times, t ≤ b) :
    times.dropWhile (fun t => t < a) = window a b times := by
  induction times with
  | nil => rfl
  | cons t times ih =>
    obtain ⟨hhead, htail⟩ := List.pairwise_cons.1 hsorted
    have hrest := ih htail (fun u hu => hlate u (List.mem_cons_of_mem t hu))
    by_cases ht : t < a
    · rw [List.dropWhile_cons, if_pos (decide_eq_true ht), hrest, window, window,
        List.filter_cons_of_neg (fun hin => absurd (of_decide_eq_true hin).1 (not_le_of_gt ht))]
    · have hall : ∀ u ∈ t :: times, a ≤ u ∧ u ≤ b := by
        intro u hu
        refine ⟨?_, hlate u hu⟩
        cases List.mem_cons.1 hu with
        | inl heq => exact heq ▸ le_of_not_gt ht
        | inr hmem => exact (le_of_not_gt ht).trans (hhead u hmem)
      rw [List.dropWhile_cons, if_neg (fun hin => ht (of_decide_eq_true hin)), window,
        List.filter_eq_self.2 (fun u hu => decide_eq_true (hall u hu))]

theorem length_window_mono {a' b' : T} (h : ∀ t ∈ times, a ≤ t ∧ t ≤ b → a' ≤ t ∧ t ≤ b') :
    (window a b times).length ≤ (window a' b' times).length := by
  rw [window, window, ← List.countP_eq_length_filter, ← List.countP_eq_length_filter]
  exact List.countP_mono_left (fun t ht hin => decide_eq_true (h t ht (of_decide_eq_true hin)))

variable [AddCommGroup T] [IsOrderedAddMonoid T]

/-- No window of the given length gets too full when a time is only added while fewer times lie in
the window that ends with it. -/
theorem length_window_append_le (hfull : ∀ a, (window a (a + d) times).length ≤ n)
    (hlate : ∀ u ∈ times, u ≤ t) (hroom : (window (t - d) t times).length < n) (a : T) :
    (window a (a + d) (times ++ [t])).length ≤ n := by
  rw [window_append, List.length_append]
  by_cases hin : a ≤ t ∧ t ≤ a + d
  · have hmono : (window a (a + d) times).length ≤ (window (t - d) t times).length := by
      apply length_window_mono
      intro u hu hwindow
      exact ⟨(sub_le_iff_le_add.2 hin.2).trans hwindow.1, hlate u hu⟩
    have hone : (window a (a + d) [t]).length ≤ 1 := List.length_filter_le _ _
    omega
  · have hnone : window a (a + d) [t] = [] :=
      List.filter_cons_of_neg (fun hwindow => hin (of_decide_eq_true hwindow))
    rw [hnone]
    exact hfull a

end SlidingWindow
