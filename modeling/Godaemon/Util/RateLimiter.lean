import Mathlib.Algebra.Order.Field.Rat
import Mathlib.Tactic.Linarith
import Godaemon.Lib.Dict

namespace Godaemon
set_option autoImplicit true

/-- Counts the requests of each peer in a window of time, in seconds. -/
structure RateLimiter where
  count : Nat := 5
  duration : ℚ := 1
  ids : Dict Int (List ℚ) := .empty

/-- Is a request of a peer valid at this time? If it is, it counts. -/
def RateLimiter.check (r : RateLimiter) (time : ℚ) (peer : Int := 0) : Bool × RateLimiter :=
  let timeArray := ((r.ids.getD peer []).dropWhile (fun t => t + r.duration < time))
  if timeArray.length < r.count then
    (true, { r with ids := r.ids.set peer (timeArray ++ [time]) })
  else (false, { r with ids := r.ids.set peer timeArray })

namespace RateLimiter

/-- A limiter for one request at a time has let these requests of a peer through, and has kept the
time of the last one. -/
structure Remembers (r : RateLimiter) (duration : ℚ) (peer : Int) (times : List ℚ) : Prop where
  count : r.count = 1
  duration : r.duration = duration
  ids : r.ids.getD peer [] = [] ∧ times = [] ∨
    ∃ t, r.ids.getD peer [] = [t] ∧ t ∈ times ∧ ∀ u ∈ times, u ≤ t

variable {r : RateLimiter} {duration : ℚ} {peer : Int} {times : List ℚ}

theorem remembers_new (duration : ℚ) (peer : Int) :
    RateLimiter.Remembers { count := 1, duration := duration } duration peer [] :=
  ⟨rfl, rfl, .inl ⟨rfl, rfl⟩⟩

theorem Remembers.check_iff (h : r.Remembers duration peer times) (time : ℚ) :
    (r.check time peer).1 = true ↔ ∀ u ∈ times, u + duration < time := by
  rw [check, h.count, h.duration]
  rcases h.ids with ⟨hids, htimes⟩ | ⟨t, hids, ht, hlast⟩
  · rw [hids, htimes]
    exact iff_of_true rfl (fun u hu => by cases hu)
  · rw [hids]
    by_cases hfree : t + duration < time
    · rw [List.dropWhile_cons, if_pos (decide_eq_true hfree)]
      refine iff_of_true rfl (fun u hu => ?_)
      have hle := hlast u hu
      linarith
    · rw [List.dropWhile_cons, if_neg (fun h => hfree (decide_eq_true_iff.1 h))]
      exact iff_of_false Bool.noConfusion (fun hall => hfree (hall t ht))

theorem Remembers.check (h : r.Remembers duration peer times) (hlate : ∀ u ∈ times, u ≤ time)
    (hpass : (r.check time peer).1 = true) :
    (r.check time peer).2.Remembers duration peer (times ++ [time]) := by
  have hall := (h.check_iff time).1 hpass
  have hheld : (r.ids.getD peer []).dropWhile (fun t => t + r.duration < time) = [] := by
    rw [h.duration]
    rcases h.ids with ⟨hids, _⟩ | ⟨t, hids, ht, _⟩
    · rw [hids]
      rfl
    · rw [hids, List.dropWhile_cons, if_pos (decide_eq_true (hall t ht))]
      rfl
  have hrun : (r.check time peer).2 = { r with ids := r.ids.set peer [time] } := by
    rw [RateLimiter.check, hheld, h.count]
    rfl
  rw [hrun]
  refine ⟨h.count, h.duration, .inr ⟨time, ?_, ?_, fun u hu => ?_⟩⟩
  · rw [Dict.getD_set, if_pos rfl]
  · exact List.mem_append_right _ (List.mem_singleton.2 rfl)
  · rcases List.mem_append.1 hu with hu | hu
    · exact hlate u hu
    · rw [List.mem_singleton.1 hu]

end RateLimiter

end Godaemon
