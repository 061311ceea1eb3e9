import Mathlib.Data.List.TakeWhile
import Godaemon.Lib.Runs
import Godaemon.Lib.SlidingWindow
import Godaemon.Util.RateLimiter

namespace Godaemon
set_option autoImplicit true

open Runs SlidingWindow

namespace RateLimiter

def onPeerDisconnected (r : RateLimiter) (peer : Int) : RateLimiter :=
  { r with
    ids := r.ids.erase peer }

theorem check_snd (r : RateLimiter) (time : ℚ) (peer : Int) :
    (r.check time peer).2 = { r with
      ids := r.ids.set peer ((r.ids.getD peer []).dropWhile (fun t => t + r.duration < time) ++
        if (r.check time peer).1 then [time] else []) } := by
  rw [check]
  split
  · rfl
  · simp only [Bool.false_eq_true, ↓reduceIte, List.append_nil]

end RateLimiter

/-- What a limiter is asked, and what it hears of. -/
inductive LimiterEvent where
  | check (time : ℚ) (peer : Int)
  | disconnect (peer : Int)

namespace LimiterEvent

def peer : LimiterEvent → Int
  | .check _ peer => peer
  | .disconnect peer => peer

def time? : LimiterEvent → Option ℚ
  | .check time _ => some time
  | .disconnect _ => none

/-- The times of the requests, in order. -/
def times (events : List LimiterEvent) : List ℚ := events.filterMap time?

end LimiterEvent

/-- A limiter, with the times at which it has let requests of each peer through: since the peer's
last disconnect, and ever. -/
structure RateWatch where
  limiter : RateLimiter
  recent : Int → List ℚ
  accepted : Int → List ℚ

namespace RateWatch

def new (count : Nat) (duration : ℚ) : RateWatch :=
  ⟨{ count := count, duration := duration }, fun _ => [], fun _ => []⟩

variable (w : RateWatch)

/-- A request is let through. -/
def note (time : ℚ) (peer : Int) : RateWatch :=
  { w with
    recent := Function.update w.recent peer (w.recent peer ++ [time])
    accepted := Function.update w.accepted peer (w.accepted peer ++ [time]) }

def step (w : RateWatch) : LimiterEvent → RateWatch
  | .check time peer =>
    let result := w.limiter.check time peer
    if result.1 then { w.note time peer with limiter := result.2 }
    else { w with limiter := result.2 }
  | .disconnect peer => { w with
    limiter := w.limiter.onPeerDisconnected peer
    recent := Function.update w.recent peer [] }

/-- What is stored for a peer is the end of what was let through since its last disconnect: the
rest has left the window by some time, which no request is later than. -/
structure Stores (time : ℚ) (peer : Int) : Prop where
  sorted : (w.recent peer).Pairwise (· ≤ ·)
  late : ∀ t ∈ w.recent peer, t ≤ time
  stored : ∃ dropped, w.recent peer = dropped ++ w.limiter.ids.getD peer [] ∧
    ∀ t ∈ dropped, t + w.limiter.duration < time
  full : ∀ a, (window a (a + w.limiter.duration) (w.recent peer)).length ≤ w.limiter.count

variable {w} {time : ℚ} {peer : Int}

/-- The stored times that are not too early are those of the window. -/
theorem Stores.kept (h : w.Stores time peer) (hle : time ≤ t) :
    (w.limiter.ids.getD peer []).dropWhile (fun u => u + w.limiter.duration < t) =
      window (t - w.limiter.duration) t (w.recent peer) := by
  obtain ⟨dropped, hrecent, hdropped⟩ := h.stored
  have hsorted := h.sorted
  have hlate := h.late
  rw [hrecent] at hsorted hlate ⊢
  have hgone : window (t - w.limiter.duration) t dropped = [] := by
    apply window_eq_nil
    intro u hu
    have hlt := hdropped u hu
    linarith
  have hearly : (fun u => decide (u + w.limiter.duration < t)) =
      fun u => decide (u < t - w.limiter.duration) := by
    funext u
    exact decide_eq_decide.2 lt_sub_iff_add_lt.symm
  rw [window_append, hgone, List.nil_append, hearly]
  apply dropWhile_lt
  · exact (List.pairwise_append.1 hsorted).2.1
  · intro u hu
    exact (hlate u (List.mem_append_right _ hu)).trans hle

/-- A request is let through exactly if there is room in the window. -/
theorem Stores.check_iff (h : w.Stores time peer) (hle : time ≤ t) :
    (w.limiter.check t peer).1 = true ↔
      (window (t - w.limiter.duration) t (w.recent peer)).length < w.limiter.count := by
  rw [RateLimiter.check, h.kept hle]
  split
  · next hroom => exact iff_of_true rfl hroom
  · next hroom => exact iff_of_false Bool.noConfusion hroom

theorem stores_new (count : Nat) (duration time : ℚ) (peer : Int) :
    (new count duration).Stores time peer :=
  ⟨.nil, fun _ ht => (nomatch ht), ⟨[], rfl, fun _ ht => (nomatch ht)⟩, fun _ => Nat.zero_le _⟩

theorem Stores.later (h : w.Stores time peer) (hle : time ≤ t) : w.Stores t peer := by
  obtain ⟨dropped, hrecent, hdropped⟩ := h.stored
  exact ⟨h.sorted, fun u hu => (h.late u hu).trans hle,
    ⟨dropped, hrecent, fun u hu => (hdropped u hu).trans_le hle⟩, h.full⟩

theorem Stores.congr {w' : RateWatch} (h : w.Stores time peer)
    (hcount : w'.limiter.count = w.limiter.count)
    (hduration : w'.limiter.duration = w.limiter.duration)
    (hids : w'.limiter.ids.getD peer [] = w.limiter.ids.getD peer [])
    (hrecent : w'.recent peer = w.recent peer) : w'.Stores time peer := by
  refine ⟨?_, ?_, ?_, ?_⟩
  · rw [hrecent]
    exact h.sorted
  · rw [hrecent]
    exact h.late
  · rw [hrecent, hids, hduration]
    exact h.stored
  · rw [hrecent, hcount, hduration]
    exact h.full

theorem Stores.prune (h : w.Stores time peer) (hle : time ≤ t) :
    ∃ dropped, w.recent peer = dropped ++
        (w.limiter.ids.getD peer []).dropWhile (fun u => u + w.limiter.duration < t) ∧
      ∀ u ∈ dropped, u + w.limiter.duration < t := by
  obtain ⟨dropped, hrecent, hdropped⟩ := h.stored
  refine ⟨dropped ++ (w.limiter.ids.getD peer []).takeWhile
    (fun u => u + w.limiter.duration < t), ?_, ?_⟩
  · rw [List.append_assoc, List.takeWhile_append_dropWhile]
    exact hrecent
  · intro u hu
    cases List.mem_append.1 hu with
    | inl hold => exact (hdropped u hold).trans_le hle
    | inr htaken => simpa using List.mem_takeWhile_imp htaken

theorem Stores.check (h : w.Stores time peer) (hle : time ≤ t) :
    (w.step (.check t peer)).Stores t peer := by
  obtain ⟨dropped, hrecent, hdropped⟩ := h.prune hle
  have hlate : ∀ u ∈ w.recent peer, u ≤ t := fun u hu => (h.late u hu).trans hle
  have hiff := h.check_iff hle
  rw [step, w.limiter.check_snd]
  split
  · next hpass =>
    refine ⟨?_, ?_, ⟨dropped, ?_, hdropped⟩, ?_⟩
    · simp only [note, Function.update_self]
      rw [List.pairwise_append]
      refine ⟨h.sorted, List.pairwise_singleton _ _, fun u hu v hv => ?_⟩
      rw [List.mem_singleton.1 hv]
      exact hlate u hu
    · simp only [note, Function.update_self]
      intro u hu
      cases List.mem_append.1 hu with
      | inl hold => exact hlate u hold
      | inr hnew => exact (List.mem_singleton.1 hnew).le
    · simp only [note, Function.update_self, Dict.getD_set, ↓reduceIte]
      rw [← List.append_assoc, ← hrecent]
    · simp only [note, Function.update_self]
      exact length_window_append_le h.full hlate (hiff.1 hpass)
  · refine ⟨h.sorted, hlate, ⟨dropped, ?_, hdropped⟩, h.full⟩
    simp only [Dict.getD_set, ↓reduceIte, List.append_nil]
    exact hrecent

theorem Stores.check_other (h : w.Stores time peer) {other : Int} (hne : peer ≠ other) (t : ℚ) :
    (w.step (.check t other)).Stores time peer := by
  rw [step, w.limiter.check_snd]
  split
  · refine h.congr rfl rfl ?_ (Function.update_of_ne hne _ _)
    exact (Dict.getD_set _).trans (if_neg hne)
  · refine h.congr rfl rfl ?_ rfl
    exact (Dict.getD_set _).trans (if_neg hne)

theorem Stores.disconnect (h : w.Stores time peer) (other : Int) :
    (w.step (.disconnect other)).Stores time peer := by
  by_cases heq : peer = other
  · have hrecent : (w.step (.disconnect other)).recent peer = [] := by
      rw [heq]
      exact Function.update_self _ _ _
    have hids : (w.step (.disconnect other)).limiter.ids.getD peer [] = [] :=
      (Dict.getD_erase _).trans (if_pos heq)
    refine ⟨?_, ?_, ⟨[], ?_, fun u hu => (nomatch hu)⟩, ?_⟩
    · rw [hrecent]
      exact .nil
    · rw [hrecent]
      exact fun u hu => nomatch hu
    · rw [hrecent, hids]
      rfl
    · rw [hrecent]
      exact fun _ => Nat.zero_le _
  · refine h.congr rfl rfl ?_ (Function.update_of_ne heq _ _)
    exact (Dict.getD_erase _).trans (if_neg heq)

theorem Stores.step (h : ∀ peer, w.Stores time peer) (event : LimiterEvent)
    (hle : ∀ t ∈ event.time?, time ≤ t) (peer : Int) :
    (w.step event).Stores (event.time?.getD time) peer := by
  cases event with
  | check t other =>
    have hlater : time ≤ t := hle t rfl
    by_cases heq : peer = other
    · rw [← heq]
      exact (h peer).check hlater
    · exact ((h peer).check_other heq t).later hlater
  | disconnect other => exact (h peer).disconnect other

/-- What is stored is right after every run of events whose times do not decrease. -/
theorem stores_run (h : ∀ peer, w.Stores time peer) (events : List LimiterEvent)
    (hsorted : (time :: LimiterEvent.times events).Pairwise (· ≤ ·)) {t : ℚ}
    (hlate : ∀ u ∈ time :: LimiterEvent.times events, u ≤ t) (peer : Int) :
    (run RateWatch.step w events).Stores t peer := by
  induction events generalizing w time with
  | nil => exact (h peer).later (hlate time List.mem_cons_self)
  | cons event events ih =>
    obtain ⟨hhead, htail⟩ := List.pairwise_cons.1 hsorted
    have hnext := Stores.step h event
    cases event with
    | check u other =>
      have htimes : LimiterEvent.times (.check u other :: events) =
          u :: LimiterEvent.times events := rfl
      rw [htimes] at hhead htail hlate
      have hle : ∀ t ∈ (LimiterEvent.check u other).time?, time ≤ t := by
        intro t ht
        cases ht
        exact hhead u List.mem_cons_self
      exact ih (hnext hle) htail (fun v hv => hlate v (List.mem_cons_of_mem _ hv))
    | disconnect other => exact ih (hnext (fun t ht => nomatch ht)) hsorted hlate

/-- Two limiters agree on a peer. -/
structure Agree (w v : RateWatch) (peer : Int) : Prop where
  count : w.limiter.count = v.limiter.count
  duration : w.limiter.duration = v.limiter.duration
  ids : w.limiter.ids.getD peer [] = v.limiter.ids.getD peer []

variable {v : RateWatch}

theorem Agree.check_eq (h : w.Agree v peer) (t : ℚ) :
    (w.limiter.check t peer).1 = (v.limiter.check t peer).1 := by
  rw [RateLimiter.check, RateLimiter.check, h.count, h.duration, h.ids]
  split
  · rfl
  · rfl

theorem limiter_check (t : ℚ) (other : Int) :
    (w.step (.check t other)).limiter = (w.limiter.check t other).2 := by
  rw [step]
  split
  · rfl
  · rfl

theorem Agree.step (h : w.Agree v peer) (event : LimiterEvent) :
    (w.step event).Agree (if event.peer = peer then v.step event else v) peer := by
  cases event with
  | check t other =>
    change (w.step (.check t other)).Agree (if other = peer then _ else v) peer
    by_cases heq : other = peer
    · rw [if_pos heq, heq]
      have hanswer := h.check_eq t
      refine ⟨?_, ?_, ?_⟩
      · simp only [limiter_check, RateLimiter.check_snd, h.count]
      · simp only [limiter_check, RateLimiter.check_snd, h.duration]
      · simp only [limiter_check, RateLimiter.check_snd, Dict.getD_set, ↓reduceIte, hanswer,
          h.duration, h.ids]
    · rw [if_neg heq]
      refine ⟨?_, ?_, ?_⟩
      · simp only [limiter_check, RateLimiter.check_snd, h.count]
      · simp only [limiter_check, RateLimiter.check_snd, h.duration]
      · simp only [limiter_check, RateLimiter.check_snd, Dict.getD_set, if_neg (Ne.symm heq), h.ids]
  | disconnect other =>
    change (w.step (.disconnect other)).Agree (if other = peer then _ else v) peer
    by_cases heq : other = peer
    · rw [if_pos heq, heq]
      refine ⟨h.count, h.duration, ?_⟩
      exact ((Dict.getD_erase _).trans (if_pos rfl)).trans
        ((Dict.getD_erase _).trans (if_pos rfl)).symm
    · rw [if_neg heq]
      exact ⟨h.count, h.duration,
        ((Dict.getD_erase _).trans (if_neg (Ne.symm heq))).trans h.ids⟩

/-- What a limiter holds of a peer comes from the events of that peer alone. -/
theorem Agree.run (h : w.Agree v peer) (events : List LimiterEvent) :
    (run RateWatch.step w events).Agree
      (run RateWatch.step v (events.filter (fun event => event.peer = peer))) peer := by
  induction events generalizing w v with
  | nil => exact h
  | cons event events ih =>
    have hnext := h.step event
    by_cases heq : event.peer = peer
    · rw [if_pos heq] at hnext
      rw [List.filter_cons, if_pos (decide_eq_true heq)]
      exact ih hnext
    · rw [if_neg heq] at hnext
      rw [List.filter_cons, if_neg (fun hin => heq (of_decide_eq_true hin))]
      exact ih hnext

theorem run_limiter (events : List LimiterEvent) :
    (run step w events).limiter.count = w.limiter.count ∧
      (run step w events).limiter.duration = w.limiter.duration := by
  induction events generalizing w with
  | nil => exact ⟨rfl, rfl⟩
  | cons event events ih =>
    have hstep : (w.step event).limiter.count = w.limiter.count ∧
        (w.step event).limiter.duration = w.limiter.duration := by
      cases event with
      | check t other => simp only [limiter_check, RateLimiter.check_snd, and_self]
      | disconnect other => exact ⟨rfl, rfl⟩
    rw [run_cons, ih.1, ih.2]
    exact hstep

/-- However requests and disconnects follow each other, a request is let through exactly if fewer
than `count` requests of its peer since its last disconnect were let through in the window that
ends now. So no window holds more of them, whichever one is looked at, and other peers do not
matter. -/
theorem limits_window (count : Nat) (duration : ℚ) (events : List LimiterEvent) (time : ℚ)
    (peer : Int) (h : (LimiterEvent.times events ++ [time]).Pairwise (· ≤ ·)) :
    let w := run step (new count duration) events
    ((w.limiter.check time peer).1 = true ↔
        (window (time - duration) time (w.recent peer)).length < count) ∧
      (∀ a, (window a (a + duration) (w.recent peer)).length ≤ count) ∧
      (w.limiter.check time peer).1 = ((run step (new count duration)
        (events.filter (fun event => event.peer = peer))).limiter.check time peer).1 := by
  intro w
  obtain ⟨hsorted, _, hlate⟩ := List.pairwise_append.1 h
  obtain ⟨hcount, hduration⟩ := run_limiter (w := new count duration) events
  obtain ⟨start, hstart⟩ : ∃ start, ∀ u ∈ time :: LimiterEvent.times events, start ≤ u := by
    cases htimes : LimiterEvent.times events with
    | nil => exact ⟨time, fun u hu => (List.mem_singleton.1 hu).ge⟩
    | cons first rest =>
      rw [htimes] at hsorted hlate
      have hfirst := (List.pairwise_cons.1 hsorted).1
      refine ⟨first, fun u hu => ?_⟩
      cases List.mem_cons.1 hu with
      | inl heq => exact heq ▸ hlate first List.mem_cons_self time List.mem_cons_self
      | inr hmem =>
        cases List.mem_cons.1 hmem with
        | inl heq => exact heq.ge
        | inr hrest => exact hfirst u hrest
  have hstores : w.Stores time peer := by
    apply stores_run (fun p => stores_new count duration start p)
    · exact List.pairwise_cons.2 ⟨fun u hu => hstart u (List.mem_cons_of_mem _ hu), hsorted⟩
    · intro u hu
      cases List.mem_cons.1 hu with
      | inl heq => exact heq ▸ hstart time List.mem_cons_self
      | inr hmem => exact hlate u hmem time List.mem_cons_self
  have hiff := hstores.check_iff (le_refl time)
  have hfull := hstores.full
  rw [hcount, hduration] at hiff
  rw [hcount, hduration] at hfull
  have hagree : (new count duration).Agree (new count duration) peer := ⟨rfl, rfl, rfl⟩
  exact ⟨hiff, hfull, (hagree.run events).check_eq time⟩

theorem limits_window_two :
    let w := run step (new 1 1) [.check 0 7]
    ((w.limiter.check 1 7).1 = true ↔ (window (1 - 1) 1 (w.recent 7)).length < 1) ∧
      (∀ a, (window a (a + 1) (w.recent 7)).length ≤ 1) ∧
      (w.limiter.check 1 7).1 = ((run step (new 1 1) ([.check 0 7].filter
        (fun event : LimiterEvent => event.peer = 7))).limiter.check 1 7).1 :=
  limits_window 1 1 [.check 0 7] 1 7 (by decide +kernel)

/-- A peer that disconnects in between gets twice as many requests through in one window. -/
theorem window_exceeded :
    ¬ ∀ (count : Nat) (duration : ℚ) (events : List LimiterEvent) (peer : Int) (a : ℚ),
      (LimiterEvent.times events).Pairwise (· ≤ ·) →
        (window a (a + duration) ((run step (new count duration) events).accepted peer)).length ≤
          count := by
  intro h
  have hwindow := h 1 1 [.check 0 7, .disconnect 7, .check 0 7] 7 0 (by decide +kernel)
  have htwo : (run step (new 1 1) [.check 0 7, .disconnect 7, .check 0 7]).accepted 7 = [0, 0] := by
    decide +kernel
  rw [htwo] at hwindow
  revert hwindow
  decide +kernel

end RateWatch

end Godaemon
