import Mathlib.Data.List.Basic
import Godaemon.Lib.Runs

namespace Godaemon
set_option autoImplicit true

/-- A barrier on the server; `timeoutIval` tells whether its tween is running. -/
structure NetBarrier where
  awaitingPeers : List Int
  timeoutIval : Bool

namespace NetBarrier

variable (b : NetBarrier)

def new : NetBarrier := ⟨[], false⟩

/-- The source does not stop the tween here. -/
def start (peers : List Int) : NetBarrier := { b with awaitingPeers := peers }

/-- The server's own end. A tween that is still running is replaced by a new one. -/
def endServer : NetBarrier := { b with timeoutIval := true }

/-- The response of a peer, and whether `complete` is emitted. -/
def receiveEnd (remotePeer : Int) : Bool × NetBarrier :=
  let awaitingPeers := b.awaitingPeers.erase remotePeer
  if b.awaitingPeers ≠ [] ∧ awaitingPeers = [] then (true, ⟨awaitingPeers, false⟩)
  else (false, { b with awaitingPeers := awaitingPeers })

/-- The tween is over, and whether `complete` is emitted. -/
def expire : Bool × NetBarrier := (b.timeoutIval, { b with timeoutIval := false })

end NetBarrier

/-- One emission of `complete`: whether it comes at the timeout of an `end` since the start, and
who has responded since the start. -/
structure Completion where
  timedOut : Bool
  responded : List Int

/-- A barrier, and what has happened since the last start: whom it awaits, who has responded,
whether the tween was made since then and whether one has expired, and what has been emitted. -/
structure BarrierRun where
  barrier : NetBarrier
  started : Bool
  awaited : List Int
  responded : List Int
  fresh : Bool
  expired : Bool
  completes : List Completion

inductive BarrierEvent where
  | start (peers : List Int)
  | endServer
  | receiveEnd (remotePeer : Int)
  | timeout

namespace BarrierRun

def new : BarrierRun := ⟨.new, false, [], [], false, false, []⟩

variable (s : BarrierRun)

def emit (timedOut complete : Bool) : BarrierRun :=
  if complete then { s with completes := s.completes ++ [⟨timedOut, s.responded⟩] } else s

def step (s : BarrierRun) : BarrierEvent → BarrierRun
  | .start peers => ⟨s.barrier.start peers, true, peers, [], false, false, []⟩
  | .endServer => { s with barrier := s.barrier.endServer, fresh := true }
  | .receiveEnd remotePeer =>
    let (complete, barrier) := s.barrier.receiveEnd remotePeer
    { s with
      barrier := barrier
      responded := s.responded ++ [remotePeer] }.emit false complete
  | .timeout =>
    let (complete, barrier) := s.barrier.expire
    { s with
      barrier := barrier
      expired := s.expired || complete }.emit s.fresh complete

/-- Since the start `complete` has been emitted at most once, and if that was before the timeout,
all awaited peers had responded. -/
def CompletesOnce : Prop :=
  s.started = true → s.completes.length ≤ 1 ∧
    ∀ c ∈ s.completes, c.timedOut = false → ∀ p ∈ s.awaited, p ∈ c.responded

/-- Peers are awaited no longer, but some were. -/
def AllResponded : Prop := s.awaited ≠ [] ∧ s.barrier.awaitingPeers = []

/-- A tween that runs to its end is the first to do so since the start, finds a peer that is still
awaited, and was made since the start unless everyone has responded; the last peer responds
before a tween has run to its end. -/
def Admits : BarrierEvent → Prop
  | .start _ => True
  | .endServer => True
  | .receiveEnd remotePeer => s.started = true → s.barrier.awaitingPeers ≠ [] →
    s.barrier.awaitingPeers.erase remotePeer = [] → s.expired = false
  | .timeout => s.started = true → s.barrier.timeoutIval = true →
    s.expired = false ∧ ¬ s.AllResponded ∧
      (s.fresh = true ∨ ∀ p ∈ s.awaited, p ∈ s.responded)

/-- Who is no longer awaited has responded; `complete` has been emitted if a tween has expired or
all have responded. -/
structure Tracks : Prop where
  erased : ∀ p ∈ s.awaited, p ∈ s.barrier.awaitingPeers ∨ p ∈ s.responded
  awaiting : s.awaited = [] → s.barrier.awaitingPeers = []
  emitted : s.started = true → (s.completes = [] ↔ s.expired = false ∧ ¬ s.AllResponded)

variable {s}

theorem tracks_new : new.Tracks := by
  refine ⟨fun p hp => ?_, fun _ => rfl, fun h => ?_⟩
  · cases hp
  · cases h

theorem completesOnce_new : new.CompletesOnce := fun h => by cases h

theorem step_receiveEnd_of_last (ha : s.barrier.awaitingPeers ≠ [])
    (hlast : s.barrier.awaitingPeers.erase p = []) : s.step (.receiveEnd p) = { s with
      barrier := ⟨[], false⟩
      responded := s.responded ++ [p]
      completes := s.completes ++ [⟨false, s.responded ++ [p]⟩] } := by
  simp only [step, NetBarrier.receiveEnd, hlast, ha, ne_eq, not_false_eq_true, and_self, ↓reduceIte,
    emit]

theorem step_receiveEnd_of_not_last
    (h : s.barrier.awaitingPeers ≠ [] → s.barrier.awaitingPeers.erase p ≠ []) :
    s.step (.receiveEnd p) = { s with
      barrier := { s.barrier with awaitingPeers := s.barrier.awaitingPeers.erase p }
      responded := s.responded ++ [p] } := by
  have hn : ¬ (s.barrier.awaitingPeers ≠ [] ∧ s.barrier.awaitingPeers.erase p = []) :=
    fun hc => h hc.1 hc.2
  simp only [step, NetBarrier.receiveEnd, if_neg hn, emit, Bool.false_eq_true, ↓reduceIte]

theorem step_timeout_of_running (h : s.barrier.timeoutIval = true) : s.step .timeout = { s with
    barrier := { s.barrier with timeoutIval := false }
    expired := true
    completes := s.completes ++ [⟨s.fresh, s.responded⟩] } := by
  simp only [step, NetBarrier.expire, h, emit, ↓reduceIte, Bool.or_true]

theorem step_timeout_of_not_running (h : s.barrier.timeoutIval = false) : s.step .timeout = s := by
  simp only [step, NetBarrier.expire, h, emit, Bool.false_eq_true, ↓reduceIte, Bool.or_false]
  rw [← h]

theorem emitted_ne_nil (cs : List Completion) (c : Completion) : cs ++ [c] ≠ [] :=
  List.append_ne_nil_of_right_ne_nil cs (List.cons_ne_nil c [])

theorem tracks_step (h : s.Tracks) (e : BarrierEvent) : (s.step e).Tracks := by
  cases e with
  | start peers =>
    refine ⟨fun p hp => .inl hp, fun hp => hp, fun _ => ⟨fun _ => ⟨rfl, ?_⟩, fun _ => rfl⟩⟩
    intro hall
    exact hall.1 hall.2
  | endServer => exact ⟨h.erased, h.awaiting, h.emitted⟩
  | receiveEnd p =>
    by_cases hlast : s.barrier.awaitingPeers ≠ [] ∧ s.barrier.awaitingPeers.erase p = []
    · rw [step_receiveEnd_of_last hlast.1 hlast.2]
      have hawaited : s.awaited ≠ [] := fun he => hlast.1 (h.awaiting he)
      refine ⟨fun q hq => .inr ?_, fun _ => rfl, fun _ => ?_⟩
      · rw [List.mem_append, List.mem_singleton]
        by_cases hqp : q = p
        · exact .inr hqp
        · rcases h.erased q hq with ha | hr
          · have hmem := (List.mem_erase_of_ne hqp).2 ha
            rw [hlast.2] at hmem
            cases hmem
          · exact .inl hr
      · exact iff_of_false (emitted_ne_nil _ _) (fun hc => hc.2 ⟨hawaited, rfl⟩)
    · have hn : s.barrier.awaitingPeers ≠ [] → s.barrier.awaitingPeers.erase p ≠ [] :=
        fun ha he => hlast ⟨ha, he⟩
      rw [step_receiveEnd_of_not_last hn]
      have hempty : s.barrier.awaitingPeers.erase p = [] ↔ s.barrier.awaitingPeers = [] := by
        constructor
        · intro he
          by_contra ha
          exact hn ha he
        · intro ha
          rw [ha, List.erase_nil]
      refine ⟨fun q hq => ?_, fun ha => hempty.2 (h.awaiting ha), fun hstarted => ?_⟩
      · simp only [List.mem_append, List.mem_singleton]
        by_cases hqp : q = p
        · exact .inr (.inr hqp)
        · rcases h.erased q hq with ha | hr
          · exact .inl ((List.mem_erase_of_ne hqp).2 ha)
          · exact .inr (.inl hr)
      · simp only [AllResponded, hempty]
        exact h.emitted hstarted
  | timeout =>
    cases ht : s.barrier.timeoutIval with
    | false =>
      rw [step_timeout_of_not_running ht]
      exact h
    | true =>
      rw [step_timeout_of_running ht]
      refine ⟨h.erased, h.awaiting, fun _ => iff_of_false ?_ ?_⟩
      · exact emitted_ne_nil _ _
      · exact fun hc => by cases hc.1

theorem completesOnce_emit_iff {cs : List Completion} {c : Completion} {awaited : List Int}
    (hs : ∀ c ∈ cs, c.timedOut = false → ∀ p ∈ awaited, p ∈ c.responded) :
    ((cs ++ [c]).length ≤ 1 ∧
        ∀ c' ∈ cs ++ [c], c'.timedOut = false → ∀ p ∈ awaited, p ∈ c'.responded) ↔
      cs = [] ∧ (c.timedOut = false → ∀ p ∈ awaited, p ∈ c.responded) := by
  have hlen : (cs ++ [c]).length ≤ 1 ↔ cs = [] := by
    rw [List.length_append, List.length_singleton, ← List.length_eq_zero_iff]
    omega
  rw [hlen]
  constructor
  · intro h
    exact ⟨h.1, h.2 c (List.mem_append_right _ List.mem_cons_self)⟩
  · intro h
    refine ⟨h.1, fun c' hc' => ?_⟩
    rcases List.mem_append.1 hc' with hc' | hc'
    · exact hs c' hc'
    · rw [List.mem_singleton.1 hc']
      exact h.2

theorem completesOnce_receiveEnd_iff (ht : s.Tracks) (h : s.CompletesOnce) :
    (s.step (.receiveEnd p)).CompletesOnce ↔ s.Admits (.receiveEnd p) := by
  by_cases hlast : s.barrier.awaitingPeers ≠ [] ∧ s.barrier.awaitingPeers.erase p = []
  · have hall := (tracks_step ht (.receiveEnd p)).erased
    rw [step_receiveEnd_of_last hlast.1 hlast.2] at hall ⊢
    simp only [CompletesOnce, Admits]
    constructor
    · intro hc hstarted _ _
      have hnone := ((completesOnce_emit_iff (h hstarted).2).1 (hc hstarted)).1
      exact ((ht.emitted hstarted).1 hnone).1
    · intro hg hstarted
      rw [completesOnce_emit_iff (h hstarted).2, ht.emitted hstarted]
      refine ⟨⟨hg hstarted hlast.1 hlast.2, fun hc => hlast.1 hc.2⟩, fun _ q hq => ?_⟩
      rcases hall q hq with ha | hr
      · cases ha
      · exact hr
  · have hn : s.barrier.awaitingPeers ≠ [] → s.barrier.awaitingPeers.erase p ≠ [] :=
      fun ha he => hlast ⟨ha, he⟩
    rw [step_receiveEnd_of_not_last hn]
    exact iff_of_true h (fun _ ha he => absurd he (hn ha))

theorem completesOnce_timeout_iff (ht : s.Tracks) (h : s.CompletesOnce) :
    (s.step .timeout).CompletesOnce ↔ s.Admits .timeout := by
  cases hrunning : s.barrier.timeoutIval with
  | false =>
    rw [step_timeout_of_not_running hrunning]
    refine iff_of_true h (fun _ hr => ?_)
    rw [hrunning] at hr
    cases hr
  | true =>
    rw [step_timeout_of_running hrunning]
    simp only [CompletesOnce, Admits, hrunning, forall_const]
    apply forall_congr'
    intro hstarted
    rw [completesOnce_emit_iff (h hstarted).2, ht.emitted hstarted, and_assoc, imp_iff_not_or,
      Bool.not_eq_false]

/-- In every run `complete` is emitted at most once since a start, and not before the timeout
unless everyone has responded, exactly if a tween only ever runs to its end as the first since the
start, before the last response, and made since the start or after everyone has responded. -/
theorem completesOnce_iff_guarded (es : List BarrierEvent) :
    Runs.Always step CompletesOnce new es ↔ Runs.Guarded step Admits new es := by
  apply Runs.always_iff_guarded (I := Tracks)
  · intro s e ht _ _
    exact tracks_step ht e
  · intro s e ht h
    cases e with
    | start peers =>
      refine iff_of_true (fun _ => ⟨Nat.zero_le 1, fun c hc => ?_⟩) trivial
      cases hc
    | endServer => exact iff_of_true h trivial
    | receiveEnd p => exact completesOnce_receiveEnd_iff ht h
    | timeout => exact completesOnce_timeout_iff ht h
  · exact tracks_new
  · exact completesOnce_new

/-- The server's end after the last response completes the barrier once more. -/
theorem completes_twice :
    ¬ Runs.Always step CompletesOnce new [.start [2], .receiveEnd 2, .endServer, .timeout] := by
  intro h
  have hl := (h.last rfl).1
  revert hl
  decide

end BarrierRun

end Godaemon
