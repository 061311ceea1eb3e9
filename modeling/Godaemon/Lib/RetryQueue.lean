import Mathlib.Data.List.Basic

set_option autoImplicit true

namespace RetryQueue

variable (keep : α → Bool)

/-- The entries that leave the queue when its head is offered again and again, each with the answer
to its own offer. A refused entry that has to be kept ends this. -/
def popped (answer : Nat → Bool) : List α → List (α × Bool)
  | [] => []
  | a :: queue =>
    if answer 0 || !keep a then (a, answer 0) :: popped (fun i => answer (i + 1)) queue else []

/-- The entries of a log that were taken. -/
def taken (log : List (α × Bool)) : List α := (log.filter Prod.snd).map Prod.fst

theorem popped_append_drop (answer : Nat → Bool) (queue : List α) :
    (popped keep answer queue).map Prod.fst ++ queue.drop (popped keep answer queue).length =
      queue := by
  induction queue generalizing answer with
  | nil => rfl
  | cons a queue ih =>
    rw [popped]
    split
    · rw [List.map_cons, List.length_cons, List.drop_succ_cons, List.cons_append, ih]
    · rfl

variable {keep}

theorem taken_of_keep {answer : Nat → Bool} {queue : List α} {a : α} {ok : Bool}
    (h : (a, ok) ∈ popped keep answer queue) (ha : keep a = true) : ok = true := by
  induction queue generalizing answer with
  | nil => exact absurd h List.not_mem_nil
  | cons b queue ih =>
    rw [popped] at h
    split at h
    · next hb =>
      cases List.mem_cons.1 h with
      | inl heq =>
        obtain ⟨rfl, rfl⟩ := Prod.mk.inj heq
        simpa [ha] using hb
      | inr hmem => exact ih hmem
    · exact absurd h List.not_mem_nil

theorem taken_append (log log' : List (α × Bool)) :
    taken (log ++ log') = taken log ++ taken log' := by
  rw [taken, List.filter_append, List.map_append]
  rfl

theorem taken_sublist (log : List (α × Bool)) : (taken log).Sublist (log.map Prod.fst) :=
  List.filter_sublist.map Prod.fst

theorem filter_taken {log : List (α × Bool)}
    (h : ∀ a ok, (a, ok) ∈ log → keep a = true → ok = true) :
    (taken log).filter keep = (log.map Prod.fst).filter keep := by
  induction log with
  | nil => rfl
  | cons entry log ih =>
    obtain ⟨a, ok⟩ := entry
    have hrest := ih (fun b ok' hmem => h b ok' (List.mem_cons_of_mem _ hmem))
    simp only [taken] at hrest
    cases ok with
    | true => simp only [taken, List.filter_cons_of_pos, List.map_cons, List.filter_cons, hrest]
    | false =>
      have ha : ¬ keep a = true := fun hkeep => nomatch h a false List.mem_cons_self hkeep
      simp only [taken, List.map_cons, List.filter_cons_of_neg ha]
      rw [List.filter_cons_of_neg Bool.false_ne_true]
      exact hrest

end RetryQueue
