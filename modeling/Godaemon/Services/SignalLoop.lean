import Godaemon.Services.WriteAuthority

namespace Godaemon
set_option autoImplicit true

variable {S N : Type} [DecidableEq N]

/-- What other code does leaves the loop block alone. -/
structure Elsewhere (N : Type) where
  apply : FieldState N → FieldState N
  signalLoopBlock_eq : ∀ s, (apply s).signalLoopBlock = s.signalLoopBlock

/-- What happens one after the other, and, in the body of a remote emission, during it: whatever
listens to a signal may emit signals, and the services may take in packets meanwhile. -/
inductive SignalCalls (N : Type) where
  | done
  | elsewhere (work : Elsewhere N) (next : SignalCalls N)
  | onSignalEmit (node : N) (c : ReplicationSignalConfig) (send : Elsewhere N)
      (next : SignalCalls N)
  | signalReplicate (node : N) (c : ReplicationSignalConfig) (canWeRecv : Bool) (argCount : Nat)
      (body next : SignalCalls N)

/-- A local emission that the service has heard of. -/
structure HeardSignal (N : Type) where
  node : N
  config : ReplicationSignalConfig
  suppressed : Bool
deriving DecidableEq

namespace SignalCalls

/-- The calls run on the service's state; a failed assertion ends the function it is in. -/
def run : SignalCalls N → FieldState N → FieldState N × List (HeardSignal N)
  | .done, s => (s, [])
  | .elsewhere work next, s => next.run (work.apply s)
  | .onSignalEmit node c send next, s =>
    let blocked := s.isSignalLoopBlocked node c
    let (s, heard) := next.run (if blocked then s else send.apply s)
    (s, ⟨node, c, blocked⟩ :: heard)
  | .signalReplicate node c canWeRecv argCount body next, s =>
    if !canWeRecv then next.run s
    else
      let s := s.setSignalLoopBlock node c true
      if argCount = 9 then next.run s
      else
        let (s, heard) := if argCount ≤ 8 then body.run s else (s, [])
        let (s, heard') := next.run (s.setSignalLoopBlock node c false)
        (s, heard ++ heard')

/-- What the service should hear, within remote emissions of some pairs of a node and a signal:
exactly the local emissions of these pairs are suppressed. -/
def heardWithin (inside : List (N × ReplicationSignalConfig)) : SignalCalls N → List (HeardSignal N)
  | .done => []
  | .elsewhere _ next => next.heardWithin inside
  | .onSignalEmit node c _ next => ⟨node, c, (node, c) ∈ inside⟩ :: next.heardWithin inside
  | .signalReplicate node c canWeRecv argCount body next =>
    if canWeRecv = true ∧ argCount ≤ 8 then
      body.heardWithin ((node, c) :: inside) ++ next.heardWithin inside
    else next.heardWithin inside

/-- Every remote emission that begins ends: none fails the assertion on the arguments. -/
def Nested : SignalCalls N → Prop
  | .done => True
  | .elsewhere _ next => next.Nested
  | .onSignalEmit _ _ _ next => next.Nested
  | .signalReplicate _ _ canWeRecv argCount body next =>
    (canWeRecv = true → argCount ≠ 9 ∧ (argCount ≤ 8 → body.Nested)) ∧ next.Nested

end SignalCalls

/-- Nodes and signals have an entry only while they are blocked. -/
structure LoopBlock (d : Dict N (Dict ReplicationSignalConfig Nat)) : Prop where
  nonempty : ∀ node blocks, d.get? node = some blocks → blocks.size ≠ 0
  positive : ∀ node c count, d.get2? node c = some count → 0 < count

namespace LoopBlock

variable {s : FieldState N}

theorem empty : LoopBlock (.empty : Dict N (Dict ReplicationSignalConfig Nat)) := by
  refine ⟨fun node blocks h => ?_, fun node c count h => ?_⟩
  · cases h
  · cases h

omit [DecidableEq N] in
theorem size_ne_zero_of_mem {blocks : Dict ReplicationSignalConfig Nat} (h : c ∈ blocks) :
    blocks.size ≠ 0 := by
  have hsize := Dict.size_erase blocks h
  omega

theorem setSignalLoopBlock_true (s : FieldState N) (node : N) (c : ReplicationSignalConfig) :
    (s.setSignalLoopBlock node c true).signalLoopBlock =
      s.signalLoopBlock.set2 node c ((s.signalLoopBlock.getD node .empty).getD c 0 + 1) := rfl

theorem isSignalLoopBlocked_setSignalLoopBlock (s : FieldState N) (node : N)
    (c : ReplicationSignalConfig) : (s.setSignalLoopBlock node c true).isSignalLoopBlocked n d =
      (decide ((n, d) = (node, c)) || s.isSignalLoopBlocked n d) := by
  unfold FieldState.isSignalLoopBlocked
  rw [setSignalLoopBlock_true, Dict.get2?_set2]
  by_cases h : n = node ∧ d = c
  · rw [if_pos h, decide_eq_true (Prod.ext h.1 h.2)]
    rfl
  · rw [if_neg h, decide_eq_false (fun he => h (Prod.mk.inj he)), Bool.false_or]

theorem set (h : LoopBlock s.signalLoopBlock) (node : N) (c : ReplicationSignalConfig) :
    LoopBlock (s.setSignalLoopBlock node c true).signalLoopBlock := by
  rw [setSignalLoopBlock_true]
  refine ⟨fun n blocks hn => ?_, fun n d count hn => ?_⟩
  · rw [Dict.set2, Dict.get?_set] at hn
    split at hn
    · cases hn
      exact size_ne_zero_of_mem ((Dict.mem_set _).2 (.inl rfl))
    · exact h.nonempty n blocks hn
  · rw [Dict.get2?_set2] at hn
    split at hn
    · cases hn
      exact Nat.succ_pos _
    · exact h.positive n d count hn

theorem setSignalLoopBlock_false {blocks : Dict ReplicationSignalConfig Nat}
    (hnode : s.signalLoopBlock.get? node = some blocks) (hc : blocks.get? c = some (count + 1)) :
    (s.setSignalLoopBlock node c false).signalLoopBlock =
      if 0 < count then s.signalLoopBlock.set node (blocks.set c count)
      else if (blocks.erase c).size = 0 then s.signalLoopBlock.erase node
      else s.signalLoopBlock.set node (blocks.erase c) := by
  have hmem : c ∈ blocks := (Dict.mem_iff_get? _).2 ⟨_, hc⟩
  simp only [FieldState.setSignalLoopBlock, Dict.getD_of_get? _ hnode, Dict.getD_of_get? _ hc,
    Bool.false_eq_true, ↓reduceIte, hmem, not_true_eq_false, gt_iff_lt, Nat.lt_add_left_iff_pos,
    Nat.add_sub_cancel]
  split
  · rfl
  · split
    · rfl
    · rfl

/-- What a remote emission does to the block when it begins, it undoes when it ends. -/
theorem restores (h : LoopBlock s.signalLoopBlock) {s' : FieldState N}
    (hs' : s'.signalLoopBlock = (s.setSignalLoopBlock node c true).signalLoopBlock) :
    (s'.setSignalLoopBlock node c false).signalLoopBlock = s.signalLoopBlock := by
  rw [setSignalLoopBlock_true, Dict.set2] at hs'
  have hnode := congrArg (fun d => d.get? node) hs'
  simp only [Dict.get?_set_self] at hnode
  rw [setSignalLoopBlock_false hnode (Dict.get?_set_self _), hs', Dict.set_set, Dict.set_set]
  cases hget : s.signalLoopBlock.get? node with
  | none =>
    have hempty : s.signalLoopBlock.getD node .empty = .empty := by
      rw [Dict.getD, hget]
      rfl
    have hzero : ((Dict.empty : Dict ReplicationSignalConfig Nat).getD c 0) = 0 := rfl
    rw [hempty, hzero, if_neg (Nat.lt_irrefl 0), Dict.erase_set_of_not_mem _ Dict.not_mem_empty]
    exact Dict.erase_set_of_not_mem _ ((Dict.get?_eq_none_iff _).1 hget)
  | some blocks =>
    rw [Dict.getD_of_get? _ hget]
    cases hcount : blocks.get? c with
    | none =>
      have hzero : blocks.getD c 0 = 0 := by
        rw [Dict.getD, hcount]
        rfl
      rw [hzero, if_neg (Nat.lt_irrefl 0),
        Dict.erase_set_of_not_mem _ ((Dict.get?_eq_none_iff _).1 hcount),
        if_neg (h.nonempty node blocks hget), Dict.set_set, Dict.set_of_get? _ hget]
    | some count =>
      have hpos : 0 < count := by
        apply h.positive node c
        rw [Dict.get2?, hget]
        exact hcount
      rw [Dict.getD_of_get? _ hcount, if_pos hpos, Dict.set_of_get? _ hcount,
        Dict.set_of_get? _ hget]

end LoopBlock

/-- The pairs of the remote emissions around are the ones that are blocked. -/
structure Within (inside : List (N × ReplicationSignalConfig)) (s : FieldState N) : Prop where
  block : LoopBlock s.signalLoopBlock
  blocked : ∀ n d, s.isSignalLoopBlocked n d = decide ((n, d) ∈ inside)

theorem Within.of_eq {s s' : FieldState N} (h : Within inside s)
    (hs' : s'.signalLoopBlock = s.signalLoopBlock) : Within inside s' := by
  refine ⟨hs' ▸ h.block, fun n d => ?_⟩
  rw [← h.blocked n d, FieldState.isSignalLoopBlocked, hs']
  rfl

theorem Within.of_empty {s : FieldState N} (hs : s.signalLoopBlock = .empty) : Within [] s := by
  refine ⟨hs ▸ LoopBlock.empty, fun n d => ?_⟩
  rw [FieldState.isSignalLoopBlocked, hs]
  rfl

theorem Within.set {s : FieldState N} (h : Within inside s) (node : N)
    (c : ReplicationSignalConfig) :
    Within ((node, c) :: inside) (s.setSignalLoopBlock node c true) := by
  refine ⟨h.block.set node c, fun n d => ?_⟩
  rw [LoopBlock.isSignalLoopBlocked_setSignalLoopBlock, h.blocked]
  simp only [List.mem_cons, Bool.decide_or]

namespace SignalCalls

variable {calls : SignalCalls N} {s : FieldState N}

/-- What is heard within some remote emissions, and the block at the end: by induction on the
calls, as every remote emission undoes what it has done to the block. -/
theorem run_nested (h : calls.Nested) (hs : Within inside s) :
    (calls.run s).2 = calls.heardWithin inside ∧
      (calls.run s).1.signalLoopBlock = s.signalLoopBlock := by
  induction calls generalizing s inside with
  | done => exact ⟨rfl, rfl⟩
  | elsewhere work next ih =>
    have hwork := work.signalLoopBlock_eq s
    obtain ⟨hheard, hblock⟩ := ih h (hs.of_eq hwork)
    exact ⟨hheard, hblock.trans hwork⟩
  | onSignalEmit node c send next ih =>
    simp only [run, heardWithin, hs.blocked node c]
    by_cases hblocked : (node, c) ∈ inside
    · obtain ⟨hheard, hblock⟩ := ih h hs
      simp only [hblocked, decide_true, ↓reduceIte]
      exact ⟨congrArg _ hheard, hblock⟩
    · have hsend := send.signalLoopBlock_eq s
      obtain ⟨hheard, hblock⟩ := ih h (hs.of_eq hsend)
      simp only [hblocked, decide_false, Bool.false_eq_true, ↓reduceIte]
      exact ⟨congrArg _ hheard, hblock.trans hsend⟩
  | signalReplicate node c canWeRecv argCount body next ihbody ihnext =>
    by_cases hrecv : canWeRecv = true
    · obtain ⟨hnine, hbody⟩ := h.1 hrecv
      simp only [run, heardWithin, hrecv, Bool.not_true, Bool.false_eq_true, ↓reduceIte,
        if_neg hnine, true_and]
      by_cases hcount : argCount ≤ 8
      · obtain ⟨hheard, hblock⟩ := ihbody (hbody hcount) (hs.set node c)
        have hback := hs.block.restores hblock
        obtain ⟨hheard', hblock'⟩ := ihnext h.2 (hs.of_eq hback)
        simp only [if_pos hcount, hheard, hheard']
        exact ⟨trivial, hblock'.trans hback⟩
      · have hback : ((s.setSignalLoopBlock node c true).setSignalLoopBlock node c
            false).signalLoopBlock = s.signalLoopBlock := hs.block.restores rfl
        obtain ⟨hheard, hblock⟩ := ihnext h.2 (hs.of_eq hback)
        simp only [if_neg hcount, List.nil_append]
        exact ⟨hheard, hblock.trans hback⟩
    · simp only [run, heardWithin, hrecv, Bool.not_false, Bool.false_eq_true, ↓reduceIte,
        false_and]
      exact ihnext h.2 hs

/-- A local emission is suppressed exactly within a remote emission of the same signal of the
same node, and nothing stays blocked. -/
theorem suppressed_iff_within (calls : SignalCalls N) (h : calls.Nested) (s : FieldState N)
    (hs : s.signalLoopBlock = .empty) : (calls.run s).2 = calls.heardWithin [] ∧
      (calls.run s).1.signalLoopBlock = s.signalLoopBlock :=
  run_nested h (.of_empty hs)

/-- A signal of the player, and one of the service's. -/
def hurtConfig : ReplicationSignalConfig := { instanceId := 1, name := "hurt", argCount := 1 }
def doneConfig : ReplicationSignalConfig := { instanceId := 2, name := "done" }

def sendsNothing : Elsewhere FieldNode := ⟨id, fun _ => rfl⟩

/-- While the player is hurt remotely, what listens hurts it again, and so does another remote
emission; afterwards it is hurt locally. -/
def hurtTwice : SignalCalls FieldNode :=
  .signalReplicate .player hurtConfig true 1
    (.onSignalEmit .player hurtConfig sendsNothing
      (.signalReplicate .sync doneConfig true 0
        (.signalReplicate .player hurtConfig true 1
          (.onSignalEmit .player hurtConfig sendsNothing .done) .done)
        (.onSignalEmit .sync doneConfig sendsNothing
          (.onSignalEmit .player hurtConfig sendsNothing .done))))
    (.onSignalEmit .player hurtConfig sendsNothing .done)

theorem hurtTwice_suppressed : (hurtTwice.run fieldState).2 =
      [⟨.player, hurtConfig, true⟩, ⟨.player, hurtConfig, true⟩, ⟨.sync, doneConfig, false⟩,
        ⟨.player, hurtConfig, true⟩, ⟨.player, hurtConfig, false⟩] ∧
    (hurtTwice.run fieldState).1.signalLoopBlock = fieldState.signalLoopBlock := by
  have hnested : hurtTwice.Nested := by
    simp [hurtTwice, Nested]
  have h := suppressed_iff_within hurtTwice hnested fieldState rfl
  exact ⟨h.1.trans (by decide), h.2⟩

/-- How often a pair is blocked. -/
def count (s : FieldState N) (node : N) (c : ReplicationSignalConfig) : Nat :=
  (s.signalLoopBlock.get2? node c).getD 0

theorem count_setSignalLoopBlock_true (s : FieldState N) (node : N)
    (c : ReplicationSignalConfig) : count (s.setSignalLoopBlock node c true) n d =
      count s n d + if (n, d) = (node, c) then 1 else 0 := by
  unfold count
  rw [LoopBlock.setSignalLoopBlock_true, Dict.get2?_set2]
  by_cases h : n = node ∧ d = c
  · obtain ⟨rfl, rfl⟩ := h
    simp only [and_self, ↓reduceIte, Option.getD_some, Dict.getD, Dict.get2?]
    cases s.signalLoopBlock.get? n with
    | none => rfl
    | some blocks => rfl
  · rw [if_neg h, if_neg (fun he => h (Prod.mk.inj he)), Nat.add_zero]

theorem count_of_get? {s : FieldState N} (h : s.signalLoopBlock.get? node = some blocks) :
    count s node d = blocks.getD d 0 := by
  rw [count, Dict.get2?, h]
  rfl

theorem count_of_get?_eq_none {s : FieldState N} (h : s.signalLoopBlock.get? node = none) :
    count s node d = 0 := by
  rw [count, Dict.get2?, h]
  rfl

theorem get?_setSignalLoopBlock_of_ne (s : FieldState N) (hn : n ≠ node) (block : Bool) :
    (s.setSignalLoopBlock node c block).signalLoopBlock.get? n = s.signalLoopBlock.get? n := by
  simp only [FieldState.setSignalLoopBlock]
  split
  · exact Dict.get?_set_ne _ hn
  · split
    · rfl
    · split
      · exact Dict.get?_set_ne _ hn
      · split
        · rw [Dict.get?_erase, if_neg hn]
        · exact Dict.get?_set_ne _ hn

theorem count_setSignalLoopBlock_false (s : FieldState N) (node : N)
    (c : ReplicationSignalConfig) : count (s.setSignalLoopBlock node c false) n d =
      count s n d - if (n, d) = (node, c) then 1 else 0 := by
  by_cases hn : n = node
  · subst hn
    simp only [Prod.mk.injEq, true_and]
    cases hnode : s.signalLoopBlock.get? n with
    | none =>
      have hblocks : s.signalLoopBlock.getD n .empty = .empty := by
        rw [Dict.getD, hnode]
        rfl
      have hsame : s.setSignalLoopBlock n c false = s := by
        simp only [FieldState.setSignalLoopBlock, hblocks, Bool.false_eq_true, ↓reduceIte,
          Dict.not_mem_empty, not_false_eq_true]
      rw [hsame, count_of_get?_eq_none hnode, Nat.zero_sub]
    | some blocks =>
      rw [count_of_get? hnode]
      simp only [FieldState.setSignalLoopBlock, Dict.getD_of_get? _ hnode, Bool.false_eq_true,
        ↓reduceIte]
      by_cases hc : c ∈ blocks
      · rw [if_neg (not_not_intro hc)]
        split
        · rw [count_of_get? (Dict.get?_set_self _), Dict.getD_set]
          split
          · next hd => rw [hd]
          · exact (Nat.sub_zero _).symm
        · next hcount =>
          have herase : (blocks.erase c).getD d 0 = blocks.getD d 0 - if d = c then 1 else 0 := by
            rw [Dict.getD_erase]
            split
            · next hd =>
              rw [hd]
              omega
            · exact (Nat.sub_zero _).symm
          rw [← herase]
          split
          · next hsize =>
            have hnone : (blocks.erase c).getD d 0 = 0 := by
              rw [Dict.getD, Dict.get?, List.length_eq_zero_iff.1 hsize]
              rfl
            rw [hnone]
            apply count_of_get?_eq_none
            rw [Dict.get?_erase, if_pos rfl]
          · exact count_of_get? (Dict.get?_set_self _)
      · rw [if_pos hc, count_of_get? hnode]
        split
        · next hd =>
          rw [hd, Dict.getD, (Dict.get?_eq_none_iff _).2 hc]
          rfl
        · exact (Nat.sub_zero _).symm
  · have hpair : (n, d) ≠ (node, c) := fun he => hn (Prod.mk.inj he).1
    rw [if_neg hpair, Nat.sub_zero, count, count, Dict.get2?, Dict.get2?,
      get?_setSignalLoopBlock_of_ne s hn]

theorem count_le_of_ended {s s' : FieldState N}
    (h : count (s.setSignalLoopBlock node c true) n d ≤ count s' n d) :
    count s n d ≤ count (s'.setSignalLoopBlock node c false) n d := by
  rw [count_setSignalLoopBlock_true] at h
  rw [count_setSignalLoopBlock_false]
  exact Nat.le_sub_of_add_le h

theorem count_lt_of_ended {s s' : FieldState N}
    (h : count (s.setSignalLoopBlock node c true) n d < count s' n d) :
    count s n d < count (s'.setSignalLoopBlock node c false) n d := by
  rw [count_setSignalLoopBlock_true] at h
  rw [count_setSignalLoopBlock_false]
  exact Nat.lt_sub_of_add_lt h

theorem count_le_run (calls : SignalCalls N) (s : FieldState N) :
    count s n d ≤ count (calls.run s).1 n d := by
  induction calls generalizing s with
  | done => exact Nat.le_refl _
  | elsewhere work next ih =>
    have hwork : count (work.apply s) n d = count s n d := by
      rw [count, work.signalLoopBlock_eq, count]
    exact hwork ▸ ih _
  | onSignalEmit node c send next ih =>
    simp only [run]
    split
    · exact ih s
    · have hsend : count (send.apply s) n d = count s n d := by
        rw [count, send.signalLoopBlock_eq, count]
      exact hsend ▸ ih _
  | signalReplicate node c canWeRecv argCount body next ihbody ihnext =>
    simp only [run]
    split
    · exact ihnext s
    · split
      · refine Nat.le_trans ?_ (ihnext _)
        rw [count_setSignalLoopBlock_true]
        exact Nat.le_add_right _ _
      · split
        · exact Nat.le_trans (count_le_of_ended (ihbody _)) (ihnext _)
        · exact Nat.le_trans (count_le_of_ended (Nat.le_refl _)) (ihnext _)

theorem count_lt_run (calls : SignalCalls N) (h : ¬ calls.Nested) (s : FieldState N) :
    ∃ n d, count s n d < count (calls.run s).1 n d := by
  induction calls generalizing s with
  | done => exact absurd trivial h
  | elsewhere work next ih =>
    obtain ⟨n, d, hlt⟩ := ih h (work.apply s)
    refine ⟨n, d, ?_⟩
    rw [count, work.signalLoopBlock_eq] at hlt
    exact hlt
  | onSignalEmit node c send next ih =>
    simp only [run]
    split
    · exact ih h s
    · obtain ⟨n, d, hlt⟩ := ih h (send.apply s)
      refine ⟨n, d, ?_⟩
      rw [count, send.signalLoopBlock_eq] at hlt
      exact hlt
  | signalReplicate node c canWeRecv argCount body next ihbody ihnext =>
    by_cases hrecv : canWeRecv = true
    · simp only [run, hrecv, Bool.not_true, Bool.false_eq_true, ↓reduceIte]
      by_cases hnine : argCount = 9
      · refine ⟨node, c, ?_⟩
        rw [if_pos hnine]
        refine Nat.lt_of_lt_of_le ?_ (count_le_run next _)
        rw [count_setSignalLoopBlock_true, if_pos rfl]
        exact Nat.lt_succ_self _
      · rw [if_neg hnine]
        by_cases hnext : next.Nested
        · have hbody : argCount ≤ 8 ∧ ¬ body.Nested := by
            by_contra hno
            exact h ⟨fun _ => ⟨hnine, fun hcount => by_contra (fun hb => hno ⟨hcount, hb⟩)⟩, hnext⟩
          obtain ⟨n, d, hlt⟩ := ihbody hbody.2 (s.setSignalLoopBlock node c true)
          refine ⟨n, d, ?_⟩
          simp only [hbody.1, ↓reduceIte]
          exact Nat.lt_of_lt_of_le (count_lt_of_ended hlt) (count_le_run next _)
        · split
          · obtain ⟨n, d, hlt⟩ := ihnext hnext _
            exact ⟨n, d, Nat.lt_of_le_of_lt (count_le_of_ended (count_le_run body _)) hlt⟩
          · obtain ⟨n, d, hlt⟩ := ihnext hnext _
            exact ⟨n, d, Nat.lt_of_le_of_lt (count_le_of_ended (Nat.le_refl _)) hlt⟩
    · have hnext : ¬ next.Nested := by
        intro hnext
        exact h ⟨fun he => absurd he hrecv, hnext⟩
      simp only [run, hrecv, Bool.not_false, ↓reduceIte]
      exact ihnext hnext s

/-- The block is back to what it was exactly if every remote emission has ended. -/
theorem signalLoopBlock_run_eq_iff (calls : SignalCalls N) (hs : s.signalLoopBlock = .empty) :
    (calls.run s).1.signalLoopBlock = s.signalLoopBlock ↔ calls.Nested := by
  constructor
  · intro hblock
    by_contra h
    obtain ⟨n, d, hlt⟩ := count_lt_run calls h s
    rw [count, count, hblock] at hlt
    exact Nat.lt_irrefl _ hlt
  · intro h
    exact (run_nested h (.of_empty hs)).2

end SignalCalls

namespace FieldWorld

variable (w : FieldWorld S N)

theorem signalLoopBlock_onSignalEmit (node : N) (c : ReplicationSignalConfig)
    (args : List Variant) (s : FieldState N) :
    (w.onSignalEmit node c args s).signalLoopBlock = s.signalLoopBlock := by
  have hsend (rpc : ReplicationMethodConfig) (args : List Variant) (peers : List Int)
      (s : FieldState N) : (peers.foldl (fun s p => w.send p w.replicationService rpc.name args s)
        s).signalLoopBlock = s.signalLoopBlock := by
    induction peers generalizing s with
    | nil => rfl
    | cons p peers ih => exact ih _
  unfold onSignalEmit
  split
  · rfl
  · split
    · rfl
    · simp only
      split
      · rfl
      · exact hsend _ _ _ _

/-- A signal is emitted, and the service hears of it if it listens. -/
def emission (node : N) (c : ReplicationSignalConfig) (args : List Variant) : SignalCalls N :=
  .elsewhere ⟨fun s => { s with effects := s.effects ++ [.emit node c.name args] }, fun _ => rfl⟩
    (if w.listens node c then
      .onSignalEmit node c
        ⟨w.onSignalEmit node c args, w.signalLoopBlock_onSignalEmit node c args⟩ .done
    else .done)

theorem emitSignal_eq_run (node : N) (c : ReplicationSignalConfig) (args : List Variant)
    (s : FieldState N) : w.emitSignal node c args s = ((w.emission node c args).run s).1 := by
  unfold emitSignal emission
  simp only [SignalCalls.run]
  by_cases hlistens : w.listens node c = true
  · simp only [hlistens, ↓reduceIte, SignalCalls.run]
    split
    · next hblocked => rw [onSignalEmit, if_pos hblocked]
    · rfl
  · simp only [hlistens, Bool.false_eq_true, ↓reduceIte, SignalCalls.run]

/-- On the server, what the service does with a signal is one of these runs. -/
theorem signalReplicate_eq_run {nodeId idx : Int} {args : List Variant} {s : FieldState N}
    (hfield : w.fieldAt signalField nodeId idx = some (node, c)) :
    w.signalReplicate nodeId idx args s =
      ((SignalCalls.signalReplicate node c (c.canTheyRecv (w.owner node) 1) args.length
        (w.emission node c args) .done).run s).1 := by
  simp only [signalReplicate, hfield, SignalCalls.run]
  split
  · rfl
  · split
    · rfl
    · split
      · rw [emitSignal_eq_run]
      · rfl

end FieldWorld

end Godaemon
