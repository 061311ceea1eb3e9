import Godaemon.Lib.Runs
import Godaemon.Replication.Config
import Godaemon.Services.VisibilityChange

namespace Godaemon
set_option autoImplicit true

namespace ReplicationService

variable {S N : Type} [DecidableEq N] {T : ServerTree S N} {s s' mid : ReplicationService N}

/-- Every connected peer has been told exactly the registered nodes that it may see. -/
def Converged (T : ServerTree S N) (s : ReplicationService N) : Prop :=
  ∀ p ∈ s.peers, ∀ n, s.told p n = true ↔
    n ∈ s.replicationVisibility ∧ T.alwaysVisible n = false ∧ s.effective T n p = true

/-- No cached answer is out of date. -/
def Fresh (T : ServerTree S N) (s : ReplicationService N) : Prop :=
  ∀ n p b, s.cached n p = some b → b = s.effective T n p

/-- What else holds of the state of a ReplicationService. -/
structure Tidy (T : ServerTree S N) (s : ReplicationService N) : Prop where
  told_cached : ∀ p n, s.told p n = true → s.cached n p = some true
  told_peer : ∀ p n, s.told p n = true → p ∈ s.peers
  cached_plain : ∀ n p b, s.cached n p = some b → T.alwaysVisible n = false
  client : ∀ p ∈ s.peers, p ≠ 1

/-- The entry of a node that has just been registered: nobody sees it. -/
def hiddenEntry : Dict Int Bool := (Dict.empty : Dict Int Bool).set 1 false

def entryOf (s : ReplicationService N) (node : N) : Dict Int Bool :=
  s.replicationVisibility.getD node hiddenEntry

/-- Every registered node from this one up, other than `node`, lets the peer through. -/
def Besides (T : ServerTree S N) (s : ReplicationService N) (node n : N) (p : Int) : Prop :=
  ∀ a ∈ T.path n, a ≠ T.root → a ≠ node → ∀ entry, s.replicationVisibility.get? a = some entry →
    value entry p = true

theorem value_hiddenEntry (p : Int) : value hiddenEntry p = false := by
  simp only [value, hiddenEntry, Dict.getD_set]
  split <;> rfl

theorem value_set_ne (entry : Dict Int Bool) (hp : p ≠ q) (hq : q ≠ 1) :
    value (entry.set q v) p = value entry p := by
  simp only [value, Dict.getD_set, if_neg hp, if_neg hq.symm]

theorem value_erase_ne (entry : Dict Int Bool) (hp : p ≠ q) (hq : q ≠ 1) :
    value (entry.erase q) p = value entry p := by
  simp only [value, Dict.getD_erase, if_neg hp, if_neg hq.symm]

theorem get?_registerReplication (a : N) :
    (s.registerReplication node).replicationVisibility.get? a =
      if a = node then some (s.entryOf node) else s.replicationVisibility.get? a := by
  unfold registerReplication entryOf Dict.getD
  by_cases hm : node ∈ s.replicationVisibility
  · obtain ⟨entry, he⟩ := (Dict.mem_iff_get? _).1 hm
    rw [if_pos hm, he, Option.getD_some]
    split
    · next h => rw [h, he]
    · rfl
  · rw [if_neg hm, Dict.get?_set, (Dict.get?_eq_none_iff _).2 hm]
    rfl

theorem get?_edited (a : N) :
    (s.edited node edit).replicationVisibility.get? a =
      if a = node then some (edit (s.entryOf node)) else s.replicationVisibility.get? a := by
  simp only [edited, Dict.get?_set, Dict.getD, get?_registerReplication, ↓reduceIte,
    Option.getD_some]
  split <;> rfl

theorem get?_changeVisibility (hcan : s.canRegister T node = true) (targets : List Int)
    (edit : Dict Int Bool → Dict Int Bool) (clearPeer : Int) (a : N) :
    (s.changeVisibility T node targets edit clearPeer).replicationVisibility.get? a =
      if a = node then some (edit (s.entryOf node)) else s.replicationVisibility.get? a := by
  obtain ⟨mid, hchange⟩ := changeVisibility_spec hcan targets edit clearPeer
  have hvisibility := hchange.queried.visibility
  rw [hchange.mid_frame] at hvisibility
  change (s.changeVisibility T node targets edit clearPeer).replicationVisibility = _ at hvisibility
  rw [hvisibility, get?_edited]

theorem get2?_changeVisibility (hcan : s.canRegister T node = true) (targets : List Int)
    (key : Int) (v : Bool) (clearPeer : Int) (a : N) (hq : q ≠ 1) :
    (s.changeVisibility T node targets (fun entry => entry.set key v)
        clearPeer).replicationVisibility.get2? a q =
      if a = node ∧ q = key then some v else s.replicationVisibility.get2? a q := by
  simp only [Dict.get2?, get?_changeVisibility hcan]
  by_cases ha : a = node
  · subst ha
    simp only [↓reduceIte, Option.bind_some, Dict.get?_set, true_and, entryOf, Dict.getD]
    split
    · rfl
    · cases s.replicationVisibility.get? a with
      | some entry => rfl
      | none =>
        simp only [Option.getD_none, hiddenEntry, Dict.get?_set, if_neg hq]
        rfl
  · rw [if_neg ha, if_neg (fun h => ha h.1)]

theorem effective_iff_besides (node : N) : s.effective T n p = true ↔
    Besides T s node n p ∧ (node ∈ T.path n → node ≠ T.root →
      ∀ entry, s.replicationVisibility.get? node = some entry → value entry p = true) := by
  rw [effective_iff]
  constructor
  · exact fun h => ⟨fun a ha hr _ => h a ha hr, h node⟩
  · rintro ⟨hb, hn⟩ a ha hr
    by_cases he : a = node
    · subst he
      exact hn ha hr
    · exact hb a ha hr he

theorem effective_edited : (s.edited node edit).effective T n p = true ↔
    Besides T s node n p ∧
      (node ∈ T.path n → node ≠ T.root → value (edit (s.entryOf node)) p = true) := by
  rw [effective_iff_besides node]
  simp only [Besides, get?_edited, ↓reduceIte, Option.some.injEq, forall_eq']
  refine and_congr_left fun _ => forall_congr' fun a => forall_congr' fun _ =>
    forall_congr' fun _ => forall_congr' fun hne => ?_
  rw [if_neg hne]

theorem effective_registerReplication :
    (s.registerReplication node).effective T n p = true ↔
      Besides T s node n p ∧
        (node ∈ T.path n → node ≠ T.root → value (s.entryOf node) p = true) := by
  rw [effective_iff_besides node]
  simp only [Besides, get?_registerReplication, ↓reduceIte, Option.some.injEq, forall_eq']
  refine and_congr_left fun _ => forall_congr' fun a => forall_congr' fun _ =>
    forall_congr' fun _ => forall_congr' fun hne => ?_
  rw [if_neg hne]

theorem effective_of_registerReplication
    (h : (s.registerReplication node).effective T n p = true) : s.effective T n p = true := by
  obtain ⟨hb, hv⟩ := effective_registerReplication.1 h
  refine (effective_iff_besides _).2 ⟨hb, fun hp hr entry he => ?_⟩
  have := hv hp hr
  rwa [entryOf, Dict.getD_of_get? _ he] at this

theorem effective_edited_of_not_path (hn : node ∉ T.path n) :
    (s.edited node edit).effective T n p = s.effective T n p := by
  rw [Bool.eq_iff_iff, effective_edited, effective_iff_besides node]
  simp [hn]

/-- The part of a change that concerns its first lookups: either its target is registered
already, or it stays hidden from the peers told about who have a cached answer that they see it.
-/
def Announced (s : ReplicationService N) (node : N) (targets : List Int)
    (edit : Dict Int Bool → Dict Int Bool) : Prop :=
  node ∈ s.replicationVisibility ∨ ∀ p ∈ targets, p ∈ s.peers → s.cached node p = some true →
    value (edit hiddenEntry) p = false

/-- Every answer at or below the target that is cached, or that the change looks up first, is
dropped by the change or still right after it. -/
def Dropped (T : ServerTree S N) (s : ReplicationService N) (node : N) (targets : List Int)
    (edit : Dict Int Bool → Dict Int Bool) (clearPeer : Int) : Prop :=
  ∀ n p, T.alwaysVisible n = false → node ∈ T.path n →
    (s.cached n p ≠ none ∨ Below T s node n ∧ p ∈ targets) →
      Clears T s node targets clearPeer p ∨
        oldAnswer T s node n p = (s.edited node edit).effective T n p

/-- A change that leaves nothing stale behind. -/
def SafeChange (T : ServerTree S N) (s : ReplicationService N) (node : N) (targets : List Int)
    (edit : Dict Int Bool → Dict Int Bool) (clearPeer : Int) : Prop :=
  s.canRegister T node = true →
    Announced s node targets edit ∧ Dropped T s node targets edit clearPeer

/-- The answer cached for a node and a peer, if there is one, is not out of date. -/
def Current (T : ServerTree S N) (s : ReplicationService N) (n : N) (p : Int) : Prop :=
  ∀ b, s.cached n p = some b → b = s.effective T n p

/-- What `Dropped` says about one node and one peer. -/
def DroppedAt (T : ServerTree S N) (s : ReplicationService N) (node : N) (targets : List Int)
    (edit : Dict Int Bool → Dict Int Bool) (clearPeer : Int) (n : N) (p : Int) : Prop :=
  T.alwaysVisible n = false → node ∈ T.path n →
    (s.cached n p ≠ none ∨ Below T s node n ∧ p ∈ targets) →
      Clears T s node targets clearPeer p ∨
        oldAnswer T s node n p = (s.edited node edit).effective T n p

section Change

variable {node : N} {targets : List Int} {edit : Dict Int Bool → Dict Int Bool} {clearPeer : Int}

theorem Change.effective (h : Change T s mid s' node targets edit clearPeer) :
    s'.effective T n p = (s.edited node edit).effective T n p := by
  refine effective_congr ?_
  have hv := h.queried.visibility
  rw [h.mid_frame] at hv
  exact hv

theorem Change.mid_effective (h : Change T s mid s' node targets edit clearPeer) :
    mid.effective T n p = (s.edited node edit).effective T n p := by
  refine effective_congr ?_
  rw [h.mid_frame]

theorem Change.peers (h : Change T s mid s' node targets edit clearPeer) : s'.peers = s.peers := by
  have hp := h.queried.peers
  rw [h.mid_frame] at hp
  exact hp

theorem Change.mem (h : Change T s mid s' node targets edit clearPeer) :
    n ∈ s'.replicationVisibility ↔ n = node ∨ n ∈ s.replicationVisibility := by
  have hv := h.queried.visibility
  rw [h.mid_frame] at hv
  rw [← mem_edited edit]
  exact iff_of_eq (congrArg (n ∈ ·) hv)

theorem Change.cached_of_mid (h : Change T s mid s' node targets edit clearPeer)
    (hm : mid.cached n p = some b) : s'.cached n p = some b := by
  have hr := h.queried.rest n p
  have hh := h.queried.hit n p
  by_cases ha : T.alwaysVisible n = false ∧ Below T s node n ∧ p ∈ targets
  · have he := hh ha.1 ha.2
    rw [answer, hm] at he
    exact he
  · have hnot : T.alwaysVisible n = true ∨ ¬ (Below T s node n ∧ p ∈ targets) := by
      cases hv : T.alwaysVisible n with
      | true => exact .inl rfl
      | false => exact .inr (fun hb => ha ⟨hv, hb⟩)
    exact (hr hnot).trans hm

theorem Change.cached_cases (h : Change T s mid s' node targets edit clearPeer)
    (hc : s'.cached n p = some b) : mid.cached n p = some b ∨
      T.alwaysVisible n = false ∧ Below T s node n ∧ p ∈ targets ∧
        mid.cached n p = none ∧ b = (s.edited node edit).effective T n p := by
  cases hm : mid.cached n p with
  | some b' =>
    rw [h.cached_of_mid hm] at hc
    exact .inl hc
  | none =>
    by_cases ha : T.alwaysVisible n = false ∧ Below T s node n ∧ p ∈ targets
    · have he := h.queried.hit n p ha.1 ha.2
      rw [answer, hm, Option.getD_none, h.mid_effective] at he
      have hcc : some b = _ := hc.symm.trans he
      exact .inr ⟨ha.1, ha.2.1, ha.2.2, rfl, Option.some.inj hcc⟩
    · have hnot : T.alwaysVisible n = true ∨ ¬ (Below T s node n ∧ p ∈ targets) := by
        cases hv : T.alwaysVisible n with
        | true => exact .inl rfl
        | false => exact .inr (fun hb => ha ⟨hv, hb⟩)
      have he := (h.queried.rest n p hnot).symm.trans hc
      rw [hm] at he
      cases he

theorem Change.mid_cached (h : Change T s mid s' node targets edit clearPeer)
    (hn : T.alwaysVisible n = false)
    (hc : s.cached n p ≠ none ∨ Below T s node n ∧ p ∈ targets)
    (hk : ¬ (Clears T s node targets clearPeer p ∧ node ∈ T.path n)) :
    mid.cached n p = some (oldAnswer T s node n p) := by
  by_cases hb : Below T s node n ∧ p ∈ targets
  · exact h.looked n p hk hn hb.1 hb.2
  · rw [h.kept n p hk (fun h => hb h.2)]
    cases hcc : s.cached n p with
    | none => exact absurd hcc (hc.resolve_right hb)
    | some b =>
      have h1 : (s.registerReplication node).cached n p = s.cached n p := by
        rw [registerReplication_frame]
        rfl
      rw [oldAnswer, answer, h1, hcc, Option.getD_some]

theorem Change.cached_plain (h : Change T s mid s' node targets edit clearPeer)
    (hplain : ∀ b, s.cached n p = some b → T.alwaysVisible n = false)
    (hc : s'.cached n p = some b) : T.alwaysVisible n = false := by
  rcases h.cached_cases hc with hm | ⟨hn, _⟩
  · have hk : ¬ (Clears T s node targets clearPeer p ∧ node ∈ T.path n) := fun hk => by
      rw [h.cleared n p hk.1 hk.2] at hm
      cases hm
    by_cases hb : T.alwaysVisible n = false ∧ Below T s node n ∧ p ∈ targets
    · exact hb.1
    · rw [h.kept n p hk hb] at hm
      exact hplain b hm
  · exact hn

/-- The answer that is cached after a change is right exactly if the change drops what is not. -/
theorem Change.current_iff (h : Change T s mid s' node targets edit clearPeer)
    (hplain : ∀ b, s.cached n p = some b → T.alwaysVisible n = false) (hf : Current T s n p) :
    Current T s' n p ↔ DroppedAt T s node targets edit clearPeer n p := by
  constructor
  · intro hf' hn hpath hc
    by_cases hk : Clears T s node targets clearPeer p
    · exact .inl hk
    · have hm := h.mid_cached hn hc (fun hk' => hk hk'.1)
      exact .inr ((hf' _ (h.cached_of_mid hm)).trans h.effective)
  · intro hd b hc
    rw [h.effective]
    rcases h.cached_cases hc with hm | ⟨_, _, _, _, hb⟩
    · have hk : ¬ (Clears T s node targets clearPeer p ∧ node ∈ T.path n) := fun hk => by
        rw [h.cleared n p hk.1 hk.2] at hm
        cases hm
      by_cases hp : node ∈ T.path n
      · have hask : T.alwaysVisible n = false ∧
            (s.cached n p ≠ none ∨ Below T s node n ∧ p ∈ targets) := by
          by_cases hb : T.alwaysVisible n = false ∧ Below T s node n ∧ p ∈ targets
          · exact ⟨hb.1, .inr hb.2⟩
          · have hs := (h.kept n p hk hb).symm.trans hm
            exact ⟨hplain b hs, .inl (by rw [hs]; simp)⟩
        have hm' := h.mid_cached hask.1 hask.2 hk
        rw [hm] at hm'
        rw [Option.some.inj hm']
        exact (hd hask.1 hp hask.2).resolve_left (fun hc => hk ⟨hc, hp⟩)
      · have hb : ¬ (T.alwaysVisible n = false ∧ Below T s node n ∧ p ∈ targets) :=
          fun hb => hp hb.2.1.2
        rw [h.kept n p hk hb] at hm
        rw [effective_edited_of_not_path hp]
        exact hf b hm
    · exact hb

theorem Change.fresh (h : Change T s mid s' node targets edit clearPeer) (ht : Tidy T s)
    (hf : Fresh T s) (hd : Dropped T s node targets edit clearPeer) : Fresh T s' :=
  fun n p => (h.current_iff (ht.cached_plain n p) (hf n p)).2 (hd n p)

theorem Change.mid_answer (h : Change T s mid s' node targets edit clearPeer)
    (hf : Fresh T s') : mid.answer T n p = (s.edited node edit).effective T n p := by
  rw [answer]
  cases hm : mid.cached n p with
  | none => rw [Option.getD_none, h.mid_effective]
  | some b => rw [Option.getD_some, hf n p b (h.cached_of_mid hm), h.effective]

theorem oldAnswer_of_cached (hc : s.cached n p = some b) : oldAnswer T s node n p = b := by
  have h1 : (s.registerReplication node).cached n p = s.cached n p := by
    rw [registerReplication_frame]
    rfl
  rw [oldAnswer, answer, h1, hc, Option.getD_some]

theorem oldAnswer_cases (ho : oldAnswer T s node n p = true) : s.cached n p = some true ∨
    (s.registerReplication node).effective T n p = true := by
  have h1 : (s.registerReplication node).cached n p = s.cached n p := by
    rw [registerReplication_frame]
    rfl
  rw [oldAnswer, answer, h1] at ho
  cases hc : s.cached n p with
  | none =>
    rw [hc, Option.getD_none] at ho
    exact .inr ho
  | some b =>
    rw [hc, Option.getD_some] at ho
    exact .inl (ho ▸ rfl)

theorem entryOf_of_not_mem (hm : node ∉ s.replicationVisibility) :
    s.entryOf node = hiddenEntry := by
  rw [entryOf, Dict.getD, (Dict.get?_eq_none_iff _).2 hm, Option.getD_none]

/-- The peers that a change neither tells nor clears are not affected by its edit. -/
def Others (s : ReplicationService N) (targets : List Int) (edit : Dict Int Bool → Dict Int Bool)
    (clearPeer : Int) : Prop :=
  ∀ p ∈ s.peers, p ∉ targets → clearPeer ≠ 1 ∧ p ≠ clearPeer ∧
    ∀ entry, value (edit entry) p = value entry p

theorem Change.told_iff_of_not_below (h : Change T s mid s' node targets edit clearPeer)
    (hcv : Converged T s) (hp : p ∈ s.peers) (hb : ¬ Below T s node n)
    (htold : s'.told p n = s.told p n) :
    s'.told p n = true ↔ n ∈ s'.replicationVisibility ∧ T.alwaysVisible n = false ∧
      s'.effective T n p = true := by
  rw [htold, hcv p hp n, h.effective, h.mem]
  by_cases hpath : node ∈ T.path n
  · have hno : ¬ (n = node ∨ n ∈ s.replicationVisibility) := fun hm => hb ⟨hm, hpath⟩
    simp only [hno, false_and, iff_false]
    exact fun hm => hno (.inr hm.1)
  · have hne : n ≠ node := fun he => hpath (he ▸ T.self_mem_path n)
    simp only [hne, false_or, effective_edited_of_not_path hpath]

theorem Change.told_iff_of_below (h : Change T s mid s' node targets edit clearPeer)
    (ht : Tidy T s) (hcv : Converged T s) (hf : Fresh T s) (hf' : Fresh T s')
    (ha : Announced s node targets edit) (hp : p ∈ s.peers) (hpt : p ∈ targets)
    (hn : T.alwaysVisible n = false) (hb : Below T s node n) :
    s'.told p n = (s.edited node edit).effective T n p := by
  rw [h.told p n hn, if_pos ⟨⟨hpt, hp⟩, hb⟩, h.mid_answer hf']
  cases he : (s.edited node edit).effective T n p with
  | false =>
    cases ho : oldAnswer T s node n p with
    | true => simp
    | false =>
      simp only [Bool.false_eq_true, false_and, ↓reduceIte]
      cases htold : s.told p n with
      | false => rfl
      | true =>
        rw [oldAnswer_of_cached (ht.told_cached p n htold)] at ho
        cases ho
  | true =>
    cases ho : oldAnswer T s node n p with
    | false => simp
    | true =>
      -- nothing is sent, so the peer has to know the node already
      simp only [Bool.true_eq_false, and_false, ↓reduceIte]
      rw [hcv p hp n]
      by_cases hm : n ∈ s.replicationVisibility
      · refine ⟨hm, hn, ?_⟩
        rcases oldAnswer_cases ho with hc | hc
        · exact (hf n p true hc).symm
        · exact effective_of_registerReplication hc
      · have hnode : n = node := hb.1.resolve_right hm
        subst hnode
        have hr := ne_root_of_not_alwaysVisible hn
        rcases oldAnswer_cases ho with hc | hc
        · have hv := (effective_edited.1 he).2 (T.self_mem_path n) hr
          rw [entryOf_of_not_mem hm, ha.resolve_left hm p hpt hp hc] at hv
          cases hv
        · have hv := (effective_registerReplication.1 hc).2 (T.self_mem_path n) hr
          rw [entryOf_of_not_mem hm, value_hiddenEntry] at hv
          cases hv

theorem Change.told_iff_of_other (h : Change T s mid s' node targets edit clearPeer)
    (ht : Tidy T s) (hcv : Converged T s) (hd : Dropped T s node targets edit clearPeer)
    (ho : Others s targets edit clearPeer) (hp : p ∈ s.peers) (hpt : p ∉ targets)
    (hn : T.alwaysVisible n = false) : s'.told p n = true ↔ n ∈ s'.replicationVisibility ∧
      T.alwaysVisible n = false ∧ s'.effective T n p = true := by
  have htold : s'.told p n = s.told p n := by
    rw [h.told p n hn, if_neg (fun hc => hpt hc.1.1)]
  by_cases hb : Below T s node n
  · obtain ⟨hk, hpk, hv⟩ := ho p hp hpt
    rw [htold, hcv p hp n, h.effective, h.mem, effective_iff_besides node,
      effective_edited, hv]
    by_cases hm : node ∈ s.replicationVisibility
    · obtain ⟨entry, he⟩ := (Dict.mem_iff_get? _).1 hm
      have hnode : n = node ∨ n ∈ s.replicationVisibility ↔ n ∈ s.replicationVisibility :=
        ⟨fun h => h.elim (fun h => h ▸ hm) (fun h => h), .inr⟩
      simp only [hnode, he, entryOf, Dict.getD_of_get? _ he, Option.some.injEq, forall_eq']
    · have hnone := (Dict.get?_eq_none_iff s.replicationVisibility).2 hm
      by_cases hr : node = T.root
      · have hne : n ≠ node := fun he => ne_root_of_not_alwaysVisible hn (he.trans hr)
        simp only [hne, false_or]
        simp only [hr, ne_eq, not_true_eq_false, false_implies, implies_true, and_true]
      · have hno : ¬ s.told p n = true := fun htrue => by
          have hc := ht.told_cached p n htrue
          rcases hd n p hn hb.2 (.inl (by rw [hc]; simp)) with hcl | heq
          · exact hcl.2.elim hk hpk
          · rw [oldAnswer_of_cached hc] at heq
            have hv' := (effective_edited.1 heq.symm).2 hb.2 hr
            rw [hv, entryOf_of_not_mem hm, value_hiddenEntry] at hv'
            cases hv'
        rw [hcv p hp n, effective_iff_besides node] at hno
        rw [entryOf_of_not_mem hm, value_hiddenEntry]
        constructor
        · exact fun htrue => absurd htrue hno
        · rintro ⟨_, _, _, hv'⟩
          cases hv' hb.2 hr
  · exact h.told_iff_of_not_below hcv hp hb htold

theorem Change.converged (h : Change T s mid s' node targets edit clearPeer)
    (ht : Tidy T s) (hcv : Converged T s) (hf : Fresh T s) (ha : Announced s node targets edit)
    (hd : Dropped T s node targets edit clearPeer) (ho : Others s targets edit clearPeer) :
    Converged T s' := by
  intro p hp n
  rw [h.peers] at hp
  have hf' := h.fresh ht hf hd
  cases hn : T.alwaysVisible n with
  | true =>
    rw [h.told_always p n hn, hcv p hp n, hn]
    simp
  | false =>
    by_cases hpt : p ∈ targets
    · by_cases hb : Below T s node n
      · rw [h.told_iff_of_below ht hcv hf hf' ha hp hpt hn hb, h.effective, h.mem]
        exact ⟨fun he => ⟨hb.1, rfl, he⟩, fun he => he.2.2⟩
      · have hx := h.told_iff_of_not_below hcv hp hb
          (by rw [h.told p n hn, if_neg (fun hc => hb hc.2)])
        rwa [hn] at hx
    · have hx := h.told_iff_of_other ht hcv hd ho hp hpt hn
      rwa [hn] at hx

theorem Change.tidy (h : Change T s mid s' node targets edit clearPeer)
    (ht : Tidy T s) (hcv : Converged T s) (ho : Others s targets edit clearPeer)
    (hcv' : Converged T s') (hf' : Fresh T s') : Tidy T s' := by
  have hcase (p : Int) (n : N) (htold : s'.told p n = true) : T.alwaysVisible n = false ∧
      ((p ∈ targets ∧ p ∈ s.peers) ∧ Below T s node n ∨
        ¬ ((p ∈ targets ∧ p ∈ s.peers) ∧ Below T s node n) ∧ s.told p n = true) := by
    cases hn : T.alwaysVisible n with
    | true =>
      rw [h.told_always p n hn] at htold
      rw [ht.cached_plain n p true (ht.told_cached p n htold)] at hn
      cases hn
    | false =>
      refine ⟨rfl, ?_⟩
      by_cases hc : (p ∈ targets ∧ p ∈ s.peers) ∧ Below T s node n
      · exact .inl hc
      · rw [h.told p n hn, if_neg hc] at htold
        exact .inr ⟨hc, htold⟩
  refine ⟨fun p n htold => ?_, fun p n htold => ?_, fun n p b hc => ?_, fun p hp => ?_⟩
  · obtain ⟨hn, hc | ⟨hno, htold'⟩⟩ := hcase p n htold
    · have he := ((hcv' p (h.peers ▸ hc.1.2) n).1 htold).2.2
      have hh := h.queried.hit n p hn ⟨hc.2, hc.1.1⟩
      rw [h.mid_answer hf', ← h.effective, he] at hh
      exact hh
    · have hp := ht.told_peer p n htold'
      have hreg := ((hcv p hp n).1 htold').1
      have hk : ¬ (Clears T s node targets clearPeer p ∧ node ∈ T.path n) := fun hk => by
        by_cases hpt : p ∈ targets
        · exact hno ⟨⟨hpt, hp⟩, .inr hreg, hk.2⟩
        · obtain ⟨h1, h2, _⟩ := ho p hp hpt
          exact hk.1.2.elim h1 h2
      refine h.cached_of_mid ?_
      rw [h.kept n p hk (fun hb => hno ⟨⟨hb.2.2, hp⟩, hb.2.1⟩)]
      exact ht.told_cached p n htold'
  · rw [h.peers]
    obtain ⟨_, hc | ⟨_, htold'⟩⟩ := hcase p n htold
    · exact hc.1.2
    · exact ht.told_peer p n htold'
  · exact h.cached_plain (ht.cached_plain n p) hc
  · rw [h.peers] at hp
    exact ht.client p hp

theorem Change.safe_of_converged (h : Change T s mid s' node targets edit clearPeer)
    (ht : Tidy T s) (hcv : Converged T s) (hf : Fresh T s) (hcv' : Converged T s')
    (hf' : Fresh T s') :
    Announced s node targets edit ∧ Dropped T s node targets edit clearPeer := by
  constructor
  · by_cases hm : node ∈ s.replicationVisibility
    · exact .inl hm
    · refine .inr (fun p hpt hp hc => ?_)
      by_contra hv
      have hn := ht.cached_plain node p true hc
      have hb : Below T s node node := ⟨.inl rfl, T.self_mem_path node⟩
      have he : (s.edited node edit).effective T node p = true := by
        refine effective_edited.2 ⟨((effective_iff_besides _).1 (hf node p true hc).symm).1, ?_⟩
        intro _ _
        rw [entryOf_of_not_mem hm]
        simpa using hv
      have htold := (hcv' p (h.peers.symm ▸ hp) node).2
        ⟨h.mem.2 (.inl rfl), hn, by rw [h.effective, he]⟩
      rw [h.told p node hn, if_pos ⟨⟨hpt, hp⟩, hb⟩, h.mid_answer hf', he,
        oldAnswer_of_cached hc] at htold
      simp only [Bool.true_eq_false, and_false, ↓reduceIte] at htold
      exact hm ((hcv p hp node).1 htold).1
  · intro n p
    exact (h.current_iff (ht.cached_plain n p) (hf n p)).1 (hf' n p)

end Change

end ReplicationService

end Godaemon
