import Mathlib.Order.Basic

set_option autoImplicit true

/-- A family of rooted trees given by parent links along which a rank decreases. -/
structure Forest (α : Type u) where
  parent : α → Option α
  rank : α → Nat
  rank_lt : ∀ {a b}, parent a = some b → rank b < rank a

namespace Forest

variable {α : Type u} (F : Forest α)

/-- The forest of roots alone. -/
def discrete : Forest α := ⟨fun _ => none, fun _ => 0, fun h => by cases h⟩

/-- Climb at most the given number of links, listing the nodes met. -/
def climb : Nat → α → List α
  | 0, a => [a]
  | k + 1, a =>
    a :: match F.parent a with
      | none => []
      | some b => climb k b

/-- The nodes from a node up to its root, the node itself first. -/
def path (a : α) : List α := F.climb (F.rank a) a

variable {F}

theorem climb_enough (hk : F.rank a ≤ k) (hl : F.rank a ≤ l) : F.climb k a = F.climb l a := by
  induction k generalizing a l with
  | zero =>
    cases l with
    | zero => rfl
    | succ l =>
      cases hp : F.parent a with
      | none => simp [climb, hp]
      | some b => have := F.rank_lt hp; omega
  | succ k ih =>
    cases hp : F.parent a with
    | none => cases l <;> simp [climb, hp]
    | some b =>
      have hr := F.rank_lt hp
      cases l with
      | zero => omega
      | succ l =>
        simp only [climb, hp]
        rw [ih (l := l) (by omega) (by omega)]

theorem path_of_root (h : F.parent a = none) : F.path a = [a] := by
  rw [path, climb_enough (l := F.rank a + 1) (Nat.le_refl _) (Nat.le_succ _)]
  simp only [climb, h]

theorem path_of_parent (h : F.parent a = some b) : F.path a = a :: F.path b := by
  have hr := F.rank_lt h
  rw [path, climb_enough (l := F.rank a + 1) (Nat.le_refl _) (Nat.le_succ _)]
  simp only [climb, h, path]
  rw [climb_enough (l := F.rank b) (Nat.le_of_lt hr) (Nat.le_refl _)]

theorem parent_induction {P : α → Prop} (h : ∀ a, (∀ b, F.parent a = some b → P b) → P a)
    (a : α) : P a := by
  induction hr : F.rank a using Nat.strongRecOn generalizing a with
  | ind n ih =>
    apply h
    intro b hb
    exact ih (F.rank b) (hr ▸ F.rank_lt hb) b rfl

theorem path_eq_cons (a : α) : ∃ t, F.path a = a :: t := by
  cases hp : F.parent a with
  | none => exact ⟨[], path_of_root hp⟩
  | some b => exact ⟨F.path b, path_of_parent hp⟩

@[simp] theorem self_mem_path (a : α) : a ∈ F.path a := by
  obtain ⟨t, ht⟩ := F.path_eq_cons a
  simp [ht]

theorem mem_path_iff : b ∈ F.path a ↔ b = a ∨ ∃ c, F.parent a = some c ∧ b ∈ F.path c := by
  cases hp : F.parent a with
  | none => simp [path_of_root hp]
  | some c => simp [path_of_parent hp]

theorem rank_le_of_mem_path (h : b ∈ F.path a) : F.rank b ≤ F.rank a := by
  induction a using F.parent_induction with
  | h a ih =>
    rcases mem_path_iff.1 h with rfl | ⟨c, hc, hb⟩
    · exact Nat.le_refl _
    · exact Nat.le_trans (ih c hc hb) (Nat.le_of_lt (F.rank_lt hc))

theorem rank_lt_of_mem_path (h : b ∈ F.path a) (hne : b ≠ a) : F.rank b < F.rank a := by
  rcases mem_path_iff.1 h with rfl | ⟨c, hc, hb⟩
  · exact absurd rfl hne
  · exact Nat.lt_of_le_of_lt (rank_le_of_mem_path hb) (F.rank_lt hc)

theorem mem_path_trans (h : b ∈ F.path a) (h' : c ∈ F.path b) : c ∈ F.path a := by
  induction a using F.parent_induction with
  | h a ih =>
    rcases mem_path_iff.1 h with he | ⟨d, hd, hb⟩
    · rw [he] at h'
      exact h'
    · rw [path_of_parent hd]
      exact List.mem_cons_of_mem _ (ih d hd hb)

/-- The first value that a partial labelling gives on the way up from a node. -/
def nearest (F : Forest α) (f : α → Option β) (a : α) : Option β := (F.path a).findSome? f

theorem nearest_of_some (h : f a = some v) : F.nearest f a = some v := by
  obtain ⟨t, ht⟩ := F.path_eq_cons a
  simp [nearest, ht, h]

theorem nearest_of_parent (h : f a = none) (hp : F.parent a = some b) :
    F.nearest f a = F.nearest f b := by
  simp [nearest, path_of_parent hp, h]

theorem path_eq_of_not_mem {F' : Forest α} (h : ∀ c, c ≠ a → F'.parent c = F.parent c)
    (hn : a ∉ F.path n) : F'.path n = F.path n := by
  induction n using F.parent_induction with
  | h n ih =>
    have hne : n ≠ a := by
      intro he
      rw [he] at hn
      exact hn (self_mem_path a)
    cases hp : F.parent n with
    | none => rw [path_of_root hp, path_of_root ((h n hne).trans hp)]
    | some m =>
      rw [path_of_parent hp] at hn ⊢
      rw [path_of_parent ((h n hne).trans hp), ih m hp (fun hm => hn (List.mem_cons_of_mem _ hm))]

theorem eq_of_mem_path (h : b ∈ F.path a) (h' : a ∈ F.path b) : a = b := by
  by_contra hne
  have h1 := rank_lt_of_mem_path h (fun he => hne he.symm)
  have h2 := rank_le_of_mem_path h'
  omega

/-- On the way up a level does not rise. -/
def Descends (F : Forest α) (level : α → Nat) : Prop :=
  ∀ a b, F.parent a = some b → level b ≤ level a

theorem Descends.path {level : α → Nat} (h : F.Descends level) (hb : b ∈ F.path a) :
    level b ≤ level a := by
  induction a using F.parent_induction with
  | h a ih =>
    rcases mem_path_iff.1 hb with he | ⟨c, hc, hm⟩
    · exact Nat.le_of_eq (congrArg level he)
    · exact Nat.le_trans (ih c hc hm) (h a c hc)

theorem mem_path_total (hb : b ∈ F.path a) (hc : c ∈ F.path a) :
    b ∈ F.path c ∨ c ∈ F.path b := by
  induction a using F.parent_induction with
  | h a ih =>
    rcases mem_path_iff.1 hb with he | ⟨d, hd, hm⟩
    · rw [he]
      exact .inr hc
    · rcases mem_path_iff.1 hc with he' | ⟨d', hd', hm'⟩
      · rw [he']
        exact .inl hb
      · rw [hd, Option.some.injEq] at hd'
        rw [← hd'] at hm'
        exact ih d hd hm hm'

/-- Climb from a node until one meets a condition. -/
def first (F : Forest α) (p : α → Bool) (a : α) : Option α := (F.path a).find? p

theorem first_eq_some_iff {p : α → Bool} : F.first p a = some z ↔
    p z = true ∧ z ∈ F.path a ∧ ∀ y ∈ F.path a, p y = true → y ∈ F.path z := by
  induction a using F.parent_induction with
  | h a ih =>
    by_cases ha : p a = true
    · have hself : F.first p a = some a := by
        obtain ⟨t, ht⟩ := F.path_eq_cons a
        rw [first, ht, List.find?_cons_of_pos ha]
      rw [hself, Option.some.injEq]
      constructor
      · intro he
        rw [← he]
        exact ⟨ha, self_mem_path a, fun y hy _ => hy⟩
      · intro h
        exact eq_of_mem_path h.2.1 (h.2.2 a (self_mem_path a) ha)
    · have hother (y : α) (hy : p y = true) : y ∈ F.path a ↔
          ∃ b, F.parent a = some b ∧ y ∈ F.path b := by
        rw [mem_path_iff]
        apply or_iff_right
        intro he
        exact ha (he ▸ hy)
      cases hp : F.parent a with
      | none =>
        have hnone : F.first p a = none := by
          rw [first, path_of_root hp, List.find?_cons_of_neg ha, List.find?_nil]
        rw [hnone]
        apply iff_of_false
        · intro h
          cases h
        · intro h
          obtain ⟨b, hb, _⟩ := (hother z h.1).1 h.2.1
          rw [hp] at hb
          cases hb
      | some b =>
        have hup (y : α) (hy : p y = true) : y ∈ F.path a ↔ y ∈ F.path b := by
          rw [hother y hy, hp]
          simp only [Option.some.injEq, exists_eq_left']
        have hfirst : F.first p a = F.first p b := by
          rw [first, path_of_parent hp, List.find?_cons_of_neg ha]
          rfl
        rw [hfirst, ih b hp]
        apply and_congr_right
        intro hz
        rw [hup z hz]
        apply and_congr_right
        intro _
        apply forall_congr'
        intro y
        constructor
        · intro h hy hpy
          exact h ((hup y hpy).1 hy) hpy
        · intro h hy hpy
          exact h ((hup y hpy).2 hy) hpy

variable [DecidableEq α]

/-- Hang a node, with all that is below it, below another one that is not. -/
def move (F : Forest α) (a b : α) (h : a ∉ F.path b) : Forest α where
  parent n := if n = a then some b else F.parent n
  rank n := if a ∈ F.path n then F.rank n + (F.rank b + 1) else F.rank n
  rank_lt {x y} hp := by
    by_cases hx : x = a
    · rw [if_pos hx, Option.some.injEq] at hp
      rw [← hp, if_neg h, hx, if_pos (self_mem_path a)]
      omega
    · rw [if_neg hx] at hp
      have hlt := F.rank_lt hp
      have hiff : a ∈ F.path x ↔ a ∈ F.path y := by
        rw [path_of_parent hp, List.mem_cons]
        exact or_iff_right (fun he => hx he.symm)
      by_cases hy : a ∈ F.path y
      · rw [if_pos hy, if_pos (hiff.2 hy)]
        omega
      · rw [if_neg hy, if_neg (fun hm => hy (hiff.1 hm))]
        exact hlt

variable {a b : α} {h : a ∉ F.path b}

theorem parent_move_of_ne (h : a ∉ F.path b) (hn : n ≠ a) :
    (F.move a b h).parent n = F.parent n := if_neg hn

theorem path_move_self : (F.move a b h).path a = a :: (F.move a b h).path b := by
  have hp : (F.move a b h).parent a = some b := if_pos rfl
  exact path_of_parent hp

theorem path_move_of_not_mem (hn : a ∉ F.path n) : (F.move a b h).path n = F.path n :=
  path_eq_of_not_mem (fun _ => parent_move_of_ne h) hn

/-- From a node that is moved the way goes up to the one that was hung elsewhere, and on from
there. -/
theorem mem_path_move (hn : a ∈ F.path n) :
    m ∈ (F.move a b h).path n ↔ (m ∈ F.path n ∧ a ∈ F.path m) ∨ m ∈ F.path b := by
  induction n using F.parent_induction with
  | h n ih =>
    by_cases hne : n = a
    · have hself : m ∈ F.path a ∧ a ∈ F.path m ↔ m = a := by
        constructor
        · intro hm
          exact eq_of_mem_path hm.2 hm.1
        · intro hm
          rw [hm]
          exact ⟨self_mem_path a, self_mem_path a⟩
      rw [hne, path_move_self, List.mem_cons, path_move_of_not_mem h, hself]
    · obtain ⟨k, hp, hk⟩ := (mem_path_iff.1 hn).resolve_left (fun he => hne he.symm)
      have hp' : (F.move a b h).parent n = some k := by rw [parent_move_of_ne h hne, hp]
      rw [path_of_parent hp', path_of_parent hp, List.mem_cons, List.mem_cons, ih k hp hk]
      constructor
      · rintro (hm | hm | hm)
        · rw [hm]
          exact .inl ⟨.inl rfl, hn⟩
        · exact .inl ⟨.inr hm.1, hm.2⟩
        · exact .inr hm
      · rintro (⟨hm | hm, ham⟩ | hm)
        · exact .inl hm
        · exact .inr (.inl ⟨hm, ham⟩)
        · exact .inr (.inr hm)

theorem mem_path_move_self : a ∈ (F.move a b h).path n ↔ a ∈ F.path n := by
  by_cases hn : a ∈ F.path n
  · exact iff_of_true ((mem_path_move hn).2 (.inl ⟨hn, self_mem_path a⟩)) hn
  · rw [path_move_of_not_mem hn]

/-- Make a root of a node, with all that is below it. -/
def detach (F : Forest α) (a : α) : Forest α where
  parent n := if n = a then none else F.parent n
  rank := F.rank
  rank_lt {x y} hp := by
    split at hp
    · cases hp
    · exact F.rank_lt hp

theorem parent_detach_self : (F.detach a).parent a = none := if_pos rfl

theorem parent_detach_of_ne (hn : n ≠ a) : (F.detach a).parent n = F.parent n := if_neg hn

theorem path_detach_of_not_mem (hn : a ∉ F.path n) : (F.detach a).path n = F.path n :=
  path_eq_of_not_mem (fun _ => parent_detach_of_ne) hn

theorem mem_path_detach (hn : a ∈ F.path n) :
    m ∈ (F.detach a).path n ↔ m ∈ F.path n ∧ a ∈ F.path m := by
  induction n using F.parent_induction with
  | h n ih =>
    by_cases hne : n = a
    · rw [hne, path_of_root parent_detach_self, List.mem_singleton]
      constructor
      · intro hm
        rw [hm]
        exact ⟨self_mem_path a, self_mem_path a⟩
      · intro hm
        exact eq_of_mem_path hm.2 hm.1
    · obtain ⟨k, hp, hk⟩ := (mem_path_iff.1 hn).resolve_left (fun he => hne he.symm)
      rw [path_of_parent ((parent_detach_of_ne hne).trans hp), path_of_parent hp, List.mem_cons,
        List.mem_cons, ih k hp hk]
      constructor
      · rintro (hm | hm)
        · rw [hm]
          exact ⟨.inl rfl, hn⟩
        · exact ⟨.inr hm.1, hm.2⟩
      · rintro ⟨hm | hm, ham⟩
        · exact .inl hm
        · exact .inr ⟨hm, ham⟩

theorem Descends.detach {level : α → Nat} (h : F.Descends level) (a : α) :
    (F.detach a).Descends level := by
  intro x y hp
  by_cases hx : x = a
  · rw [hx, parent_detach_self] at hp
    cases hp
  · rw [parent_detach_of_ne hx] at hp
    exact h x y hp

theorem Descends.move {level : α → Nat} (h : F.Descends level) (hab : level b ≤ level a)
    (hpath : a ∉ F.path b) : (F.move a b hpath).Descends level := by
  intro x y hp
  by_cases hx : x = a
  · have hself : (F.move a b hpath).parent a = some b := if_pos rfl
    rw [hx, hself, Option.some.injEq] at hp
    rw [hx, ← hp]
    exact hab
  · rw [parent_move_of_ne hpath hx] at hp
    exact h x y hp

end Forest
