import Mathlib.Logic.Function.Basic
import Godaemon.Lib.Runs

set_option autoImplicit true

/-- A value that a hub and its spokes each hold and write. Every write of a spoke goes up to the
hub, and the hub passes on what it takes in. The channels keep the order. -/
@[ext]
structure Hub (P V : Type) where
  value : V
  /-- Whose write the hub's value is; `none` is the hub itself. -/
  origin : Option P
  spoke : P → V
  up : P → List V
  down : P → List V
  /-- What a spoke has taken in last since it wrote. -/
  heard : P → Option V

namespace Hub

variable {P V : Type} [DecidableEq P]

inductive Event (P V : Type) where
  | write (v : V)
  | spokeWrite (p : P) (v : V)
  | deliverUp (p : P)
  | deliverDown (p : P)

/-- The hub's value changes, and the spokes that the origin reaches are told. -/
def spread (reaches : Option P → P → Bool) (origin : Option P) (v : V) (h : Hub P V) : Hub P V :=
  { h with
    value := v
    origin := origin
    down := fun p => if reaches origin p then h.down p ++ [v] else h.down p }

def step (reaches : Option P → P → Bool) (h : Hub P V) : Event P V → Hub P V
  | .write v => h.spread reaches none v
  | .spokeWrite p v => { h with
    spoke := Function.update h.spoke p v
    up := Function.update h.up p (h.up p ++ [v])
    heard := Function.update h.heard p none }
  | .deliverUp p =>
    match h.up p with
    | [] => h
    | v :: rest => spread reaches (some p) v { h with
      up := Function.update h.up p rest }
  | .deliverDown p =>
    match h.down p with
    | [] => h
    | v :: rest => { h with
      spoke := Function.update h.spoke p v
      down := Function.update h.down p rest
      heard := Function.update h.heard p (some v) }

/-- How a spoke follows the hub: what it has heard last it holds; the last message to it carries
the hub's value, unless that came from the spoke; its own last write is what it sent last. -/
structure Follows (h : Hub P V) (p : P) : Prop where
  heard : ∀ v, h.heard p = some v → h.spoke p = v
  told : h.origin ≠ some p → ∀ v, (h.down p).getLast? = some v → v = h.value
  settled : h.origin ≠ some p → h.down p = [] → h.up p = [] → h.spoke p = h.value
  sent : h.heard p = none → ∀ v, (h.up p).getLast? = some v → v = h.spoke p
  taken : h.heard p = none → h.origin = some p → h.up p = [] → h.spoke p = h.value

variable {reaches : Option P → P → Bool} {h : Hub P V} {p : P}

omit [DecidableEq P] in
theorem Follows.congr {h' : Hub P V} (hf : h.Follows p) (hvalue : h'.value = h.value)
    (horigin : h'.origin = h.origin) (hspoke : h'.spoke p = h.spoke p) (hup : h'.up p = h.up p)
    (hdown : h'.down p = h.down p) (hheard : h'.heard p = h.heard p) : h'.Follows p := by
  apply Follows.mk
  · rw [hheard, hspoke]
    exact hf.heard
  · rw [horigin, hdown, hvalue]
    exact hf.told
  · rw [horigin, hdown, hup, hspoke, hvalue]
    exact hf.settled
  · rw [hheard, hup, hspoke]
    exact hf.sent
  · rw [hheard, horigin, hup, hspoke, hvalue]
    exact hf.taken

omit [DecidableEq P] in
theorem Follows.spread {o : Option P} (hf : h.Follows p) (v : V) (ho : o ≠ some p)
    (hreach : reaches o p = true) : (h.spread reaches o v).Follows p := by
  have hdown : (h.spread reaches o v).down p = h.down p ++ [v] := if_pos hreach
  apply Follows.mk
  · exact hf.heard
  · intro _ u hu
    rw [hdown, List.getLast?_append_of_ne_nil _ (List.cons_ne_nil v [])] at hu
    exact (Option.some.inj hu).symm
  · intro _ hnil
    rw [hdown] at hnil
    exact absurd hnil (List.append_ne_nil_of_right_ne_nil _ (List.cons_ne_nil v []))
  · exact hf.sent
  · intro _ ho'
    exact absurd ho' ho

theorem Follows.spokeWrite (hf : h.Follows p) (v : V) :
    (h.step reaches (.spokeWrite p v)).Follows p := by
  apply Follows.mk
  · intro u hu
    simp only [Hub.step, Function.update_self] at hu
    cases hu
  · exact hf.told
  · intro _ _ hnil
    simp only [Hub.step, Function.update_self] at hnil
    exact absurd hnil (List.append_ne_nil_of_right_ne_nil _ (List.cons_ne_nil v []))
  · intro _ u hu
    simp only [Hub.step, Function.update_self] at hu ⊢
    rw [List.getLast?_append_of_ne_nil _ (List.cons_ne_nil v [])] at hu
    exact (Option.some.inj hu).symm
  · intro _ _ hnil
    simp only [Hub.step, Function.update_self] at hnil
    exact absurd hnil (List.append_ne_nil_of_right_ne_nil _ (List.cons_ne_nil v []))

theorem Follows.deliverUp (hf : h.Follows p) : (h.step reaches (.deliverUp p)).Follows p := by
  cases hup : h.up p with
  | nil =>
    simp only [Hub.step, hup]
    exact hf
  | cons v rest =>
    simp only [Hub.step, hup, Hub.spread]
    apply Follows.mk
    · exact hf.heard
    · intro ho
      exact absurd rfl ho
    · intro ho
      exact absurd rfl ho
    · intro hnone u hu
      simp only [Function.update_self] at hu
      apply hf.sent hnone u
      rw [hup, List.getLast?_cons_of_ne_nil (by rintro rfl; cases hu)]
      exact hu
    · intro hnone _ hnil
      simp only [Function.update_self] at hnil
      subst hnil
      exact (hf.sent hnone v (by rw [hup]; rfl)).symm

theorem Follows.deliverDown (hf : h.Follows p) :
    (h.step reaches (.deliverDown p)).Follows p := by
  cases hdown : h.down p with
  | nil =>
    simp only [Hub.step, hdown]
    exact hf
  | cons v rest =>
    simp only [Hub.step, hdown]
    apply Follows.mk
    · intro u hu
      simp only [Function.update_self, Option.some.injEq] at hu ⊢
      exact hu
    · intro ho u hu
      simp only [Function.update_self] at hu
      apply hf.told ho u
      rw [hdown, List.getLast?_cons_of_ne_nil (by rintro rfl; cases hu)]
      exact hu
    · intro ho hnil _
      simp only [Function.update_self] at hnil ⊢
      subst hnil
      exact hf.told ho v (by rw [hdown]; rfl)
    · intro hnone
      simp only [Function.update_self] at hnone
      cases hnone
    · intro hnone
      simp only [Function.update_self] at hnone
      cases hnone

theorem Follows.step (hreach : ∀ o, o ≠ some p → reaches o p = true) (hf : h.Follows p)
    (e : Event P V) : (h.step reaches e).Follows p := by
  cases e with
  | write v => exact hf.spread v nofun (hreach none nofun)
  | spokeWrite q v =>
    by_cases hq : q = p
    · subst hq
      exact hf.spokeWrite v
    · have hne : p ≠ q := fun he => hq he.symm
      exact hf.congr rfl rfl (Function.update_of_ne hne _ _) (Function.update_of_ne hne _ _) rfl
        (Function.update_of_ne hne _ _)
  | deliverUp q =>
    by_cases hq : q = p
    · subst hq
      exact hf.deliverUp
    · have hne : p ≠ q := fun he => hq he.symm
      have hother : some q ≠ some p := fun he => hq (Option.some.inj he)
      cases hup : h.up q with
      | nil =>
        simp only [Hub.step, hup]
        exact hf
      | cons v rest =>
        simp only [Hub.step, hup]
        apply Follows.spread _ v hother (hreach _ hother)
        exact hf.congr rfl rfl rfl (Function.update_of_ne hne _ _) rfl rfl
  | deliverDown q =>
    by_cases hq : q = p
    · subst hq
      exact hf.deliverDown
    · have hne : p ≠ q := fun he => hq he.symm
      cases hdown : h.down q with
      | nil =>
        simp only [Hub.step, hdown]
        exact hf
      | cons v rest =>
        simp only [Hub.step, hdown]
        exact hf.congr rfl rfl (Function.update_of_ne hne _ _) rfl
          (Function.update_of_ne hne _ _) (Function.update_of_ne hne _ _)

/-- A spoke that every write of another reaches, follows the hub in every run. -/
theorem Follows.run (hreach : ∀ o, o ≠ some p → reaches o p = true) (hf : h.Follows p)
    (es : List (Event P V)) : (Runs.run (Hub.step reaches) h es).Follows p :=
  (Runs.always_of_step (P := fun h => Follows h p) (fun _ e hf => hf.step hreach e) hf es).last

/-- When nothing is on its way to or from a spoke, it agrees with the hub exactly if the hub's
value is not its own or it has heard nothing else since. -/
theorem Follows.agrees_iff (hf : h.Follows p) (hup : h.up p = []) (hdown : h.down p = []) :
    h.spoke p = h.value ↔ (h.origin = some p → ∀ v, h.heard p = some v → v = h.value) := by
  apply Iff.intro
  · intro hagree _ v hv
    rw [← hf.heard v hv, hagree]
  · intro hheard
    by_cases horigin : h.origin = some p
    · cases hcase : h.heard p with
      | none => exact hf.taken hcase horigin hup
      | some v => rw [hf.heard v hcase, hheard horigin v hcase]
    · exact hf.settled horigin hdown hup

end Hub
