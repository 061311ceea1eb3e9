import Mathlib.Algebra.Order.BigOperators.Group.List
import Mathlib.Data.Nat.Bitwise

set_option autoImplicit true

namespace BitFields

/-- A number whose bits are those of the fields, each with its width, the first one lowest. -/
def pack : List (Nat × Nat) → Nat
  | [] => 0
  | (bits, v) :: fields => v + 2 ^ bits * pack fields

def total (fields : List (Nat × Nat)) : Nat := (fields.map Prod.fst).sum

@[simp] theorem total_nil : total [] = 0 := rfl

@[simp] theorem total_cons (field : Nat × Nat) (fields : List (Nat × Nat)) :
    total (field :: fields) = field.1 + total fields := rfl

variable {bits i low n v : Nat} {fields : List (Nat × Nat)}

theorem or_shiftLeft (h : low < 2 ^ i) (v : Nat) : low ||| v <<< i = low + 2 ^ i * v := by
  rw [Nat.shiftLeft_eq, Nat.mul_comm, Nat.or_comm, Nat.add_comm]
  exact (Nat.two_pow_add_eq_or_of_lt h v).symm

theorem and_mask (n i bits : Nat) :
    n &&& (2 ^ bits - 1) <<< i = (n / 2 ^ i % 2 ^ bits) <<< i := by
  apply Nat.eq_of_testBit_eq
  intro k
  rw [Nat.testBit_and, Nat.testBit_shiftLeft, Nat.testBit_shiftLeft, Nat.testBit_two_pow_sub_one,
    Nat.testBit_mod_two_pow, ← Nat.shiftRight_eq_div_pow, Nat.testBit_shiftRight]
  by_cases hk : i ≤ k
  · rw [Nat.add_sub_of_le hk]
    cases n.testBit k <;> simp [hk]
  · simp [hk]

theorem field_pack (hlow : low < 2 ^ i) (hv : v < 2 ^ bits) (fields : List (Nat × Nat)) :
    (low + 2 ^ i * pack ((bits, v) :: fields)) / 2 ^ i % 2 ^ bits = v := by
  rw [Nat.add_mul_div_left _ _ (Nat.two_pow_pos i), Nat.div_eq_of_lt hlow, Nat.zero_add, pack,
    Nat.add_mul_mod_self_left, Nat.mod_eq_of_lt hv]

theorem low_add_pack (low i : Nat) (fields : List (Nat × Nat)) :
    low + 2 ^ i * pack ((bits, v) :: fields) =
      (low + 2 ^ i * v) + 2 ^ (i + bits) * pack fields := by
  rw [pack, Nat.mul_add, Nat.pow_add, Nat.mul_assoc, Nat.add_assoc]

theorem low_lt (hlow : low < 2 ^ i) (hv : v < 2 ^ bits) : low + 2 ^ i * v < 2 ^ (i + bits) := by
  rw [Nat.pow_add]
  calc low + 2 ^ i * v < 2 ^ i + 2 ^ i * v := Nat.add_lt_add_right hlow _
    _ = 2 ^ i * (v + 1) := by rw [Nat.mul_add, Nat.mul_one, Nat.add_comm]
    _ ≤ 2 ^ i * 2 ^ bits := Nat.mul_le_mul_left _ hv

end BitFields
