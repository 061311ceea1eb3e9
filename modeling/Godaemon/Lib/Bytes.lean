import Mathlib.Algebra.Order.Ring.Int
import Mathlib.Data.List.Basic

set_option autoImplicit true

namespace Bytes

/-- The `w` low bytes of a number, least significant first. -/
def encode : Nat → Nat → List UInt8
  | 0, _ => []
  | w + 1, n => UInt8.ofNat n :: encode w (n / 256)

/-- The number whose bytes are given least significant first. -/
def decode : List UInt8 → Nat
  | [] => 0
  | b :: bs => b.toNat + 256 * decode bs

@[simp] theorem encode_length (w n : Nat) : (encode w n).length = w := by
  induction w generalizing n with
  | zero => rfl
  | succ w ih => simp [encode, ih]

theorem decode_encode (w n : Nat) : decode (encode w n) = n % 256 ^ w := by
  induction w generalizing n with
  | zero => simp [encode, decode, Nat.mod_one]
  | succ w ih =>
    have hb : (UInt8.ofNat n).toNat = n % 256 := rfl
    rw [encode, decode, ih, hb, Nat.pow_succ, Nat.mul_comm (256 ^ w), Nat.mod_mul]

theorem decode_lt (bs : List UInt8) : decode bs < 256 ^ bs.length := by
  induction bs with
  | nil => simp [decode]
  | cons b bs ih =>
    have hb : b.toNat < 256 := b.toNat_lt
    simp only [decode, List.length_cons, Nat.pow_succ]
    omega

variable {w : Nat} {z : Int}

/-- The residue that stands for an integer in `w` bytes of two's complement. -/
def residue (w : Nat) (z : Int) : Nat := (z % (256 ^ w : Nat)).toNat

/-- The integer that a residue of `w` bytes stands for in two's complement. -/
def signed (w : Nat) (n : Nat) : Int :=
  if 2 * n < 256 ^ w then n else (n : Int) - (256 ^ w : Nat)

theorem residue_lt (w : Nat) (z : Int) : residue w z < 256 ^ w := by
  have hpos : (0 : Int) < ((256 ^ w : Nat) : Int) := Int.natCast_pos.2 (Nat.pow_pos (by decide))
  have h0 := Int.emod_nonneg z (Int.ne_of_gt hpos)
  have h1 := Int.emod_lt_of_pos z hpos
  simp only [residue]
  omega

theorem residue_of_nonneg (h0 : 0 ≤ z) (h1 : z < (256 ^ w : Nat)) : (residue w z : Int) = z := by
  simp only [residue, Int.emod_eq_of_lt h0 h1, Int.toNat_of_nonneg h0]

theorem residue_of_neg (h0 : z < 0) (h1 : -((256 ^ w : Nat) : Int) ≤ z) :
    (residue w z : Int) = z + (256 ^ w : Nat) := by
  have h2 : z % (256 ^ w : Nat) = z + (256 ^ w : Nat) := by
    rw [← Int.add_emod_right, Int.emod_eq_of_lt (by omega) (by omega)]
  simp only [residue, h2]
  omega

theorem signed_residue (hlo : -((256 ^ w : Nat) : Int) ≤ 2 * z) (hhi : 2 * z < (256 ^ w : Nat)) :
    signed w (residue w z) = z := by
  rcases Int.lt_or_le z 0 with hz | hz
  · have h := residue_of_neg (w := w) hz (by omega)
    have hn : ¬ 2 * residue w z < 256 ^ w := by omega
    rw [signed, if_neg hn]
    omega
  · have h := residue_of_nonneg (w := w) hz (by omega)
    have hn : 2 * residue w z < 256 ^ w := by omega
    rw [signed, if_pos hn, h]

/-- Overwrite a stretch of bytes, starting at an offset. -/
def splice (bs : List UInt8) (c : Nat) (xs : List UInt8) : List UInt8 :=
  bs.take c ++ xs ++ bs.drop (c + xs.length)

@[simp] theorem splice_length (h : c + xs.length ≤ bs.length) :
    (splice bs c xs).length = bs.length := by
  simp only [splice, List.length_append, List.length_take, List.length_drop]
  omega

end Bytes
