import Godaemon.Lib.BitFields

namespace Godaemon
set_option autoImplicit true

open BitFields

/-- Bits of a 64-bit integer, and the index of the next one. -/
structure Bitpacker where
  value : BitVec 64
  idx : Nat
  deriving DecidableEq

namespace Bitpacker

/-- `2 ** bits`, which is exact for up to 62 bits. -/
def twoPow (bits : Nat) : BitVec 64 := BitVec.ofNat 64 (2 ^ bits)

/-- Write a value; an assertion that fails ends it. -/
def write (bp : Bitpacker) (bits : Nat) (value : BitVec 64) : Option Bitpacker :=
  if 0 ≤ value.toInt ∧ 0 < bits ∧ bp.idx + bits ≤ 64 ∧ value.toInt < (twoPow bits).toInt then
    some ⟨bp.value ||| value <<< bp.idx, bp.idx + bits⟩
  else none

def read (bp : Bitpacker) (bits : Nat) : Option (BitVec 64 × Bitpacker) :=
  if 0 < bits ∧ bp.idx + bits ≤ 64 then
    let bitmask := (twoPow bits - 1) <<< bp.idx
    some ((bp.value &&& bitmask).sshiftRight bp.idx, { bp with idx := bp.idx + bits })
  else none

def writer : Bitpacker := ⟨0, 0⟩

def reader (value : BitVec 64) : Bitpacker := ⟨value, 0⟩

/-- Write fields in order, each with its width. -/
def writeAll (bp : Bitpacker) : List (Nat × Nat) → Option Bitpacker
  | [] => some bp
  | (bits, v) :: fields => (bp.write bits (BitVec.ofNat 64 v)).bind (fun bp => bp.writeAll fields)

def readAll (bp : Bitpacker) : List Nat → Option (List (BitVec 64))
  | [] => some []
  | bits :: widths => (bp.read bits).bind (fun r => (r.2.readAll widths).map (fun vs => r.1 :: vs))

/-- The fields that the assertions admit, but for single ones of 63 or 64 bits. -/
structure Admitted (fields : List (Nat × Nat)) : Prop where
  widths : ∀ field ∈ fields, 0 < field.1 ∧ field.1 ≤ 62
  values : ∀ field ∈ fields, field.2 < 2 ^ field.1
  total : total fields ≤ 64

/-- What is written is read back. -/
def RoundTrips (fields : List (Nat × Nat)) : Prop :=
  ∃ bp, writer.writeAll fields = some bp ∧ (reader bp.value).readAll (fields.map Prod.fst) =
    some (fields.map (fun field => BitVec.ofNat 64 field.2))

/-- If the last field reaches the sign bit, it leaves that bit clear. -/
def SignFree (i : Nat) (fields : List (Nat × Nat)) : Prop :=
  i + BitFields.total fields = 64 → ∀ field ∈ fields.getLast?, field.2 < 2 ^ (field.1 - 1)

variable {bp : Bitpacker} {bits v low : Nat} {fields : List (Nat × Nat)}

theorem Admitted.tail {field : Nat × Nat} (h : Admitted (field :: fields)) : Admitted fields := by
  refine ⟨fun f hf => h.widths f (List.mem_cons_of_mem _ hf),
    fun f hf => h.values f (List.mem_cons_of_mem _ hf), ?_⟩
  have htotal := h.total
  rw [total_cons] at htotal
  omega

theorem toNat_twoPow (h : bits ≤ 62) : (twoPow bits).toNat = 2 ^ bits := by
  rw [twoPow, BitVec.toNat_ofNat]
  exact Nat.mod_eq_of_lt (Nat.pow_lt_pow_right (by decide) (by omega))

theorem lt_two_pow_62 (hv : v < 2 ^ bits) (h : bits ≤ 62) : v < 2 ^ 62 :=
  hv.trans_le (Nat.pow_le_pow_right (by decide) h)

theorem toInt_ofNat_of_lt (hv : v ≤ 2 ^ 62) : (BitVec.ofNat 64 v).toInt = v := by
  have hmod : v % 2 ^ 64 = v := Nat.mod_eq_of_lt (by omega)
  rw [BitVec.toInt_eq_toNat_cond, BitVec.toNat_ofNat, hmod, if_pos (by omega)]

theorem write_eq (hlow : bp.value.toNat < 2 ^ bp.idx) (hbits : 0 < bits ∧ bits ≤ 62)
    (hv : v < 2 ^ bits) (hidx : bp.idx + bits ≤ 64) :
    ∃ next, bp.write bits (BitVec.ofNat 64 v) = some next ∧ next.idx = bp.idx + bits ∧
      next.value.toNat = bp.value.toNat + 2 ^ bp.idx * v := by
  have hv62 := lt_two_pow_62 hv hbits.2
  have hlt := (low_lt hlow hv).trans_le (Nat.pow_le_pow_right Nat.two_pos hidx)
  have hfield : v <<< bp.idx % 2 ^ 64 = v <<< bp.idx := by
    apply Nat.mod_eq_of_lt
    rw [Nat.shiftLeft_eq, Nat.mul_comm]
    omega
  have hpow : 2 ^ bits ≤ 2 ^ 62 := Nat.pow_le_pow_right Nat.two_pos hbits.2
  have hasserts : 0 ≤ (BitVec.ofNat 64 v).toInt ∧ 0 < bits ∧ bp.idx + bits ≤ 64 ∧
      (BitVec.ofNat 64 v).toInt < (twoPow bits).toInt := by
    rw [twoPow, toInt_ofNat_of_lt hv62.le, toInt_ofNat_of_lt hpow]
    exact ⟨Int.natCast_nonneg v, hbits.1, hidx, Int.ofNat_lt.2 hv⟩
  refine ⟨_, if_pos hasserts, rfl, ?_⟩
  rw [BitVec.toNat_or, BitVec.toNat_shiftLeft, BitVec.toNat_ofNat,
    Nat.mod_eq_of_lt (hv62.trans (by decide)), hfield, or_shiftLeft hlow]

theorem writeAll_eq (h : Admitted fields) (hlow : bp.value.toNat < 2 ^ bp.idx)
    (hidx : bp.idx + BitFields.total fields ≤ 64) : ∃ next, bp.writeAll fields = some next ∧
      next.value.toNat = bp.value.toNat + 2 ^ bp.idx * pack fields := by
  induction fields generalizing bp with
  | nil => exact ⟨bp, rfl, rfl⟩
  | cons field fields ih =>
    obtain ⟨bits, v⟩ := field
    rw [total_cons] at hidx
    have hv := h.values _ List.mem_cons_self
    obtain ⟨next, hwrite, hnext, hvalue⟩ :=
      write_eq hlow (h.widths _ List.mem_cons_self) hv (by omega)
    have hnextlow : next.value.toNat < 2 ^ next.idx := by
      rw [hvalue, hnext]
      exact low_lt hlow hv
    obtain ⟨last, hall, hlast⟩ := ih h.tail hnextlow (by rw [hnext]; omega)
    refine ⟨last, ?_, ?_⟩
    · rw [writeAll, hwrite]
      exact hall
    · rw [hlast, hvalue, hnext, low_add_pack]

theorem toNat_bitmask (h : bits ≤ 62) {i : Nat} (hidx : i + bits ≤ 64) :
    ((twoPow bits - 1) <<< i).toNat = (2 ^ bits - 1) <<< i := by
  have hsub : (twoPow bits - 1).toNat = 2 ^ bits - 1 := by
    have hle : (1 : BitVec 64) ≤ twoPow bits := by
      rw [BitVec.le_def, toNat_twoPow h]
      exact Nat.one_le_two_pow
    rw [BitVec.toNat_sub_of_le hle, toNat_twoPow h]
    rfl
  have hfull := low_lt (v := 2 ^ bits - 1) (Nat.two_pow_pos i)
    (Nat.sub_lt (Nat.two_pow_pos bits) Nat.one_pos)
  have hle := Nat.pow_le_pow_right Nat.two_pos hidx
  rw [BitVec.toNat_shiftLeft, hsub]
  apply Nat.mod_eq_of_lt
  rw [Nat.shiftLeft_eq, Nat.mul_comm]
  omega

theorem shiftLeft_lt_iff {i : Nat} (hbits : 0 < bits) (hv : v < 2 ^ bits) (hidx : i + bits ≤ 64) :
    v <<< i < 2 ^ 63 ↔ (i + bits = 64 → v < 2 ^ (bits - 1)) := by
  rw [Nat.shiftLeft_eq]
  by_cases hfull : i + bits = 64
  · have hpow : 2 ^ 63 = 2 ^ (bits - 1) * 2 ^ i := by
      rw [← Nat.pow_add]
      congr 1
      omega
    rw [hpow, Nat.mul_lt_mul_right (Nat.two_pow_pos i)]
    exact ⟨fun hclear _ => hclear, fun hclear => hclear hfull⟩
  · have hlt : v * 2 ^ i < 2 ^ (i + bits) := by
      rw [Nat.mul_comm]
      exact (Nat.le_add_left _ _).trans_lt (low_lt (Nat.two_pow_pos i) hv)
    exact iff_of_true (hlt.trans_le (Nat.pow_le_pow_right Nat.two_pos (by omega)))
      (fun h => absurd h hfull)

/-- A field is read back unless its highest bit is the sign bit and is set: the arithmetic shift
then spreads that bit. -/
theorem read_eq (hlow : low < 2 ^ bp.idx) (hbits : 0 < bits ∧ bits ≤ 62) (hv : v < 2 ^ bits)
    (hidx : bp.idx + bits ≤ 64)
    (hvalue : bp.value.toNat = low + 2 ^ bp.idx * pack ((bits, v) :: fields)) :
    ∃ result, bp.read bits = some (result, { bp with idx := bp.idx + bits }) ∧
      (result = BitVec.ofNat 64 v ↔ (bp.idx + bits = 64 → v < 2 ^ (bits - 1))) := by
  have hv62 := lt_two_pow_62 hv hbits.2
  obtain ⟨field, hfield⟩ : ∃ field, field = bp.value &&& (twoPow bits - 1) <<< bp.idx := ⟨_, rfl⟩
  have hnat : field.toNat = v <<< bp.idx := by
    rw [hfield, BitVec.toNat_and, toNat_bitmask hbits.2 hidx, and_mask, hvalue, field_pack hlow hv]
  have hmsb : field.msb = false ↔ (bp.idx + bits = 64 → v < 2 ^ (bits - 1)) := by
    rw [BitVec.msb_eq_decide, hnat, decide_eq_false_iff_not, Nat.not_le]
    exact shiftLeft_lt_iff hbits.1 hv hidx
  refine ⟨_, if_pos ⟨hbits.1, hidx⟩, ?_⟩
  rw [← hfield, ← hmsb]
  constructor
  · intro hresult
    rw [← BitVec.msb_sshiftRight, hresult, BitVec.msb_eq_decide, BitVec.toNat_ofNat,
      decide_eq_false_iff_not]
    have hmod := Nat.mod_le v (2 ^ 64)
    omega
  · intro hclear
    rw [BitVec.sshiftRight_eq_of_msb_false hclear]
    apply BitVec.eq_of_toNat_eq
    rw [BitVec.toNat_ushiftRight, hnat, Nat.shiftLeft_shiftRight, BitVec.toNat_ofNat,
      Nat.mod_eq_of_lt (by omega)]

/-- Only the last field can reach the sign bit. -/
theorem signFree_cons {i : Nat} (h : Admitted ((bits, v) :: fields))
    (hidx : i + BitFields.total ((bits, v) :: fields) ≤ 64) : SignFree i ((bits, v) :: fields) ↔
      (i + bits = 64 → v < 2 ^ (bits - 1)) ∧ SignFree (i + bits) fields := by
  cases fields with
  | nil =>
    constructor
    · intro hfree
      exact ⟨fun hfull => hfree hfull _ rfl, fun _ field hfield => nomatch hfield⟩
    · intro hfree hfull field hfield
      cases hfield
      exact hfree.1 hfull
  | cons next rest =>
    have hpos := (h.tail.widths next List.mem_cons_self).1
    simp only [total_cons] at hidx
    have hlast : ((bits, v) :: next :: rest).getLast? = (next :: rest).getLast? :=
      List.getLast?_cons_cons
    simp only [SignFree, total_cons, hlast, ← Nat.add_assoc]
    exact ⟨fun hfree => ⟨fun hfull => absurd hfull (by omega), hfree⟩, fun hfree => hfree.2⟩

theorem readAll_iff (h : Admitted fields) (hlow : low < 2 ^ bp.idx)
    (hidx : bp.idx + BitFields.total fields ≤ 64)
    (hvalue : bp.value.toNat = low + 2 ^ bp.idx * pack fields) :
    bp.readAll (fields.map Prod.fst) = some (fields.map (fun field => BitVec.ofNat 64 field.2)) ↔
      SignFree bp.idx fields := by
  induction fields generalizing bp low with
  | nil => exact iff_of_true rfl (fun _ field hfield => nomatch hfield)
  | cons field fields ih =>
    obtain ⟨bits, v⟩ := field
    have hsign := signFree_cons h hidx
    rw [total_cons] at hidx
    have hv := h.values _ List.mem_cons_self
    obtain ⟨result, hread, hresult⟩ := read_eq hlow (h.widths _ List.mem_cons_self) hv (by omega)
      hvalue
    obtain ⟨next, hnext⟩ : ∃ next, next = { bp with idx := bp.idx + bits } := ⟨_, rfl⟩
    have hidx' : next.idx + BitFields.total fields ≤ 64 := by
      rw [hnext]
      change bp.idx + bits + BitFields.total fields ≤ 64
      omega
    have hvalue' : next.value.toNat = (low + 2 ^ bp.idx * v) + 2 ^ next.idx * pack fields := by
      rw [hnext]
      exact hvalue.trans (low_add_pack low bp.idx fields)
    have hlow' : low + 2 ^ bp.idx * v < 2 ^ next.idx := by
      rw [hnext]
      exact low_lt hlow hv
    have hrest := ih h.tail hlow' hidx' hvalue'
    rw [hnext] at hrest
    rw [hsign, ← hresult, ← hrest]
    simp only [List.map_cons, readAll, hread, Option.bind_some]
    cases Bitpacker.readAll { bp with idx := bp.idx + bits } (fields.map Prod.fst) with
    | none => simp
    | some values => simp

/-- Fields that fit into 64 bits are read back exactly if the sign bit stays clear. -/
theorem roundTrips_iff (h : Admitted fields) : RoundTrips fields ↔ SignFree 0 fields := by
  have htotal : 0 + BitFields.total fields ≤ 64 := by
    rw [Nat.zero_add]
    exact h.total
  have hwriter : writer.value.toNat < 2 ^ writer.idx := Nat.one_pos
  obtain ⟨bp, hwrite, hvalue⟩ := writeAll_eq h hwriter htotal
  have hreader : (0 : Nat) < 2 ^ (reader bp.value).idx := Nat.one_pos
  have hread := readAll_iff h hreader htotal hvalue
  rw [RoundTrips, hwrite]
  constructor
  · intro hround
    obtain ⟨other, heq, hall⟩ := hround
    rw [← Option.some.inj heq] at hall
    exact hread.1 hall
  · intro hfree
    exact ⟨bp, rfl, hread.2 hfree⟩

theorem roundTrips_small : RoundTrips [(1, 0), (2, 1), (3, 3), (4, 12), (5, 30)] ↔
    SignFree 0 [(1, 0), (2, 1), (3, 3), (4, 12), (5, 30)] :=
  roundTrips_iff ⟨by decide, by decide, by decide⟩

/-- A field of 32 bits that ends at the sign bit comes back negative. -/
theorem sign_bit_spread : ¬ ∀ fields, Admitted fields → RoundTrips fields := by
  intro h
  obtain ⟨bp, hwrite, hread⟩ := h [(32, 0), (32, 2 ^ 31)] ⟨by decide, by decide, by decide⟩
  have hbp : writer.writeAll [(32, 0), (32, 2 ^ 31)] = some ⟨BitVec.ofNat 64 (2 ^ 63), 64⟩ := by
    decide +kernel
  rw [hbp] at hwrite
  rw [← Option.some.inj hwrite] at hread
  revert hread
  decide +kernel

end Bitpacker

end Godaemon
