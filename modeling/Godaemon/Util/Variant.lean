import Godaemon.Lib.Bytes

namespace Godaemon
set_option autoImplicit true

/-- The engine's dynamic values, with a case for each kind that the scripts look at. -/
inductive Variant where
  | null
  | bool (value : Bool)
  | int (value : Int)
  | string (value : String)
  | packedByteArray (bytes : List UInt8)
  | array (elements : List Variant)
  | dictionary (keys values : List Variant)
  | other (type : Nat) (encoding : List UInt8)

/-- The engine's serializer: `var_to_bytes`, and `decode_var_size` and `decode_var` of a byte
array at an offset. -/
structure VariantCodec where
  varToBytes : Variant → List UInt8
  decodeVarSize : List UInt8 → Nat → Nat
  decodeVar : List UInt8 → Nat → Variant

/-- Wherever the encoding of a value stands, the decoder finds its size and gives it back. -/
def VariantCodec.Inverts (codec : VariantCodec) (v : Variant) : Prop :=
  ∀ pre post : List UInt8,
    codec.decodeVarSize (pre ++ codec.varToBytes v ++ post) pre.length =
        (codec.varToBytes v).length ∧
      codec.decodeVar (pre ++ codec.varToBytes v ++ post) pre.length = v

/-- The engine's encoding of an integer of 32 bits. -/
def encodeSmallInt : Variant → List UInt8
  | .int z => Bytes.encode 4 2 ++ Bytes.encode 4 (Bytes.residue 4 z)
  | _ => Bytes.encode 8 0

def decodeSmallInts : Nat → List UInt8 → List Variant
  | 0, _ => []
  | k + 1, data =>
    .int (Bytes.signed 4 (Bytes.decode ((data.drop 4).take 4))) ::
      decodeSmallInts k (data.drop 8)

/-- The part of the engine's serializer that handles arrays of integers of 32 bits. -/
def intArrayCodec : VariantCodec where
  varToBytes
    | .array elements =>
      Bytes.encode 4 28 ++ (Bytes.encode 4 elements.length ++ elements.flatMap encodeSmallInt)
    | _ => []
  decodeVarSize data c := 8 + 8 * Bytes.decode ((data.drop (c + 4)).take 4)
  decodeVar data c :=
    .array (decodeSmallInts (Bytes.decode ((data.drop (c + 4)).take 4)) (data.drop (c + 8)))

/-- The signed integers of 32 bits. -/
def SmallInt (z : Int) : Prop := -2 ^ 31 ≤ z ∧ z < 2 ^ 31

instance (z : Int) : Decidable (SmallInt z) := inferInstanceAs (Decidable (_ ∧ _))

theorem encodeSmallInt_length (v : Variant) : (encodeSmallInt v).length = 8 := by
  cases v <;> simp [encodeSmallInt]

theorem flatMap_encodeSmallInt_length (vs : List Variant) :
    (vs.flatMap encodeSmallInt).length = 8 * vs.length := by
  induction vs with
  | nil => rfl
  | cons v vs ih =>
    simp only [List.flatMap_cons, List.length_append, encodeSmallInt_length, ih, List.length_cons]
    omega

theorem decodeSmallInts_flatMap (zs : List Int) (h : ∀ z ∈ zs, SmallInt z) (post : List UInt8) :
    decodeSmallInts zs.length ((zs.map Variant.int).flatMap encodeSmallInt ++ post) =
      zs.map Variant.int := by
  induction zs with
  | nil => rfl
  | cons z zs ih =>
    have hz := h z List.mem_cons_self
    have hs : Bytes.signed 4 (Bytes.residue 4 z) = z :=
      Bytes.signed_residue (w := 4) (by have := hz.1; omega) (by have := hz.2; omega)
    have ih' := ih (fun y hy => h y (List.mem_cons_of_mem _ hy))
    have hd : ((encodeSmallInt (.int z) ++ ((zs.map Variant.int).flatMap encodeSmallInt ++
        post)).drop 4).take 4 = Bytes.encode 4 (Bytes.residue 4 z) := by
      simp [encodeSmallInt, List.append_assoc]
    have ht : (encodeSmallInt (.int z) ++ ((zs.map Variant.int).flatMap encodeSmallInt ++
        post)).drop 8 = (zs.map Variant.int).flatMap encodeSmallInt ++ post := by
      rw [← encodeSmallInt_length (.int z), List.drop_left]
    simp only [List.map_cons, List.flatMap_cons, List.length_cons, decodeSmallInts,
      List.append_assoc, hd, ht, Bytes.decode_encode, Nat.mod_eq_of_lt (Bytes.residue_lt 4 z), hs,
      ih']

theorem intArrayCodec_inverts (zs : List Int) (h : ∀ z ∈ zs, SmallInt z)
    (hlen : zs.length < 2 ^ 32 := by decide) :
    intArrayCodec.Inverts (.array (zs.map Variant.int)) := by
  intro pre post
  have hdrop (k : Nat) : (pre ++ intArrayCodec.varToBytes (.array (zs.map Variant.int)) ++
      post).drop (pre.length + k) =
      (intArrayCodec.varToBytes (.array (zs.map Variant.int)) ++ post).drop k := by
    rw [List.append_assoc, List.drop_append]
    simp
  have hcount : Bytes.decode (((pre ++ intArrayCodec.varToBytes (.array (zs.map Variant.int)) ++
      post).drop (pre.length + 4)).take 4) = zs.length := by
    rw [hdrop]
    simp [intArrayCodec, List.append_assoc, Bytes.decode_encode]
    omega
  constructor
  · simp only [intArrayCodec, List.length_append, Bytes.encode_length,
      flatMap_encodeSmallInt_length, List.length_map] at hcount ⊢
    rw [hcount]
    omega
  · have hbody : (pre ++ intArrayCodec.varToBytes (.array (zs.map Variant.int)) ++
        post).drop (pre.length + 8) = (zs.map Variant.int).flatMap encodeSmallInt ++ post := by
      rw [hdrop]
      change ((Bytes.encode 4 28 ++ (Bytes.encode 4 _ ++ _)) ++ post).drop 8 = _
      simp [List.append_assoc, List.drop_append]
    change Variant.array (decodeSmallInts _ _) = _
    rw [hcount, hbody, decodeSmallInts_flatMap zs h]

end Godaemon
