import Godaemon.Lib.Runs
import Godaemon.Util.PackedByteStream

namespace Godaemon
set_option autoImplicit true

/-- The widths of integers that have routines of their own. -/
inductive IntWidth where
  | one
  | two
  | four
  | eight

def IntWidth.bytes : IntWidth → Nat
  | .one => 1
  | .two => 2
  | .four => 4
  | .eight => 8

/-- An integer goes through the routine of its width, or through the one that is told the width. -/
inductive IntRoute where
  | direct (width : IntWidth)
  | dispatched (bytes : Nat)

namespace IntRoute

def bytes : IntRoute → Nat
  | .direct width => width.bytes
  | .dispatched bytes => bytes

def supported (route : IntRoute) : Bool := route.bytes ∈ [1, 2, 4, 8]

theorem supported_direct (width : IntWidth) : (direct width).supported = true := by
  cases width <;> rfl

end IntRoute

/-- What is asked for when a field is read. -/
inductive FieldType where
  | int (isSigned : Bool) (route : IntRoute)
  | bytes (size : Nat)
  | variant

inductive FieldValue where
  | int (value : Int)
  | bytes (data : List UInt8)
  | variant (value : Variant)

/-- A field that is written to a stream. -/
inductive StreamField where
  | int (isSigned : Bool) (route : IntRoute) (value : Int)
  | bytes (data : List UInt8)
  | variant (value : Variant)

namespace StreamField

def value : StreamField → FieldValue
  | .int _ _ value => .int value
  | .bytes data => .bytes data
  | .variant value => .variant value

/-- The bytes of a field, which an integer of another width does not have. -/
def encoding (codec : VariantCodec) : StreamField → Option (List UInt8)
  | .int _ route value =>
    if route.supported then some (Bytes.encode route.bytes (Bytes.residue route.bytes value))
    else none
  | .bytes data => some data
  | .variant value => some (codec.varToBytes value)

/-- The values that a field can have. Integers of 64 bits are signed. -/
def InRange (codec : VariantCodec) : StreamField → Prop
  | .int isSigned route value => route.supported = true →
    if isSigned ∨ route.bytes = 8 then
      -2 ^ (8 * route.bytes - 1) ≤ value ∧ value < 2 ^ (8 * route.bytes - 1)
    else 0 ≤ value ∧ value < 2 ^ (8 * route.bytes)
  | .bytes _ => True
  | .variant value => codec.Inverts value

end StreamField

/-- A field of this type is read as it was written, by either route of its width. -/
def FieldType.Matches : FieldType → StreamField → Prop
  | .int isSigned route, .int isSigned' route' _ =>
    isSigned = isSigned' ∧ route.bytes = route'.bytes
  | .bytes size, .bytes data => size = data.length
  | .variant, .variant _ => True
  | _, _ => False

/-- The calls that fill a stream. -/
inductive StreamCall where
  | setupWrite (size : Nat)
  | allocate (size : Nat)
  | write (field : StreamField)

def StreamCall.field? : StreamCall → Option StreamField
  | .write field => some field
  | _ => none

namespace PackedByteStream

def writeInt (s : PackedByteStream) : Bool → IntRoute → Int → PackedByteStream
  | true, .direct .one, value => s.writeS8 value
  | true, .direct .two, value => s.writeS16 value
  | true, .direct .four, value => s.writeS32 value
  | true, .direct .eight, value => s.writeS64 value
  | true, .dispatched bytes, value => s.writeSigned value bytes
  | false, .direct .one, value => s.writeU8 value
  | false, .direct .two, value => s.writeU16 value
  | false, .direct .four, value => s.writeU32 value
  | false, .direct .eight, value => s.writeU64 value
  | false, .dispatched bytes, value => s.writeUnsigned value bytes

def readInt (s : PackedByteStream) : Bool → IntRoute → Int × PackedByteStream
  | true, .direct .one => s.readS8
  | true, .direct .two => s.readS16
  | true, .direct .four => s.readS32
  | true, .direct .eight => s.readS64
  | true, .dispatched bytes => s.readSigned bytes
  | false, .direct .one => s.readU8
  | false, .direct .two => s.readU16
  | false, .direct .four => s.readU32
  | false, .direct .eight => s.readU64
  | false, .dispatched bytes => s.readUnsigned bytes

def writeField (codec : VariantCodec) (s : PackedByteStream) : StreamField → PackedByteStream
  | .int isSigned route value => s.writeInt isSigned route value
  | .bytes data => s.writeBytes data
  | .variant value => s.writeVariant codec value

def readField (codec : VariantCodec) (s : PackedByteStream) :
    FieldType → FieldValue × PackedByteStream
  | .int isSigned route => ((s.readInt isSigned route).map .int id)
  | .bytes size => (s.readBytes size).map .bytes id
  | .variant => (s.readVariant codec).map .variant id

def readFields (codec : VariantCodec) (s : PackedByteStream) :
    List FieldType → List FieldValue × PackedByteStream
  | [] => ([], s)
  | type :: types =>
    let r := s.readField codec type
    (r.2.readFields codec types).map (fun values => r.1 :: values) id

def call (codec : VariantCodec) (s : PackedByteStream) : StreamCall → PackedByteStream
  | .setupWrite size => s.setupWrite size
  | .allocate size => s.allocate size
  | .write field => s.writeField codec field

variable {codec : VariantCodec} {s : PackedByteStream}

/-- Both dispatchers and all routines come down to writing a word of the width. -/
theorem writeInt_eq (isSigned : Bool) (route : IntRoute) (value : Int) :
    s.writeInt isSigned route value =
      if route.supported then writeWord route.bytes s value else { s with valid := false } := by
  cases route with
  | direct width =>
    rw [if_pos (IntRoute.supported_direct width)]
    cases isSigned <;> cases width <;> rfl
  | dispatched bytes =>
    by_cases h : bytes ∈ [1, 2, 4, 8]
    · have hsupported : (IntRoute.dispatched bytes).supported = true := decide_eq_true h
      rw [if_pos hsupported]
      simp only [List.mem_cons, List.not_mem_nil, or_false] at h
      rcases h with rfl | rfl | rfl | rfl <;> cases isSigned <;> rfl
    · have hsupported : ¬ (IntRoute.dispatched bytes).supported = true :=
        fun hin => h (of_decide_eq_true hin)
      rw [if_neg hsupported]
      cases isSigned <;> simp only [writeInt, writeSigned, writeUnsigned] <;> split <;>
        first | rfl | simp at h

theorem readInt_eq (isSigned : Bool) {route : IntRoute} (h : route.supported = true) :
    s.readInt isSigned route =
      if isSigned ∨ route.bytes = 8 then readSWord route.bytes s else readUWord route.bytes s := by
  cases route with
  | direct width => cases isSigned <;> cases width <;> rfl
  | dispatched bytes =>
    have hmem : bytes ∈ [1, 2, 4, 8] := of_decide_eq_true h
    simp only [List.mem_cons, List.not_mem_nil, or_false] at hmem
    rcases hmem with rfl | rfl | rfl | rfl <;> cases isSigned <;> rfl

theorem writeField_eq (field : StreamField) : s.writeField codec field =
    match field.encoding codec with
    | some bytes => s.writeBytes bytes
    | none => { s with valid := false } := by
  cases field with
  | int isSigned route value =>
    rw [writeField, writeInt_eq, StreamField.encoding]
    split
    · simp only [writeWord, writeBytes, Bytes.encode_length]
    · rfl
  | bytes data => rfl
  | variant value => rfl

variable (codec) in
/-- An integer in range is given back by the reader of its width. -/
theorem Ahead.read_int {isSigned : Bool} {route : IntRoute} {value : Int}
    (h : Ahead s (Bytes.encode route.bytes (Bytes.residue route.bytes value) ++ rest))
    (hsupported : route.supported = true)
    (hrange : (StreamField.int isSigned route value).InRange codec) :
    s.readInt isSigned route = (value, { s with c := s.c + route.bytes }) := by
  have hmem : route.bytes ∈ [1, 2, 4, 8] := of_decide_eq_true hsupported
  have hmod := Nat.mod_eq_of_lt (Bytes.residue_lt route.bytes value)
  rw [readInt_eq isSigned hsupported]
  have hrange := hrange hsupported
  split
  · next hsigned =>
    rw [if_pos hsigned] at hrange
    rw [h.read_s_word, hmod, Bytes.signed_residue]
    · simp only [List.mem_cons, List.not_mem_nil, or_false] at hmem
      rcases hmem with hw | hw | hw | hw <;> rw [hw] at hrange ⊢ <;> omega
    · simp only [List.mem_cons, List.not_mem_nil, or_false] at hmem
      rcases hmem with hw | hw | hw | hw <;> rw [hw] at hrange ⊢ <;> omega
  · next hsigned =>
    rw [if_neg hsigned] at hrange
    have hpow : 256 ^ route.bytes = 2 ^ (8 * route.bytes) := by rw [Nat.pow_mul]
    rw [h.read_u_word, hmod, Bytes.residue_of_nonneg hrange.1]
    rw [hpow]
    exact_mod_cast hrange.2

theorem Ahead.read_bytes (h : Ahead s (xs ++ rest)) :
    s.readBytes xs.length = (xs, { s with c := s.c + xs.length }) := by
  rw [readBytes, if_neg h.fits, h.drop, List.take_left]

theorem Ahead.read_field {field : StreamField} {type : FieldType}
    (h : Ahead s (xs ++ rest)) (hencoding : field.encoding codec = some xs)
    (hrange : field.InRange codec) (hmatch : type.Matches field) :
    s.readField codec type = (field.value, { s with c := s.c + xs.length }) := by
  cases field with
  | int isSigned route value =>
    cases type with
    | int isSigned' route' =>
      obtain ⟨rfl, hbytes⟩ := hmatch
      rw [StreamField.encoding] at hencoding
      split at hencoding
      · next hsupported =>
        cases hencoding
        simp only [StreamField.InRange, IntRoute.supported, ← hbytes] at hsupported hrange
        rw [← hbytes] at h
        rw [readField, Ahead.read_int codec h hsupported hrange, Bytes.encode_length, ← hbytes]
        rfl
      · cases hencoding
    | bytes size => exact absurd hmatch id
    | variant => exact absurd hmatch id
  | bytes content =>
    cases type with
    | int isSigned route => exact absurd hmatch id
    | bytes size =>
      have hsize : size = content.length := hmatch
      cases hencoding
      rw [hsize, readField, h.read_bytes]
      rfl
    | variant => exact absurd hmatch id
  | variant value =>
    cases type with
    | int isSigned route => exact absurd hmatch id
    | bytes size => exact absurd hmatch id
    | variant =>
      cases hencoding
      rw [readField, h.read_variant hrange]
      rfl

/-- The bytes of several fields, all of which have some. -/
def Encodes (codec : VariantCodec) (fields : List StreamField) (xs : List UInt8) : Prop :=
  ∃ parts : List (List UInt8), fields.map (fun field => field.encoding codec) = parts.map some ∧
    parts.flatten = xs

theorem encodes_nil (codec : VariantCodec) : Encodes codec [] [] := ⟨[], rfl, rfl⟩

theorem Encodes.append {fields : List StreamField} {field : StreamField}
    (h : Encodes codec fields xs) (hencoding : field.encoding codec = some ys) :
    Encodes codec (fields ++ [field]) (xs ++ ys) := by
  obtain ⟨parts, hparts, hxs⟩ := h
  refine ⟨parts ++ [ys], ?_, ?_⟩
  · rw [List.map_append, List.map_append, hparts, List.map_singleton, hencoding]
    rfl
  · rw [List.flatten_append, hxs, List.flatten_singleton]

theorem Encodes.cons {fields : List StreamField} {field : StreamField}
    (h : Encodes codec (field :: fields) xs) : ∃ ys zs, xs = ys ++ zs ∧
      field.encoding codec = some ys ∧ Encodes codec fields zs := by
  obtain ⟨parts, hparts, hxs⟩ := h
  cases parts with
  | nil => cases hparts
  | cons ys parts =>
    obtain ⟨hfield, hfields⟩ := List.cons.inj hparts
    exact ⟨ys, parts.flatten, hxs.symm, hfield, parts, hfields, rfl⟩

theorem Ahead.read_fields {fields : List StreamField} {types : List FieldType}
    (h : Ahead s (xs ++ rest)) (hencodes : Encodes codec fields xs)
    (hrange : ∀ field ∈ fields, field.InRange codec)
    (hmatch : List.Forall₂ FieldType.Matches types fields) :
    s.readFields codec types =
      (fields.map StreamField.value, { s with c := s.c + xs.length }) := by
  induction hmatch generalizing s xs with
  | nil =>
    obtain ⟨parts, hparts, hxs⟩ := hencodes
    cases parts with
    | nil =>
      cases hxs
      rfl
    | cons ys parts => cases hparts
  | @cons type field types fields hfield _ ih =>
    obtain ⟨ys, zs, rfl, hencoding, hrest⟩ := hencodes.cons
    rw [List.append_assoc] at h
    have hread := h.read_field hencoding (hrange field List.mem_cons_self) hfield
    have hall := ih h.advance hrest (fun f hf => hrange f (List.mem_cons_of_mem _ hf))
    rw [readFields, hread]
    simp only [hall, Prod.map, List.map_cons, List.length_append, Nat.add_assoc, id_eq]

end PackedByteStream

/-- The fields that have been written since the last setup. -/
def noteCall (fields : List StreamField) : StreamCall → List StreamField
  | .setupWrite _ => []
  | .allocate _ => fields
  | .write field => fields ++ [field]

namespace PackedByteStream

variable {codec : VariantCodec} {s : PackedByteStream} {fields : List StreamField}

/-- While it is valid, a stream holds the bytes of the fields written since its last setup. -/
def Holds (codec : VariantCodec) (s : PackedByteStream) (fields : List StreamField) : Prop :=
  s.valid = true → ∃ xs space, Encodes codec fields xs ∧ Wrote s xs space

theorem holds_new (codec : VariantCodec) : Holds codec new [] :=
  fun _ => ⟨[], 0, encodes_nil codec, rfl, rfl, rfl, rfl⟩

theorem writeBytes_valid (xs : List UInt8) : (s.writeBytes xs).valid =
    (s.valid && decide (s.c + xs.length ≤ s.data.length)) := by
  rw [writeBytes]
  split
  · next h => simp [h]
  · next h => simp [Nat.le_of_not_lt h]

theorem call_invalid (h : s.valid = false) (c : StreamCall) : (s.call codec c).valid = false := by
  cases c with
  | setupWrite size => exact h
  | allocate size => exact h
  | write field =>
    rw [call, writeField_eq]
    split
    · rw [writeBytes_valid, h]
      rfl
    · rfl

theorem run_invalid (h : s.valid = false) (calls : List StreamCall) :
    (Runs.run (call codec) s calls).valid = false := by
  induction calls generalizing s with
  | nil => exact h
  | cons c calls ih => exact ih (call_invalid h c)

theorem Holds.call (h : Holds codec s fields) (c : StreamCall) :
    Holds codec (s.call codec c) (noteCall fields c) := by
  intro hvalid
  have hs : s.valid = true := by
    cases hs : s.valid with
    | true => rfl
    | false =>
      rw [call_invalid hs c] at hvalid
      exact hvalid
  obtain ⟨xs, space, hencodes, hwrote⟩ := h hs
  cases c with
  | setupWrite size =>
    exact ⟨[], size, encodes_nil codec, rfl, rfl, by simp [PackedByteStream.call, setupWrite], hs⟩
  | allocate size => exact ⟨xs, space + size, hencodes, hwrote.allocate size⟩
  | write field =>
    rw [PackedByteStream.call, writeField_eq] at hvalid ⊢
    cases hencoding : field.encoding codec with
    | none =>
      rw [hencoding] at hvalid
      cases hvalid
    | some ys =>
      rw [hencoding] at hvalid
      simp only [writeBytes_valid, Bool.and_eq_true, decide_eq_true_eq] at hvalid
      have hfits : ys.length ≤ space := by
        have hcursor := hwrote.cursor
        have hlength := hwrote.length
        omega
      exact ⟨xs ++ ys, space - ys.length, hencodes.append hencoding, hwrote.bytes hfits⟩

theorem Holds.run (h : Holds codec s fields) (calls : List StreamCall) :
    Holds codec (Runs.run (PackedByteStream.call codec) s calls) (calls.foldl noteCall fields) := by
  induction calls generalizing s fields with
  | nil => exact h
  | cons c calls ih => exact ih (h.call c)

theorem mem_noteCall {field : StreamField} {calls : List StreamCall}
    (h : field ∈ calls.foldl noteCall fields) : field ∈ fields ∨ .write field ∈ calls := by
  induction calls generalizing fields with
  | nil => exact .inl h
  | cons c calls ih =>
    cases ih h with
    | inl hnoted =>
      cases c with
      | setupWrite size => cases hnoted
      | allocate size => exact .inl hnoted
      | write other =>
        cases List.mem_append.1 hnoted with
        | inl hold => exact .inl hold
        | inr hnew =>
          rw [List.mem_singleton.1 hnew]
          exact .inr List.mem_cons_self
    | inr hmem => exact .inr (List.mem_cons_of_mem _ hmem)

/-- However setups, allocations and writes follow each other: a write stores its bytes at the
cursor, or changes nothing but the flag, which stays cleared; and if the flag is still set, the
fields written since the last setup are read back, up to the cursor. -/
theorem streams_keep_fields (codec : VariantCodec) (calls : List StreamCall)
    (hrange : ∀ field, .write field ∈ calls → field.InRange codec) :
    let s := Runs.run (call codec) new calls
    let fields := calls.foldl noteCall []
    (∀ field : StreamField, s.call codec (.write field) =
      match field.encoding codec with
      | some xs =>
        if s.c + xs.length ≤ s.data.length then
          { s with data := Bytes.splice s.data s.c xs, c := s.c + xs.length }
        else { s with valid := false }
      | none => { s with valid := false }) ∧
    (s.valid = false → ∀ more, (Runs.run (call codec) s more).valid = false) ∧
    (s.valid = true → ∀ types, List.Forall₂ FieldType.Matches types fields →
      (new.setupRead s.data).readFields codec types =
        (fields.map StreamField.value, ⟨s.data, s.c, true⟩)) := by
  intro s fields
  refine ⟨?_, fun hinvalid more => run_invalid hinvalid more, ?_⟩
  · intro field
    rw [call, writeField_eq]
    cases field.encoding codec with
    | none => rfl
    | some xs =>
      simp only [writeBytes]
      by_cases hfits : s.c + xs.length ≤ s.data.length
      · rw [if_pos hfits, if_neg (Nat.not_lt.2 hfits)]
      · rw [if_neg hfits, if_pos (Nat.lt_of_not_le hfits)]
  · intro hvalid types hmatch
    obtain ⟨xs, space, hencodes, hwrote⟩ := (holds_new codec).run calls hvalid
    have hahead : Ahead (new.setupRead s.data) (xs ++ s.data.drop s.c) := by
      have hdata := hwrote.data
      rw [← hdata, List.take_append_drop]
      exact .setup _ _
    have hfields : ∀ field ∈ fields, field.InRange codec := by
      intro field hmem
      cases mem_noteCall hmem with
      | inl hnil => cases hnil
      | inr hwrite => exact hrange field hwrite
    rw [hahead.read_fields hencodes hfields hmatch]
    have hcursor := hwrote.cursor
    rw [hcursor]
    change (_, (⟨s.data, 0 + xs.length, true⟩ : PackedByteStream)) = _
    rw [Nat.zero_add]

/-- The calls that write a byte, two more and a variant. -/
def sampleCalls : List StreamCall :=
  [.setupWrite 1, .write (.int true (.direct .one) (-2)), .allocate 18, .write (.bytes [1, 2]),
    .write (.variant (.array [.int 7]))]

theorem streams_keep_sample :
    let s := Runs.run (call intArrayCodec) new sampleCalls
    let fields := sampleCalls.foldl noteCall []
    (∀ field : StreamField, s.call intArrayCodec (.write field) =
      match field.encoding intArrayCodec with
      | some xs =>
        if s.c + xs.length ≤ s.data.length then
          { s with data := Bytes.splice s.data s.c xs, c := s.c + xs.length }
        else { s with valid := false }
      | none => { s with valid := false }) ∧
    (s.valid = false → ∀ more, (Runs.run (call intArrayCodec) s more).valid = false) ∧
    (s.valid = true → ∀ types, List.Forall₂ FieldType.Matches types fields →
      (new.setupRead s.data).readFields intArrayCodec types =
        (fields.map StreamField.value, ⟨s.data, s.c, true⟩)) :=
  streams_keep_fields intArrayCodec sampleCalls (by
    intro field hmem
    simp only [sampleCalls, List.mem_cons, reduceCtorEq, StreamCall.write.injEq, false_or, or_false,
      List.not_mem_nil] at hmem
    rcases hmem with rfl | rfl | rfl
    · simp [StreamField.InRange, IntRoute.bytes, IntWidth.bytes]
    · trivial
    · exact intArrayCodec_inverts [7] (by decide))

/-- A second setup drops what was written before it. -/
theorem second_setup_drops :
    ¬ ∀ calls : List StreamCall,
      let s := Runs.run (call intArrayCodec) new calls
      let fields := calls.filterMap StreamCall.field?
      (∀ field ∈ fields, field.InRange intArrayCodec) → s.valid = true →
        ∀ types, List.Forall₂ FieldType.Matches types fields →
          (new.setupRead s.data).readFields intArrayCodec types =
            (fields.map StreamField.value, ⟨s.data, s.c, true⟩) := by
  intro h
  have hread := h [.setupWrite 1, .write (.int false (.direct .one) 5), .setupWrite 1,
    .write (.int false (.direct .one) 7)]
    (fun field hmem => by
      change field ∈ [.int false (.direct .one) 5, .int false (.direct .one) 7] at hmem
      simp only [List.mem_cons, List.not_mem_nil, or_false] at hmem
      rcases hmem with rfl | rfl <;> simp [StreamField.InRange, IntRoute.bytes, IntWidth.bytes])
    (by decide +kernel)
    [.int false (.direct .one), .int false (.direct .one)]
    (.cons ⟨rfl, rfl⟩ (.cons ⟨rfl, rfl⟩ .nil))
  have hvalid := congrArg (fun r => r.2.valid) hread
  revert hvalid
  decide +kernel

end PackedByteStream

end Godaemon
