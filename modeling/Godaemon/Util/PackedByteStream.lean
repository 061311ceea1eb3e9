import Godaemon.Lib.Bytes
import Godaemon.Util.Variant

namespace Godaemon
set_option autoImplicit true

/-- Byte data with a cursor, and a flag that an error clears. -/
structure PackedByteStream where
  data : List UInt8
  c : Nat
  valid : Bool
  deriving DecidableEq

namespace PackedByteStream

def new : PackedByteStream := ⟨[], 0, true⟩

def setupWrite (s : PackedByteStream) (size : Nat) : PackedByteStream :=
  { s with c := 0, data := List.replicate size 0 }

def allocate (s : PackedByteStream) (size : Nat) : PackedByteStream :=
  { s with data := s.data ++ List.replicate size 0 }

/-- The body shared by the integer writers, for a width in bytes. -/
def writeWord (w : Nat) (s : PackedByteStream) (value : Int) : PackedByteStream :=
  if s.c + w > s.data.length then { s with valid := false }
  else { s with
    data := Bytes.splice s.data s.c (Bytes.encode w (Bytes.residue w value))
    c := s.c + w }

def writeS8 := writeWord 1
def writeS16 := writeWord 2
def writeS32 := writeWord 4
def writeS64 := writeWord 8
def writeU8 := writeWord 1
def writeU16 := writeWord 2
def writeU32 := writeWord 4
def writeU64 := writeS64

def writeSigned (s : PackedByteStream) (value : Int) : Nat → PackedByteStream
  | 1 => s.writeS8 value
  | 2 => s.writeS16 value
  | 4 => s.writeS32 value
  | 8 => s.writeS64 value
  | _ => { s with valid := false }

def writeUnsigned (s : PackedByteStream) (value : Int) : Nat → PackedByteStream
  | 1 => s.writeU8 value
  | 2 => s.writeU16 value
  | 4 => s.writeU32 value
  | 8 => s.writeU64 value
  | _ => { s with valid := false }

def writeBytes (s : PackedByteStream) (bytes : List UInt8) : PackedByteStream :=
  if s.c + bytes.length > s.data.length then { s with valid := false }
  else { s with data := Bytes.splice s.data s.c bytes, c := s.c + bytes.length }

def writeVariant (codec : VariantCodec) (s : PackedByteStream) (value : Variant) :
    PackedByteStream :=
  s.writeBytes (codec.varToBytes value)

def setupRead (s : PackedByteStream) (data : List UInt8) : PackedByteStream :=
  { s with c := 0, data := data }

/-- The bytes of one word at an offset, as a number. -/
def wordAt (w : Nat) (data : List UInt8) (c : Nat) : Nat :=
  Bytes.decode ((data.drop c).take w)

/-- The body shared by the unsigned readers. -/
def readUWord (w : Nat) (s : PackedByteStream) : Int × PackedByteStream :=
  if s.c + w > s.data.length then (0, { s with valid := false })
  else (wordAt w s.data s.c, { s with c := s.c + w })

/-- The body shared by the signed readers. -/
def readSWord (w : Nat) (s : PackedByteStream) : Int × PackedByteStream :=
  if s.c + w > s.data.length then (0, { s with valid := false })
  else (Bytes.signed w (wordAt w s.data s.c), { s with c := s.c + w })

theorem readUWord_nonneg (w : Nat) (s : PackedByteStream) : 0 ≤ (readUWord w s).1 := by
  unfold readUWord
  split
  · exact Int.le_refl 0
  · exact Int.natCast_nonneg _

def readS8 := readSWord 1
def readS16 := readSWord 2
def readS32 := readSWord 4
def readS64 := readSWord 8
def readU8 := readUWord 1
def readU16 := readUWord 2
def readU32 := readUWord 4
def readU64 := readS64

def readSigned (s : PackedByteStream) : Nat → Int × PackedByteStream
  | 1 => s.readS8
  | 2 => s.readS16
  | 4 => s.readS32
  | 8 => s.readS64
  | _ => (0, { s with valid := false })

def readUnsigned (s : PackedByteStream) : Nat → Int × PackedByteStream
  | 1 => s.readU8
  | 2 => s.readU16
  | 4 => s.readU32
  | 8 => s.readU64
  | _ => (0, { s with valid := false })

def readBytes (s : PackedByteStream) (size : Nat) : List UInt8 × PackedByteStream :=
  if s.c + size > s.data.length then ([], { s with valid := false })
  else ((s.data.drop s.c).take size, { s with c := s.c + size })

def readVariant (codec : VariantCodec) (s : PackedByteStream) : Variant × PackedByteStream :=
  let size := codec.decodeVarSize s.data s.c
  if s.c + size > s.data.length then (.null, { s with valid := false })
  else (codec.decodeVar s.data s.c, { s with c := s.c + size })

/-- A valid stream that holds the given bytes up to its cursor and some space after it. -/
structure Wrote (s : PackedByteStream) (out : List UInt8) (space : Nat) : Prop where
  data : s.data.take s.c = out
  cursor : s.c = out.length
  length : s.data.length = out.length + space
  valid : s.valid = true

theorem Wrote.setup (n : Nat) : Wrote (new.setupWrite n) [] n :=
  ⟨rfl, rfl, by simp [setupWrite], rfl⟩

theorem Wrote.allocate (h : Wrote s out space) (n : Nat) :
    Wrote (s.allocate n) out (space + n) := by
  have hc := h.cursor
  have hl := h.length
  refine ⟨?_, hc, ?_, h.valid⟩
  · change (s.data ++ _).take s.c = out
    rw [List.take_append_of_le_length (by omega)]
    exact h.data
  · simp only [PackedByteStream.allocate, List.length_append, List.length_replicate]
    omega

theorem Wrote.bytes (h : Wrote s out space) (hx : xs.length ≤ space) :
    Wrote (s.writeBytes xs) (out ++ xs) (space - xs.length) := by
  have hc := h.cursor
  have hl := h.length
  have hfit : ¬ s.c + xs.length > s.data.length := by omega
  rw [writeBytes, if_neg hfit]
  refine ⟨?_, ?_, ?_, h.valid⟩
  · have hlen : (s.data.take s.c ++ xs).length = s.c + xs.length := by
      simp only [List.length_append, List.length_take]
      omega
    simp only [Bytes.splice]
    rw [List.take_append_of_le_length (by omega), List.take_of_length_le (by omega), h.data]
  · simp only [List.length_append]
    omega
  · simp only [List.length_append]
    rw [Bytes.splice_length (by omega)]
    omega

theorem Wrote.word (h : Wrote s out space) (hw : w ≤ space) (v : Int) :
    Wrote (writeWord w s v) (out ++ Bytes.encode w (Bytes.residue w v)) (space - w) := by
  have hlen : (Bytes.encode w (Bytes.residue w v)).length ≤ space := by simpa using hw
  have hb := h.bytes hlen
  simpa only [writeBytes, writeWord, Bytes.encode_length] using hb

theorem Wrote.data_eq (h : Wrote s out 0) : s.data = out := by
  have hc := h.cursor
  have hl := h.length
  rw [← h.data, List.take_of_length_le (by omega)]

/-- The bytes still ahead of the cursor. -/
def Ahead (s : PackedByteStream) (rest : List UInt8) : Prop :=
  ∃ pre, s.data = pre ++ rest ∧ s.c = pre.length

theorem Ahead.setup (s : PackedByteStream) (data : List UInt8) : Ahead (s.setupRead data) data :=
  ⟨[], rfl, rfl⟩

theorem Ahead.drop (h : Ahead s rest) : s.data.drop s.c = rest := by
  obtain ⟨pre, hd, hc⟩ := h
  rw [hd, hc, List.drop_left]

theorem Ahead.advance (h : Ahead s (xs ++ rest)) :
    Ahead { s with c := s.c + xs.length } rest := by
  obtain ⟨pre, hd, hc⟩ := h
  exact ⟨pre ++ xs, by simp [hd], by simp [hc]⟩

theorem Ahead.fits (h : Ahead s (xs ++ rest)) : ¬ s.c + xs.length > s.data.length := by
  obtain ⟨pre, hd, hc⟩ := h
  simp only [hd, hc, List.length_append]
  omega

theorem Ahead.word_at (h : Ahead s (Bytes.encode w n ++ rest)) :
    wordAt w s.data s.c = n % 256 ^ w := by
  rw [wordAt, h.drop, List.take_append_of_le_length (by simp), List.take_of_length_le (by simp),
    Bytes.decode_encode]

theorem Ahead.read_u_word (h : Ahead s (Bytes.encode w n ++ rest)) :
    readUWord w s = (((n % 256 ^ w : Nat) : Int), { s with c := s.c + w }) := by
  have hf := h.fits
  rw [Bytes.encode_length] at hf
  rw [readUWord, if_neg hf, h.word_at]

theorem Ahead.read_s_word (h : Ahead s (Bytes.encode w n ++ rest)) :
    readSWord w s = (Bytes.signed w (n % 256 ^ w), { s with c := s.c + w }) := by
  have hf := h.fits
  rw [Bytes.encode_length] at hf
  rw [readSWord, if_neg hf, h.word_at]

theorem Ahead.read_variant (h : Ahead s (codec.varToBytes v ++ rest)) (hv : codec.Inverts v) :
    readVariant codec s = (v, { s with c := s.c + (codec.varToBytes v).length }) := by
  have hf := h.fits
  obtain ⟨pre, hd, hc⟩ := h
  obtain ⟨hsize, hvar⟩ := hv pre rest
  rw [List.append_assoc, ← hd, ← hc] at hsize hvar
  simp only [readVariant, hsize, hvar, if_neg hf]

/-- The calls that fill a stream. -/
inductive WriteCall where
  | allocate (size : Nat)
  | writeUnsigned (value : Int) (bytes : Nat)
  | writeBytes (bytes : List UInt8)
  | writeU8 (value : Int)

def perform (s : PackedByteStream) : WriteCall → PackedByteStream
  | .allocate size => s.allocate size
  | .writeUnsigned value bytes => s.writeUnsigned value bytes
  | .writeBytes bytes => s.writeBytes bytes
  | .writeU8 value => s.writeU8 value

def performAll (s : PackedByteStream) (calls : List WriteCall) : PackedByteStream :=
  calls.foldl perform s

/-- The offsets of the bytes that a write of some length overwrites. -/
def overwrites (s : PackedByteStream) (length : Nat) : List Nat :=
  if s.c + length > s.data.length then [] else List.range' s.c length

def offsets (s : PackedByteStream) : WriteCall → List Nat
  | .allocate _ => []
  | .writeUnsigned _ bytes => if bytes ∈ [1, 2, 4, 8] then s.overwrites bytes else []
  | .writeBytes bytes => s.overwrites bytes.length
  | .writeU8 _ => s.overwrites 1

/-- The offsets that a sequence of calls overwrites, in order. -/
def allOffsets : PackedByteStream → List WriteCall → List Nat
  | _, [] => []
  | s, call :: calls => s.offsets call ++ allOffsets (s.perform call) calls

theorem writeWord_c (w : Nat) (s : PackedByteStream) (v : Int) :
    s.c ≤ (writeWord w s v).c ∧
      s.overwrites w = List.range' s.c ((writeWord w s v).c - s.c) := by
  simp only [writeWord, overwrites]
  split
  · simp
  · simp

theorem writeBytes_c (s : PackedByteStream) (xs : List UInt8) :
    s.c ≤ (s.writeBytes xs).c ∧
      s.overwrites xs.length = List.range' s.c ((s.writeBytes xs).c - s.c) := by
  simp only [writeBytes, overwrites]
  split
  · simp
  · simp

theorem perform_c (s : PackedByteStream) (call : WriteCall) :
    s.c ≤ (s.perform call).c ∧
      s.offsets call = List.range' s.c ((s.perform call).c - s.c) := by
  cases call with
  | allocate size => simp [perform, offsets, PackedByteStream.allocate]
  | writeUnsigned value bytes =>
    simp only [perform, offsets]
    split
    · next h =>
      simp only [List.mem_cons, List.not_mem_nil, or_false] at h
      rcases h with rfl | rfl | rfl | rfl
      · exact writeWord_c 1 s value
      · exact writeWord_c 2 s value
      · exact writeWord_c 4 s value
      · exact writeWord_c 8 s value
    · next h =>
      have hc : (s.writeUnsigned value bytes).c = s.c := by
        unfold writeUnsigned
        split
        · simp at h
        · simp at h
        · simp at h
        · simp at h
        · rfl
      simp [hc]
  | writeBytes bytes => exact writeBytes_c s bytes
  | writeU8 value => exact writeWord_c 1 s value

theorem performAll_c (s : PackedByteStream) (calls : List WriteCall) :
    s.c ≤ (s.performAll calls).c ∧
      s.allOffsets calls = List.range' s.c ((s.performAll calls).c - s.c) := by
  induction calls generalizing s with
  | nil => simp [performAll, allOffsets]
  | cons call calls ih =>
    obtain ⟨h1, h2⟩ := perform_c s call
    obtain ⟨h3, h4⟩ := ih (s.perform call)
    simp only [performAll, List.foldl_cons, allOffsets] at h3 h4 ⊢
    apply And.intro (Nat.le_trans h1 h3)
    have hstart : (s.perform call).c = s.c + ((s.perform call).c - s.c) := by omega
    rw [h2, h4]
    nth_rewrite 2 [hstart]
    rw [List.range'_append_1]
    congr 1
    omega

end PackedByteStream

end Godaemon
