import Godaemon.Api.Repository
import Godaemon.Util.PackedByteStream

namespace Godaemon
set_option autoImplicit true

open PackedByteStream

def maxRpcMethodBits : Nat := 8
def maxRpcMethodBytes : Nat := maxRpcMethodBits / 8
def maxRpcMethods : Nat := 2 ^ maxRpcMethodBits

/-- The fields that a packet carries. -/
structure RpcData where
  fromPeer : Int
  toPeer : Int
  objectId : Int
  methodIdx : Int
  args : List Variant

/-- Bit 0 of the header says that arguments follow, bit 1 that they are one raw byte array. -/
def rpcHeader : List Variant → Nat
  | [] => 0
  | [.packedByteArray _] => 0 ^^^ 1 ^^^ 2
  | _ => 0 ^^^ 1

def rpcArgs (codec : VariantCodec) : List Variant → List UInt8
  | [] => []
  | [.packedByteArray bytes] => bytes
  | args => codec.varToBytes (.array args)

/-- Serialize a packet. Only the server writes the sender. An id of `-1` is an object without
id; it and a method index out of range give the empty packet. -/
def compressRpc (codec : VariantCodec) (isServer : Bool) (fromPeer toPeer id methodIdx : Int)
    (args : List Variant) : List UInt8 :=
  let stream := PackedByteStream.new.setupWrite
    (1 + (if isServer then 4 else 0) + 4 + maxBytes + maxRpcMethodBytes)
  let stream := stream.writeU8 (rpcHeader args)
  let stream := if isServer then stream.writeU32 fromPeer else stream
  let stream := stream.writeU32 toPeer
  if id = -1 then []
  else
    let stream := stream.writeUnsigned id maxBytes
    if methodIdx ≥ maxRpcMethods then []
    else
      let stream := stream.writeUnsigned methodIdx maxRpcMethodBytes
      let data := stream.data ++ rpcArgs codec args
      if stream.valid then data else []

/-- The arguments after the fixed fields. A variant that is not an array cannot be bound to the
typed argument variable, which ends the call without a result. -/
def readRpcArgs (codec : VariantCodec) (header : Int) (stream : PackedByteStream) :
    Option (List Variant) × PackedByteStream :=
  if header.toNat &&& 1 = 0 then (some [], stream)
  else if header.toNat &&& 2 ≠ 0 then
    (some [.packedByteArray (stream.data.drop stream.c)], stream)
  else
    match stream.readVariant codec with
    | (.array args, stream) => (some args, stream)
    | (_, stream) => (none, stream)

/-- Read a packet that the transport delivered from `id`. Only a client reads the sender. -/
def decompressRpc (codec : VariantCodec) (isClient : Bool) (id : Int) (data : List UInt8) :
    Option RpcData :=
  let (header, stream) := (PackedByteStream.new.setupRead data).readU8
  let (fromPeer, stream) := if isClient then stream.readU32 else (id, stream)
  let (toPeer, stream) := stream.readU32
  let (objectId, stream) := stream.readUnsigned maxBytes
  let (methodIdx, stream) := stream.readUnsigned maxRpcMethodBytes
  match readRpcArgs codec header stream with
  | (some args, stream) =>
    if stream.valid then some ⟨fromPeer, toPeer, objectId, methodIdx, args⟩ else none
  | (none, _) => none

/-- The bytes of a packet, field by field. -/
def rpcBytes (codec : VariantCodec) (isServer : Bool) (fromPeer toPeer id methodIdx : Int)
    (args : List Variant) : List UInt8 :=
  Bytes.encode 1 (rpcHeader args) ++
    ((if isServer then Bytes.encode 4 (Bytes.residue 4 fromPeer) else []) ++
      (Bytes.encode 4 (Bytes.residue 4 toPeer) ++
        (Bytes.encode 4 (Bytes.residue 4 id) ++
          (Bytes.encode 1 (Bytes.residue 1 methodIdx) ++ rpcArgs codec args))))

theorem rpcHeader_lt (args : List Variant) : rpcHeader args < 256 := by
  unfold rpcHeader
  split <;> decide

theorem residue_rpcHeader (args : List Variant) :
    Bytes.residue 1 (rpcHeader args) = rpcHeader args := by
  have h := rpcHeader_lt args
  have hr := Bytes.residue_of_nonneg (w := 1) (z := rpcHeader args) (by omega) (by omega)
  omega

variable {codec : VariantCodec} {isServer : Bool} {args : List Variant}
  {fromPeer toPeer objectId methodIdx : Int}

theorem writeUnsigned_maxBytes (s : PackedByteStream) (v : Int) :
    s.writeUnsigned v maxBytes = writeWord 4 s v := rfl

theorem writeUnsigned_maxRpcMethodBytes (s : PackedByteStream) (v : Int) :
    s.writeUnsigned v maxRpcMethodBytes = writeWord 1 s v := rfl

theorem readUnsigned_maxBytes (s : PackedByteStream) :
    s.readUnsigned maxBytes = readUWord 4 s := rfl

theorem readUnsigned_maxRpcMethodBytes (s : PackedByteStream) :
    s.readUnsigned maxRpcMethodBytes = readUWord 1 s := rfl

theorem compressRpc_eq (hid : objectId ≠ -1) (hm : methodIdx < maxRpcMethods) :
    compressRpc codec isServer fromPeer toPeer objectId methodIdx args =
      rpcBytes codec isServer fromPeer toPeer objectId methodIdx args := by
  have h0 := Wrote.setup (1 + (if isServer then 4 else 0) + 4 + maxBytes + maxRpcMethodBytes)
  have h1 := h0.word (w := 1) (by omega) (rpcHeader args)
  rw [residue_rpcHeader] at h1
  have hge : ¬ methodIdx ≥ (maxRpcMethods : Int) := by omega
  simp only [compressRpc, if_neg hid, if_neg hge, writeUnsigned_maxBytes,
    writeUnsigned_maxRpcMethodBytes, writeU8, writeU32]
  cases isServer with
  | false =>
    have h4 := ((h1.word (w := 4) (by decide) toPeer).word (w := 4) (by decide) objectId).word
      (w := 1) (by decide) methodIdx
    have hd := h4.data_eq
    have hv := h4.valid
    simp only [Bool.false_eq_true, ↓reduceIte] at hd hv ⊢
    rw [if_pos hv, hd]
    simp [rpcBytes, List.append_assoc]
  | true =>
    have h5 := (((h1.word (w := 4) (by decide) fromPeer).word (w := 4) (by decide) toPeer).word
      (w := 4) (by decide) objectId).word (w := 1) (by decide) methodIdx
    have hd := h5.data_eq
    have hv := h5.valid
    simp only [↓reduceIte] at hd hv ⊢
    rw [if_pos hv, hd]
    simp [rpcBytes, List.append_assoc]

theorem rpcBytes_ne_nil : rpcBytes codec isServer fromPeer toPeer objectId methodIdx args ≠ [] := by
  intro h
  have hl := congrArg List.length h
  simp [rpcBytes, Bytes.encode_length] at hl

theorem compressRpc_of_ne_nil
    (h : compressRpc codec isServer fromPeer toPeer objectId methodIdx args ≠ []) :
    compressRpc codec isServer fromPeer toPeer objectId methodIdx args =
      rpcBytes codec isServer fromPeer toPeer objectId methodIdx args := by
  have hid : objectId ≠ -1 := by
    intro hid
    apply h
    rw [compressRpc, if_pos hid]
  have hidx : methodIdx < maxRpcMethods := by
    by_contra hge
    apply h
    rw [compressRpc, if_neg hid, if_pos (not_lt.1 hge)]
  exact compressRpc_eq hid hidx

theorem rpcHeader_packing : rpcHeader args &&& 1 = 0 ↔ args = [] := by
  unfold rpcHeader
  split <;> simp_all

theorem rpcHeader_dense (h : args ≠ []) :
    rpcHeader args &&& 2 ≠ 0 ↔ ∃ bytes, args = [.packedByteArray bytes] := by
  unfold rpcHeader
  split <;> simp_all

theorem readRpcArgs_eq (hs : Ahead s (rpcArgs codec args)) (hv : s.valid = true)
    (hargs : codec.Inverts (.array args)) :
    ∃ s', readRpcArgs codec (Bytes.residue 1 (rpcHeader args)) s = (some args, s') ∧
      s'.valid = true := by
  rw [residue_rpcHeader]
  by_cases he : args = []
  · refine ⟨s, ?_, hv⟩
    subst he
    rfl
  · have hp : ¬ rpcHeader args &&& 1 = 0 := fun h => he (rpcHeader_packing.1 h)
    by_cases hd : ∃ bytes, args = [.packedByteArray bytes]
    · refine ⟨s, ?_, hv⟩
      have h2 := (rpcHeader_dense he).2 hd
      obtain ⟨bytes, rfl⟩ := hd
      simp only [readRpcArgs, Int.toNat_natCast, if_neg hp, if_pos h2, hs.drop, rpcArgs]
    · have h2 : ¬ rpcHeader args &&& 2 ≠ 0 := fun h => hd ((rpcHeader_dense he).1 h)
      have ha : rpcArgs codec args = codec.varToBytes (.array args) := by
        unfold rpcArgs
        split <;> simp_all
      rw [ha, ← List.append_nil (codec.varToBytes _)] at hs
      simp only [readRpcArgs, Int.toNat_natCast, if_neg hp, if_neg h2, hs.read_variant hargs]
      exact ⟨_, rfl, hv⟩

theorem read_field (h : Ahead s (Bytes.encode w (Bytes.residue w v) ++ rest)) :
    readUWord w s = ((Bytes.residue w v : Int), { s with c := s.c + w }) ∧
      Ahead { s with c := s.c + w } rest := by
  have ha := h.advance
  rw [Bytes.encode_length] at ha
  refine ⟨?_, ha⟩
  rw [h.read_u_word, Nat.mod_eq_of_lt (Bytes.residue_lt w v)]

theorem decompressRpc_fields (codec codec' : VariantCodec) (isServer : Bool)
    (transport fromPeer toPeer objectId methodIdx : Int) (args : List Variant) :
    ∃ stream, Ahead stream (rpcArgs codec args) ∧ stream.valid = true ∧
      ∀ read after,
        readRpcArgs codec' (Bytes.residue 1 (rpcHeader args)) stream = (read, after) →
        decompressRpc codec' isServer transport
            (rpcBytes codec isServer fromPeer toPeer objectId methodIdx args) =
          read.bind fun args => if after.valid then
            some ⟨if isServer then Bytes.residue 4 fromPeer else transport,
              Bytes.residue 4 toPeer, Bytes.residue 4 objectId, Bytes.residue 1 methodIdx, args⟩
          else none := by
  have hbytes : rpcBytes codec isServer fromPeer toPeer objectId methodIdx args =
      Bytes.encode 1 (Bytes.residue 1 (rpcHeader args)) ++
        ((if isServer then Bytes.encode 4 (Bytes.residue 4 fromPeer) else []) ++
          (Bytes.encode 4 (Bytes.residue 4 toPeer) ++
            (Bytes.encode 4 (Bytes.residue 4 objectId) ++
              (Bytes.encode 1 (Bytes.residue 1 methodIdx) ++ rpcArgs codec args)))) := by
    rw [residue_rpcHeader, rpcBytes]
  have h0 := Ahead.setup PackedByteStream.new
    (rpcBytes codec isServer fromPeer toPeer objectId methodIdx args)
  rw [hbytes] at h0 ⊢
  obtain ⟨e1, h1⟩ := read_field h0
  simp only [decompressRpc, readU8, readU32, readUnsigned_maxBytes,
    readUnsigned_maxRpcMethodBytes]
  rw [e1]
  cases isServer with
  | false =>
    simp only [Bool.false_eq_true, ↓reduceIte, List.nil_append] at h1 ⊢
    obtain ⟨e2, h2⟩ := read_field h1
    obtain ⟨e3, h3⟩ := read_field h2
    obtain ⟨e4, h4⟩ := read_field h3
    refine ⟨_, h4, rfl, fun read after hread => ?_⟩
    rw [e2, e3, e4, hread]
    cases read with
    | none => rfl
    | some args => rfl
  | true =>
    simp only [↓reduceIte] at h1 ⊢
    obtain ⟨e2, h2⟩ := read_field h1
    obtain ⟨e3, h3⟩ := read_field h2
    obtain ⟨e4, h4⟩ := read_field h3
    obtain ⟨e5, h5⟩ := read_field h4
    refine ⟨_, h5, rfl, fun read after hread => ?_⟩
    rw [e2, e3, e4, e5, hread]
    cases read with
    | none => rfl
    | some args => rfl

theorem decompressRpc_rpcBytes (hargs : codec.Inverts (.array args)) (transport : Int) :
    decompressRpc codec isServer transport
        (rpcBytes codec isServer fromPeer toPeer objectId methodIdx args) =
      some ⟨if isServer then Bytes.residue 4 fromPeer else transport, Bytes.residue 4 toPeer,
        Bytes.residue 4 objectId, Bytes.residue 1 methodIdx, args⟩ := by
  obtain ⟨stream, hahead, hvalid, hread⟩ := decompressRpc_fields codec codec isServer
    transport fromPeer toPeer objectId methodIdx args
  obtain ⟨s', he, hv⟩ := readRpcArgs_eq hahead hvalid hargs
  rw [hread _ _ he, Option.bind_some, if_pos hv]

/-- Whatever becomes of the arguments, a packet that is read names the target and the object it was
made for. -/
theorem target_of_decompressRpc {codec' : VariantCodec} {transport : Int} {data : RpcData}
    (h : decompressRpc codec' isServer transport
      (rpcBytes codec isServer fromPeer toPeer objectId methodIdx args) = some data) :
    data.toPeer = Bytes.residue 4 toPeer ∧ data.objectId = Bytes.residue 4 objectId := by
  obtain ⟨stream, _, _, hread⟩ := decompressRpc_fields codec codec' isServer transport fromPeer
    toPeer objectId methodIdx args
  rcases hargs : readRpcArgs codec' (Bytes.residue 1 (rpcHeader args)) stream with ⟨found, after⟩
  rw [hread found after hargs] at h
  obtain ⟨read, _, h⟩ := Option.bind_eq_some_iff.1 h
  split at h
  · cases h
    exact ⟨rfl, rfl⟩
  · cases h

/-- The server takes the transport's word for the sender, and never reads an exclusion. -/
theorem decompressRpc_server {data : RpcData}
    (h : decompressRpc codec false transport bytes = some data) :
    data.fromPeer = transport ∧ 0 ≤ data.toPeer := by
  simp only [decompressRpc, Bool.false_eq_true, ↓reduceIte] at h
  split at h
  · split at h
    · cases h
      exact ⟨rfl, readUWord_nonneg 4 _⟩
    · cases h
  · cases h

/-- A packet comes back unchanged exactly when its target is not given as an exclusion. -/
theorem compressRpc_round_trip_iff {transport : Int} (hfrom : 1 ≤ fromPeer ∧ fromPeer < 2 ^ 31)
    (hto : -2 ^ 31 < toPeer ∧ toPeer < 2 ^ 31) (hid : 0 ≤ objectId ∧ objectId < 2 ^ 32)
    (hm : 0 ≤ methodIdx ∧ methodIdx < 256) (hargs : codec.Inverts (.array args))
    (htransport : isServer = false → transport = fromPeer) :
    decompressRpc codec isServer transport
        (compressRpc codec isServer fromPeer toPeer objectId methodIdx args) =
      some ⟨fromPeer, toPeer, objectId, methodIdx, args⟩ ↔ 0 ≤ toPeer := by
  have hfrom' : (if isServer then (Bytes.residue 4 fromPeer : Int) else transport) = fromPeer := by
    cases isServer with
    | false => exact htransport rfl
    | true => exact Bytes.residue_of_nonneg (by omega) (by omega)
  have hid' : (Bytes.residue 4 objectId : Int) = objectId :=
    Bytes.residue_of_nonneg hid.1 (by omega)
  have hm' : (Bytes.residue 1 methodIdx : Int) = methodIdx :=
    Bytes.residue_of_nonneg hm.1 (by omega)
  rw [compressRpc_eq (by omega) (by simp only [maxRpcMethods, maxRpcMethodBits]; omega),
    decompressRpc_rpcBytes hargs, hfrom', hid', hm']
  simp only [Option.some.injEq, RpcData.mk.injEq, true_and, and_true]
  constructor
  · intro h
    rw [← h]
    exact Int.natCast_nonneg _
  · intro h
    exact Bytes.residue_of_nonneg h (by omega)

/-- A server packet for peer 9 with one argument. -/
theorem compressRpc_round_trip_peer_nine :
    decompressRpc intArrayCodec true 1 (compressRpc intArrayCodec true 1 9 7 3 [.int 5]) =
      some ⟨1, 9, 7, 3, [.int 5]⟩ :=
  (compressRpc_round_trip_iff (by decide) (by decide) (by decide) (by decide)
    (intArrayCodec_inverts [5] (by decide)) (by decide)).2 (by decide)

/-- An exclusion target arrives as a large positive peer id. -/
theorem compressRpc_excluded_peer :
    intArrayCodec.Inverts (.array []) ∧
      (decompressRpc intArrayCodec false 2
        (compressRpc intArrayCodec false 2 (-5) 7 3 [])).map RpcData.toPeer = some 4294967291 ∧
      decompressRpc intArrayCodec false 2 (compressRpc intArrayCodec false 2 (-5) 7 3 []) ≠
        some ⟨2, -5, 7, 3, []⟩ := by
  have h : (decompressRpc intArrayCodec false 2
      (compressRpc intArrayCodec false 2 (-5) 7 3 [])).map RpcData.toPeer = some 4294967291 := by
    decide
  refine ⟨intArrayCodec_inverts [] (by decide), h, fun he => ?_⟩
  rw [he] at h
  revert h
  decide

end Godaemon
