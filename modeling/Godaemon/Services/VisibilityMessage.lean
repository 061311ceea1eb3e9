import Godaemon.Api.RpcPacket

namespace Godaemon
set_option autoImplicit true

open PackedByteStream

def maxNodeOwnerBytes : Nat := 4

/-- What a visibility update says about one node, or scene, to create. -/
structure AddedNode where
  parentId : Int
  owner : Int
  uid : Int
  propertyKeys : List Variant
  propertyValues : List Variant
  nodeIds : List Int
  dominant : Bool

namespace AddedNode

def properties (added : AddedNode) : Variant :=
  .dictionary added.propertyKeys added.propertyValues

/-- The ids and the owner have 32 bits, the uid is a signed integer of 64 bits, and the ids can
be counted. -/
structure InRange (added : AddedNode) : Prop where
  parentId : 0 ≤ added.parentId ∧ added.parentId < 2 ^ 32
  owner : 0 ≤ added.owner ∧ added.owner < 2 ^ 32
  uid : -2 ^ 63 ≤ added.uid ∧ added.uid < 2 ^ 63
  nodeIds : ∀ id ∈ added.nodeIds, 0 ≤ id ∧ id < 2 ^ 32
  count : added.nodeIds.length < 2 ^ 32

/-- The calls that write one node out, the space for it included. -/
def calls (codec : VariantCodec) (added : AddedNode) : List WriteCall :=
  let propertyVariant := codec.varToBytes added.properties
  [.allocate (maxBytes + maxNodeOwnerBytes + 8 + propertyVariant.length + maxBytes +
      maxBytes * added.nodeIds.length + 1),
    .writeUnsigned added.parentId maxBytes,
    .writeUnsigned added.owner maxNodeOwnerBytes,
    .writeUnsigned added.uid 8,
    .writeBytes propertyVariant,
    .writeUnsigned added.nodeIds.length maxBytes] ++
  added.nodeIds.map (fun id => .writeUnsigned id maxBytes) ++
  [.writeU8 (if added.dominant then 1 else 0)]

end AddedNode

/-- The calls that write an update out, after the stream has been set up for the two counts. -/
def visibilityCalls (codec : VariantCodec) (added : List AddedNode) (removed : List Int) :
    List WriteCall :=
  [.writeUnsigned added.length maxBytes, .writeUnsigned removed.length maxBytes] ++
  added.flatMap (AddedNode.calls codec) ++
  [.allocate (removed.length * maxBytes)] ++
  removed.map (fun id => .writeUnsigned id maxBytes)

def visibilityStream (codec : VariantCodec) (added : List AddedNode) (removed : List Int) :
    PackedByteStream :=
  (PackedByteStream.new.setupWrite (maxBytes * 2)).performAll (visibilityCalls codec added removed)

def compressVisibilityData (codec : VariantCodec) (added : List AddedNode) (removed : List Int) :
    List UInt8 :=
  let stream := visibilityStream codec added removed
  if stream.valid then stream.data else []

def readIds : Nat → PackedByteStream → List Int × PackedByteStream
  | 0, stream => ([], stream)
  | count + 1, stream =>
    let (id, stream) := stream.readUnsigned maxBytes
    let (ids, stream) := readIds count stream
    (id :: ids, stream)

/-- Read one node. A variant that is not a dictionary cannot be bound to the typed variable for
the properties, which ends the call without a result. -/
def readAddedNode (codec : VariantCodec) (stream : PackedByteStream) :
    Option (AddedNode × PackedByteStream) :=
  let (parentId, stream) := stream.readUnsigned maxBytes
  let (owner, stream) := stream.readUnsigned maxNodeOwnerBytes
  let (uid, stream) := stream.readUnsigned 8
  match stream.readVariant codec with
  | (.dictionary keys values, stream) =>
    let (count, stream) := stream.readUnsigned maxBytes
    let (nodeIds, stream) := readIds count.toNat stream
    let (dominant, stream) := stream.readU8
    some (⟨parentId, owner, uid, keys, values, nodeIds, dominant ≠ 0⟩, stream)
  | _ => none

def readAddedNodes (codec : VariantCodec) :
    Nat → PackedByteStream → Option (List AddedNode × PackedByteStream)
  | 0, stream => some ([], stream)
  | count + 1, stream =>
    (readAddedNode codec stream).bind fun (added, stream) =>
      (readAddedNodes codec count stream).map fun (rest, stream) => (added :: rest, stream)

/-- Read an update; `none` is the source's empty array. -/
def decompressVisibilityData (codec : VariantCodec) (data : List UInt8) :
    Option (List AddedNode × List Int) :=
  let (addedCount, stream) := (PackedByteStream.new.setupRead data).readUnsigned maxBytes
  let (removedCount, stream) := stream.readUnsigned maxBytes
  (readAddedNodes codec addedCount.toNat stream).bind fun (added, stream) =>
    let (removed, stream) := readIds removedCount.toNat stream
    if stream.valid then some (added, removed) else none

def idBytes (ids : List Int) : List UInt8 :=
  ids.flatMap fun id => Bytes.encode 4 (Bytes.residue 4 id)

/-- The bytes of one node, field by field. -/
def AddedNode.bytes (codec : VariantCodec) (added : AddedNode) : List UInt8 :=
  Bytes.encode 4 (Bytes.residue 4 added.parentId) ++
    (Bytes.encode 4 (Bytes.residue 4 added.owner) ++
      (Bytes.encode 8 (Bytes.residue 8 added.uid) ++
        (codec.varToBytes added.properties ++
          (Bytes.encode 4 (Bytes.residue 4 added.nodeIds.length) ++
            (idBytes added.nodeIds ++
              Bytes.encode 1 (Bytes.residue 1 (if added.dominant then 1 else 0)))))))

def visibilityBytes (codec : VariantCodec) (added : List AddedNode) (removed : List Int) :
    List UInt8 :=
  Bytes.encode 4 (Bytes.residue 4 added.length) ++
    (Bytes.encode 4 (Bytes.residue 4 removed.length) ++
      (added.flatMap (AddedNode.bytes codec) ++ idBytes removed))

theorem performAll_append (s : PackedByteStream) (calls calls' : List WriteCall) :
    s.performAll (calls ++ calls') = (s.performAll calls).performAll calls' :=
  List.foldl_append

theorem Wrote.ids (h : Wrote s out space) (ids : List Int) (hspace : 4 * ids.length ≤ space) :
    Wrote (s.performAll (ids.map (fun id => .writeUnsigned id maxBytes))) (out ++ idBytes ids)
      (space - 4 * ids.length) := by
  induction ids generalizing s out space with
  | nil => simpa [performAll, idBytes] using h
  | cons id ids ih =>
    rw [List.length_cons] at hspace ⊢
    have h1 := h.word (w := 4) (by omega) id
    have h2 := ih h1 (by omega)
    have hsum : space - 4 - 4 * ids.length = space - 4 * (ids.length + 1) := by omega
    rw [hsum, List.append_assoc] at h2
    exact h2

theorem Wrote.addedNode (h : Wrote s out 0) (codec : VariantCodec) (added : AddedNode) :
    Wrote (s.performAll (added.calls codec)) (out ++ added.bytes codec) 0 := by
  have h0 := h.allocate (4 + 4 + 8 + (codec.varToBytes added.properties).length + 4 +
    4 * added.nodeIds.length + 1)
  have h1 := h0.word (w := 4) (by omega) added.parentId
  have h2 := h1.word (w := 4) (by omega) added.owner
  have h3 := h2.word (w := 8) (by omega) added.uid
  have hfits : (codec.varToBytes added.properties).length ≤
      0 + (4 + 4 + 8 + (codec.varToBytes added.properties).length + 4 +
        4 * added.nodeIds.length + 1) - 4 - 4 - 8 := by omega
  have h4 := h3.bytes hfits
  have h5 := h4.word (w := 4) (by omega) added.nodeIds.length
  have h6 := Wrote.ids h5 added.nodeIds (by omega)
  have h7 := h6.word (w := 1) (by omega) (if added.dominant then 1 else 0)
  have hspace : 0 + (4 + 4 + 8 + (codec.varToBytes added.properties).length + 4 +
      4 * added.nodeIds.length + 1) - 4 - 4 - 8 - (codec.varToBytes added.properties).length - 4 -
      4 * added.nodeIds.length - 1 = 0 := by omega
  rw [hspace] at h7
  simp only [List.append_assoc] at h7
  rw [AddedNode.calls, performAll_append, performAll_append]
  exact h7

theorem Wrote.addedNodes (h : Wrote s out 0) (codec : VariantCodec) (added : List AddedNode) :
    Wrote (s.performAll (added.flatMap (AddedNode.calls codec)))
      (out ++ added.flatMap (AddedNode.bytes codec)) 0 := by
  induction added generalizing s out with
  | nil => simpa [performAll] using h
  | cons node added ih =>
    rw [List.flatMap_cons, List.flatMap_cons, performAll_append, ← List.append_assoc]
    exact ih (Wrote.addedNode h codec node)

theorem wrote_visibilityStream (codec : VariantCodec) (added : List AddedNode)
    (removed : List Int) :
    Wrote (visibilityStream codec added removed) (visibilityBytes codec added removed) 0 := by
  have h0 := Wrote.setup (maxBytes * 2)
  have h1 := h0.word (w := 4) (by decide) added.length
  have h2 := h1.word (w := 4) (by decide) removed.length
  have hnone : maxBytes * 2 - 4 - 4 = 0 := by decide
  rw [hnone] at h2
  have h3 := (Wrote.addedNodes h2 codec added).allocate (removed.length * 4)
  have h4 := Wrote.ids h3 removed (by omega)
  have hspace : 0 + removed.length * 4 - 4 * removed.length = 0 := by omega
  rw [hspace] at h4
  simp only [List.nil_append, List.append_assoc] at h4
  rw [visibilityStream, visibilityCalls, performAll_append, performAll_append, performAll_append]
  exact h4

theorem compressVisibilityData_eq (codec : VariantCodec) (added : List AddedNode)
    (removed : List Int) :
    compressVisibilityData codec added removed = visibilityBytes codec added removed := by
  have h := wrote_visibilityStream codec added removed
  simp only [compressVisibilityData, h.valid, ↓reduceIte, h.data_eq]

theorem visibility_offsets (codec : VariantCodec) (added : List AddedNode) (removed : List Int) :
    (PackedByteStream.new.setupWrite (maxBytes * 2)).allOffsets
        (visibilityCalls codec added removed) =
      List.range (visibilityStream codec added removed).data.length := by
  have h := wrote_visibilityStream codec added removed
  have hc := h.cursor
  have hl := h.length
  rw [(performAll_c _ _).2, List.range_eq_range']
  change List.range' 0 ((visibilityStream codec added removed).c - 0) = _
  congr 1
  omega

variable {codec : VariantCodec} {s : PackedByteStream}

theorem field_ahead (h : Ahead s (Bytes.encode w (Bytes.residue w v) ++ rest)) (h0 : 0 ≤ v)
    (h1 : v < (256 ^ w : Nat)) :
    ∃ s', readUWord w s = (v, s') ∧ s'.valid = s.valid ∧ Ahead s' rest := by
  obtain ⟨hread, hahead⟩ := read_field h
  rw [Bytes.residue_of_nonneg h0 h1] at hread
  exact ⟨_, hread, rfl, hahead⟩

theorem signed_field_ahead (h : Ahead s (Bytes.encode w (Bytes.residue w v) ++ rest))
    (hlo : -((256 ^ w : Nat) : Int) ≤ 2 * v) (hhi : 2 * v < (256 ^ w : Nat)) :
    ∃ s', readSWord w s = (v, s') ∧ s'.valid = s.valid ∧ Ahead s' rest := by
  have hread := h.read_s_word
  have hahead := h.advance
  rw [Bytes.encode_length] at hahead
  rw [Nat.mod_eq_of_lt (Bytes.residue_lt w v), Bytes.signed_residue hlo hhi] at hread
  exact ⟨_, hread, rfl, hahead⟩

theorem variant_ahead (h : Ahead s (codec.varToBytes v ++ rest)) (hv : codec.Inverts v) :
    ∃ s', readVariant codec s = (v, s') ∧ s'.valid = s.valid ∧ Ahead s' rest :=
  ⟨_, h.read_variant hv, rfl, h.advance⟩

theorem readIds_ahead (ids : List Int) (h : Ahead s (idBytes ids ++ rest))
    (hids : ∀ id ∈ ids, 0 ≤ id ∧ id < 2 ^ 32) :
    ∃ s', readIds ids.length s = (ids, s') ∧ s'.valid = s.valid ∧ Ahead s' rest := by
  induction ids generalizing s with
  | nil => exact ⟨s, rfl, rfl, h⟩
  | cons id ids ih =>
    rw [idBytes, List.flatMap_cons, List.append_assoc] at h
    have hid := hids id List.mem_cons_self
    obtain ⟨s1, e1, v1, h1⟩ := field_ahead h hid.1 (by omega)
    obtain ⟨s2, e2, v2, h2⟩ := ih h1 (fun i hi => hids i (List.mem_cons_of_mem _ hi))
    have hread : readIds (id :: ids).length s = (id :: ids, s2) := by
      simp only [List.length_cons, readIds, readUnsigned_maxBytes, e1, e2]
    exact ⟨s2, hread, v2.trans v1, h2⟩

theorem readUnsigned_maxNodeOwnerBytes (s : PackedByteStream) :
    s.readUnsigned maxNodeOwnerBytes = readUWord 4 s := rfl

theorem readUnsigned_eight (s : PackedByteStream) : s.readUnsigned 8 = readSWord 8 s := rfl

theorem readAddedNode_ahead (added : AddedNode) (h : Ahead s (added.bytes codec ++ rest))
    (hr : added.InRange) (hv : codec.Inverts added.properties) :
    ∃ s', readAddedNode codec s = some (added, s') ∧ s'.valid = s.valid ∧ Ahead s' rest := by
  have hparent := hr.parentId
  have howner := hr.owner
  have huid := hr.uid
  have hcount := hr.count
  have hdominant : (if added.dominant then 1 else 0 : Int) = 0 ∨
      (if added.dominant then 1 else 0 : Int) = 1 := by
    cases added.dominant with
    | false => exact .inl rfl
    | true => exact .inr rfl
  rw [AddedNode.bytes] at h
  simp only [List.append_assoc] at h
  obtain ⟨s1, e1, v1, h1⟩ := field_ahead h hparent.1 (by omega)
  obtain ⟨s2, e2, v2, h2⟩ := field_ahead h1 howner.1 (by omega)
  obtain ⟨s3, e3, v3, h3⟩ := signed_field_ahead h2 (by omega) (by omega)
  obtain ⟨s4, e4, v4, h4⟩ := variant_ahead h3 hv
  obtain ⟨s5, e5, v5, h5⟩ := field_ahead h4 (by omega) (by omega)
  obtain ⟨s6, e6, v6, h6⟩ := readIds_ahead added.nodeIds h5 hr.nodeIds
  obtain ⟨s7, e7, v7, h7⟩ := field_ahead h6 (by omega) (by omega)
  have hflag : decide ((if added.dominant then 1 else 0 : Int) ≠ 0) = added.dominant := by
    cases added.dominant with
    | false => rfl
    | true => rfl
  have hread : readAddedNode codec s = some (added, s7) := by
    simp only [readAddedNode, readUnsigned_maxBytes, readUnsigned_maxNodeOwnerBytes,
      readUnsigned_eight, e1, e2, e3, e4, AddedNode.properties, e5, Int.toNat_natCast, e6, readU8,
      e7, hflag]
  have hvalid : s7.valid = s.valid := by rw [v7, v6, v5, v4, v3, v2, v1]
  exact ⟨s7, hread, hvalid, h7⟩

theorem readAddedNodes_ahead (added : List AddedNode)
    (h : Ahead s (added.flatMap (AddedNode.bytes codec) ++ rest))
    (hr : ∀ node ∈ added, node.InRange ∧ codec.Inverts node.properties) :
    ∃ s', readAddedNodes codec added.length s = some (added, s') ∧ s'.valid = s.valid ∧
      Ahead s' rest := by
  induction added generalizing s with
  | nil => exact ⟨s, rfl, rfl, h⟩
  | cons node added ih =>
    rw [List.flatMap_cons, List.append_assoc] at h
    obtain ⟨hrange, hv⟩ := hr node List.mem_cons_self
    obtain ⟨s1, e1, v1, h1⟩ := readAddedNode_ahead node h hrange hv
    obtain ⟨s2, e2, v2, h2⟩ := ih h1 (fun n hn => hr n (List.mem_cons_of_mem _ hn))
    have hread : readAddedNodes codec (node :: added).length s = some (node :: added, s2) := by
      simp only [List.length_cons, readAddedNodes, e1, Option.bind_some, e2, Option.map_some]
    exact ⟨s2, hread, v2.trans v1, h2⟩

theorem readIds_length (count : Nat) (s : PackedByteStream) :
    (readIds count s).1.length = count := by
  induction count generalizing s with
  | zero => rfl
  | succ count ih => simp only [readIds, List.length_cons, ih]

theorem readAddedNodes_length {count : Nat} {added : List AddedNode}
    (h : readAddedNodes codec count s = some (added, s')) : added.length = count := by
  induction count generalizing s s' added with
  | zero =>
    cases h
    rfl
  | succ count ih =>
    rw [readAddedNodes, Option.bind_eq_some_iff] at h
    obtain ⟨⟨node, s1⟩, _, h⟩ := h
    rw [Option.map_eq_some_iff] at h
    obtain ⟨⟨rest, s2⟩, hrest, he⟩ := h
    cases he
    rw [List.length_cons, ih hrest]

theorem readUWord_lt (w : Nat) (s : PackedByteStream) :
    (readUWord w s).1 < (256 ^ w : Nat) := by
  unfold readUWord
  split
  · have hpos : 0 < 256 ^ w := Nat.pow_pos (by decide)
    exact Int.natCast_pos.2 hpos
  · have hlt := Bytes.decode_lt ((s.data.drop s.c).take w)
    have hle : ((s.data.drop s.c).take w).length ≤ w := List.length_take_le _ _
    have hpow : 256 ^ ((s.data.drop s.c).take w).length ≤ 256 ^ w :=
      Nat.pow_le_pow_right (by decide) hle
    exact Int.ofNat_lt.2 (Nat.lt_of_lt_of_le hlt hpow)

theorem counts_of_decompressVisibilityData {data : List UInt8} {added : List AddedNode}
    {removed : List Int} (h : decompressVisibilityData codec data = some (added, removed)) :
    added.length < 2 ^ 32 ∧ removed.length < 2 ^ 32 := by
  simp only [decompressVisibilityData, Option.bind_eq_some_iff] at h
  obtain ⟨⟨nodes, s1⟩, hnodes, h⟩ := h
  have h0 := readUWord_lt 4 (PackedByteStream.new.setupRead data)
  have h1 := readUWord_lt 4 (readUWord 4 (PackedByteStream.new.setupRead data)).2
  have hn0 := readUWord_nonneg 4 (PackedByteStream.new.setupRead data)
  have hn1 := readUWord_nonneg 4 (readUWord 4 (PackedByteStream.new.setupRead data)).2
  split at h
  · cases h
    rw [readAddedNodes_length hnodes, readIds_length, readUnsigned_maxBytes,
      readUnsigned_maxBytes]
    omega
  · cases h

/-- An update of any size fills its stream exactly, every byte once, and it is read back
unchanged exactly if its nodes and its ids can be counted in 32 bits. -/
theorem visibility_round_trip_iff (codec : VariantCodec) (added : List AddedNode)
    (removed : List Int) (hadded : ∀ node ∈ added, node.InRange ∧ codec.Inverts node.properties)
    (hremoved : ∀ id ∈ removed, 0 ≤ id ∧ id < 2 ^ 32) :
    (visibilityStream codec added removed).valid = true ∧
      (PackedByteStream.new.setupWrite (maxBytes * 2)).allOffsets
          (visibilityCalls codec added removed) =
        List.range (visibilityStream codec added removed).data.length ∧
      (decompressVisibilityData codec (compressVisibilityData codec added removed) =
          some (added, removed) ↔ added.length < 2 ^ 32 ∧ removed.length < 2 ^ 32) := by
  apply And.intro (wrote_visibilityStream codec added removed).valid
  apply And.intro (visibility_offsets codec added removed)
  apply Iff.intro counts_of_decompressVisibilityData
  intro h
  obtain ⟨hnodes, hids⟩ := h
  have h0 := Ahead.setup PackedByteStream.new (visibilityBytes codec added removed)
  nth_rewrite 2 [visibilityBytes] at h0
  obtain ⟨s1, e1, v1, h1⟩ := field_ahead h0 (by omega) (by omega)
  obtain ⟨s2, e2, v2, h2⟩ := field_ahead h1 (by omega) (by omega)
  obtain ⟨s3, e3, v3, h3⟩ := readAddedNodes_ahead added h2 hadded
  rw [← List.append_nil (idBytes removed)] at h3
  obtain ⟨s4, e4, v4, _⟩ := readIds_ahead removed h3 hremoved
  have hvalid : s4.valid = true := by
    rw [v4, v3, v2, v1]
    rfl
  rw [compressVisibilityData_eq]
  simp only [decompressVisibilityData, readUnsigned_maxBytes, e1, e2, Int.toNat_natCast, e3,
    Option.bind_some, e4, hvalid, ↓reduceIte]

/-- The engine's serializer, as far as it is about empty dictionaries. -/
def emptyDictionaryCodec : VariantCodec where
  varToBytes _ := Bytes.encode 4 27 ++ Bytes.encode 4 0
  decodeVarSize _ _ := 8
  decodeVar _ _ := .dictionary [] []

/-- A scene with two nodes and no properties to set, and one node to remove. -/
theorem visibility_round_trip_scene :
    decompressVisibilityData emptyDictionaryCodec (compressVisibilityData emptyDictionaryCodec
        [⟨1, 1, -42, [], [], [2, 3], true⟩] [5]) =
      some ([⟨1, 1, -42, [], [], [2, 3], true⟩], [5]) := by
  have hrange : AddedNode.InRange ⟨1, 1, -42, [], [], [2, 3], true⟩ :=
    ⟨by decide, by decide, by decide, by decide, by decide⟩
  apply (visibility_round_trip_iff emptyDictionaryCodec [⟨1, 1, -42, [], [], [2, 3], true⟩] [5]
    ?_ (by decide)).2.2.2 (by decide)
  intro node hnode
  rw [List.mem_singleton.1 hnode]
  exact ⟨hrange, fun _ _ => ⟨rfl, rfl⟩⟩

/-- An update that removes `2 ^ 32` ids is read back as an empty one. -/
theorem visibility_too_long :
    (∀ id ∈ List.replicate (2 ^ 32) (0 : Int), 0 ≤ id ∧ id < 2 ^ 32) ∧
      decompressVisibilityData intArrayCodec
          (compressVisibilityData intArrayCodec [] (List.replicate (2 ^ 32) 0)) ≠
        some ([], List.replicate (2 ^ 32) 0) := by
  apply And.intro
  · intro id hid
    rw [List.eq_of_mem_replicate hid]
    omega
  · intro h
    have hlt := (counts_of_decompressVisibilityData h).2
    rw [List.length_replicate] at hlt
    exact Nat.lt_irrefl _ hlt

end Godaemon
