import Godaemon.Services.VisibilityMessage

namespace Godaemon
set_option autoImplicit true

open PackedByteStream

namespace VariantCodec

/-- What is cut off inside the encoding of a value is no variant. -/
def RejectsPrefixes (codec : VariantCodec) (v : Variant) : Prop :=
  ∀ pre n, n < (codec.varToBytes v).length →
    codec.decodeVarSize (pre ++ (codec.varToBytes v).take n) pre.length = 0 ∧
      codec.decodeVar (pre ++ (codec.varToBytes v).take n) pre.length = .null

end VariantCodec

/-- `decompressRpc`, with the stream it leaves. An assignment of a wrong type ends a decoder, which
returns the empty array then, as for data that it finds invalid. -/
def decodeRpc (codec : VariantCodec) (isClient : Bool) (id : Int) (data : List UInt8) :
    Option RpcData × PackedByteStream :=
  let (header, stream) := (PackedByteStream.new.setupRead data).readU8
  let (fromPeer, stream) := if isClient then stream.readU32 else (id, stream)
  let (toPeer, stream) := stream.readU32
  let (objectId, stream) := stream.readUnsigned maxBytes
  let (methodIdx, stream) := stream.readUnsigned maxRpcMethodBytes
  match readRpcArgs codec header stream with
  | (some args, stream) =>
    let record := RpcData.mk fromPeer toPeer objectId methodIdx args
    (if stream.valid then some record else none, stream)
  | (none, stream) => (none, stream)

/-- `readAddedNode`, with the stream that it leaves where it ends the call. -/
def decodeAddedNode (codec : VariantCodec) (stream : PackedByteStream) :
    Except PackedByteStream (AddedNode × PackedByteStream) :=
  let (parentId, stream) := stream.readUnsigned maxBytes
  let (owner, stream) := stream.readUnsigned maxNodeOwnerBytes
  let (uid, stream) := stream.readUnsigned 8
  match stream.readVariant codec with
  | (.dictionary keys values, stream) =>
    let (count, stream) := stream.readUnsigned maxBytes
    let (nodeIds, stream) := readIds count.toNat stream
    let (dominant, stream) := stream.readU8
    .ok (⟨parentId, owner, uid, keys, values, nodeIds, dominant ≠ 0⟩, stream)
  | (_, stream) => .error stream

def decodeAddedNodes (codec : VariantCodec) :
    Nat → PackedByteStream → Except PackedByteStream (List AddedNode × PackedByteStream)
  | 0, stream => .ok ([], stream)
  | count + 1, stream =>
    (decodeAddedNode codec stream).bind fun (added, stream) =>
      (decodeAddedNodes codec count stream).map fun (rest, stream) => (added :: rest, stream)

/-- `decompressVisibilityData`, with the stream it leaves. -/
def decodeVisibility (codec : VariantCodec) (data : List UInt8) :
    Option (List AddedNode × List Int) × PackedByteStream :=
  let (addedCount, stream) := (PackedByteStream.new.setupRead data).readUnsigned maxBytes
  let (removedCount, stream) := stream.readUnsigned maxBytes
  match decodeAddedNodes codec addedCount.toNat stream with
  | .error stream => (none, stream)
  | .ok (added, stream) =>
    let (removed, stream) := readIds removedCount.toNat stream
    (if stream.valid then some (added, removed) else none, stream)

/-- Some read has found the data exhausted, no read has gone past its end, and nothing but the empty
array comes back. -/
structure Rejects (data : List UInt8) (result : Option α × PackedByteStream) : Prop where
  flagged : result.2.valid = false
  inside : result.2.data = data ∧ result.2.c ≤ data.length
  empty : result.1 = none

variable {codec : VariantCodec} {s : PackedByteStream}

theorem decodeRpc_fst (codec : VariantCodec) (isClient : Bool) (id : Int) (data : List UInt8) :
    (decodeRpc codec isClient id data).1 = decompressRpc codec isClient id data := by
  simp only [decodeRpc, decompressRpc]
  generalize readRpcArgs codec _ _ = r
  obtain ⟨args, stream⟩ := r
  cases args with
  | none => rfl
  | some args => rfl

theorem decodeAddedNode_toOption (codec : VariantCodec) (s : PackedByteStream) :
    (decodeAddedNode codec s).toOption = readAddedNode codec s := by
  simp only [decodeAddedNode, readAddedNode]
  generalize readVariant codec _ = r
  obtain ⟨v, stream⟩ := r
  cases v <;> rfl

theorem decodeAddedNodes_toOption (codec : VariantCodec) (count : Nat) (s : PackedByteStream) :
    (decodeAddedNodes codec count s).toOption = readAddedNodes codec count s := by
  induction count generalizing s with
  | zero => rfl
  | succ count ih =>
    rw [decodeAddedNodes, readAddedNodes, ← decodeAddedNode_toOption]
    cases decodeAddedNode codec s with
    | error stream => rfl
    | ok added =>
      obtain ⟨node, stream⟩ := added
      have hrest := ih stream
      simp only [Except.bind, Except.toOption, Option.bind_some, ← hrest]
      cases decodeAddedNodes codec count stream with
      | error stream => rfl
      | ok rest => rfl

theorem decodeVisibility_fst (codec : VariantCodec) (data : List UInt8) :
    (decodeVisibility codec data).1 = decompressVisibilityData codec data := by
  simp only [decodeVisibility, decompressVisibilityData, ← decodeAddedNodes_toOption]
  generalize decodeAddedNodes codec _ _ = r
  cases r with
  | error stream => rfl
  | ok added => rfl

/-- What a read may change: it stays inside of the data, and an error stays known. -/
structure Reads (s s' : PackedByteStream) : Prop where
  data : s'.data = s.data
  inside : s.c ≤ s.data.length → s'.c ≤ s.data.length
  forward : s.c ≤ s'.c
  invalid : s.valid = false → s'.valid = false

theorem Reads.refl (s : PackedByteStream) : Reads s s := ⟨rfl, id, Nat.le_refl _, id⟩

theorem Reads.trans {s' s'' : PackedByteStream} (h : Reads s s') (h' : Reads s' s'') :
    Reads s s'' := by
  refine ⟨h'.data.trans h.data, fun hin => ?_, h.forward.trans h'.forward,
    fun hv => h'.invalid (h.invalid hv)⟩
  rw [← h.data]
  apply h'.inside
  rw [h.data]
  exact h.inside hin

theorem reads_flag (s : PackedByteStream) : Reads s { s with valid := false } :=
  ⟨rfl, id, Nat.le_refl _, fun _ => rfl⟩

theorem reads_advance {n : Nat} (h : ¬ s.c + n > s.data.length) :
    Reads s { s with c := s.c + n } :=
  ⟨rfl, fun _ => Nat.le_of_not_lt h, Nat.le_add_right _ _, id⟩

theorem reads_uword (w : Nat) (s : PackedByteStream) : Reads s (readUWord w s).2 := by
  rw [readUWord]
  split
  · exact reads_flag s
  · next h => exact reads_advance h

theorem reads_sword (w : Nat) (s : PackedByteStream) : Reads s (readSWord w s).2 := by
  rw [readSWord]
  split
  · exact reads_flag s
  · next h => exact reads_advance h

theorem reads_variant (codec : VariantCodec) (s : PackedByteStream) :
    Reads s (readVariant codec s).2 := by
  rw [readVariant]
  split
  · exact reads_flag s
  · next h => exact reads_advance h

theorem reads_ids (count : Nat) (s : PackedByteStream) : Reads s (readIds count s).2 := by
  induction count generalizing s with
  | zero => exact .refl s
  | succ count ih => exact (reads_uword 4 s).trans (ih _)

theorem reads_args (codec : VariantCodec) (header : Int) (s : PackedByteStream) :
    Reads s (readRpcArgs codec header s).2 := by
  have hvariant := reads_variant codec s
  rw [readRpcArgs]
  split
  · exact .refl s
  split
  · exact .refl s
  · rcases hread : readVariant codec s with ⟨v, after⟩
    rw [hread] at hvariant
    cases v <;> exact hvariant

theorem reads_decodeRpc (codec : VariantCodec) (isClient : Bool) (id : Int) (data : List UInt8) :
    Reads (PackedByteStream.new.setupRead data) (decodeRpc codec isClient id data).2 := by
  have hread : ∀ header stream, Reads (PackedByteStream.new.setupRead data) stream →
      Reads (PackedByteStream.new.setupRead data)
        (readRpcArgs codec header (readUWord 1 (readUWord 4 (readUWord 4 stream).2).2).2).2 :=
    fun header stream h => h.trans ((reads_uword 4 _).trans ((reads_uword 4 _).trans
      ((reads_uword 1 _).trans (reads_args codec header _))))
  have hheader := reads_uword 1 (PackedByteStream.new.setupRead data)
  have hfrom : Reads (PackedByteStream.new.setupRead data)
      (if isClient then (readUWord 1 (PackedByteStream.new.setupRead data)).2.readU32
        else (id, (readUWord 1 (PackedByteStream.new.setupRead data)).2)).2 := by
    split
    · exact hheader.trans (reads_uword 4 _)
    · exact hheader
  have hargs := hread (readUWord 1 (PackedByteStream.new.setupRead data)).1 _ hfrom
  simp only [decodeRpc, readU8, readU32, readUnsigned_maxBytes,
    readUnsigned_maxRpcMethodBytes] at hargs ⊢
  generalize readRpcArgs codec _ _ = r at hargs ⊢
  obtain ⟨args, stream⟩ := r
  cases args <;> exact hargs

/-- The stream that a step of the decoder leaves, whether or not it ends the call. -/
def leaves : Except PackedByteStream (α × PackedByteStream) → PackedByteStream
  | .error stream => stream
  | .ok (_, stream) => stream

theorem reads_decodeAddedNode (codec : VariantCodec) (s : PackedByteStream) :
    Reads s (leaves (decodeAddedNode codec s)) := by
  have hfixed := (reads_uword 4 s).trans ((reads_uword 4 _).trans ((reads_sword 8 _).trans
    (reads_variant codec _)))
  simp only [decodeAddedNode, readUnsigned_maxBytes, readUnsigned_maxNodeOwnerBytes,
    readUnsigned_eight]
  generalize readVariant codec _ = r at hfixed ⊢
  obtain ⟨v, stream⟩ := r
  cases v with
  | dictionary keys values =>
    exact hfixed.trans ((reads_uword 4 stream).trans ((reads_ids _ _).trans (reads_uword 1 _)))
  | _ => exact hfixed

theorem reads_decodeAddedNodes (codec : VariantCodec) (count : Nat) (s : PackedByteStream) :
    Reads s (leaves (decodeAddedNodes codec count s)) := by
  induction count generalizing s with
  | zero => exact .refl s
  | succ count ih =>
    have hnode := reads_decodeAddedNode codec s
    rw [decodeAddedNodes]
    cases hread : decodeAddedNode codec s with
    | error stream =>
      rw [hread] at hnode
      exact hnode
    | ok added =>
      obtain ⟨node, stream⟩ := added
      rw [hread] at hnode
      have hrest := ih stream
      simp only [Except.bind]
      cases hnodes : decodeAddedNodes codec count stream with
      | error after =>
        rw [hnodes] at hrest
        exact hnode.trans hrest
      | ok rest =>
        obtain ⟨nodes, after⟩ := rest
        rw [hnodes] at hrest
        exact hnode.trans hrest

theorem reads_decodeVisibility (codec : VariantCodec) (data : List UInt8) :
    Reads (PackedByteStream.new.setupRead data) (decodeVisibility codec data).2 := by
  have hcounts := (reads_uword 4 (PackedByteStream.new.setupRead data)).trans (reads_uword 4 _)
  simp only [decodeVisibility, readUnsigned_maxBytes]
  have hnodes := hcounts.trans (reads_decodeAddedNodes codec
    (readUWord 4 (PackedByteStream.new.setupRead data)).1.toNat _)
  generalize decodeAddedNodes codec _ _ = r at hnodes ⊢
  cases r with
  | error stream => exact hnodes
  | ok added => exact hnodes.trans (reads_ids _ _)

theorem word_invalid {w : Nat} (h : s.data.length < s.c + w) : (readUWord w s).2.valid = false := by
  rw [readUWord, if_pos h]

theorem PackedByteStream.Ahead.length (h : Ahead s rest) : s.data.length = s.c + rest.length := by
  obtain ⟨pre, hd, hc⟩ := h
  rw [hd, hc, List.length_append]

theorem word_cut {w m : Nat} (h : Ahead s ((Bytes.encode w n ++ rest).take m)) (hw : w ≤ m) :
    Ahead { s with c := s.c + w } (rest.take (m - w)) ∧
      readUWord w s = (((n % 256 ^ w : Nat) : Int), { s with c := s.c + w }) ∧
      (readSWord w s).2 = { s with c := s.c + w } := by
  have hsplit : (Bytes.encode w n ++ rest).take m = Bytes.encode w n ++ rest.take (m - w) := by
    rw [List.take_append, Bytes.encode_length, List.take_of_length_le]
    rw [Bytes.encode_length]
    exact hw
  rw [hsplit] at h
  have hadvance := h.advance
  rw [Bytes.encode_length] at hadvance
  exact ⟨hadvance, h.read_u_word, by rw [h.read_s_word]⟩

theorem word_missing {w m : Nat} (h : Ahead s ((Bytes.encode w n ++ rest).take m)) (hw : m < w) :
    s.data.length < s.c + w := by
  have hlength := h.length
  rw [List.length_take] at hlength
  omega

/-- Words are read one after the other, whatever they are. -/
def skipWords (s : PackedByteStream) : List Nat → PackedByteStream
  | [] => s
  | w :: widths => skipWords (readUWord w s).2 widths

theorem reads_words (widths : List Nat) (s : PackedByteStream) : Reads s (skipWords s widths) := by
  induction widths generalizing s with
  | nil => exact .refl s
  | cons w widths ih => exact (reads_uword w s).trans (ih _)

theorem words_invalid {widths : List Nat} (h : s.data.length < s.c + widths.sum)
    (hin : s.c ≤ s.data.length) : (skipWords s widths).valid = false := by
  induction widths generalizing s with
  | nil => exact absurd hin (Nat.not_le.2 h)
  | cons width widths ih =>
    rw [List.sum_cons, ← Nat.add_assoc] at h
    rw [skipWords]
    by_cases hmissing : s.data.length < s.c + width
    · exact (reads_words widths _).invalid (word_invalid hmissing)
    · have hnext : (readUWord width s).2 = { s with c := s.c + width } := by
        rw [readUWord, if_neg hmissing]
      rw [hnext]
      exact ih h (Nat.le_of_not_lt hmissing)

def wordBytes (words : List (Nat × Nat)) : List UInt8 :=
  words.flatMap fun (w, n) => Bytes.encode w n

def wordWidths (words : List (Nat × Nat)) : List Nat := words.map Prod.fst

theorem words_cut {words : List (Nat × Nat)} {m : Nat}
    (h : Ahead s ((wordBytes words ++ rest).take m)) (hm : (wordWidths words).sum ≤ m) :
    skipWords s (wordWidths words) = { s with c := s.c + (wordWidths words).sum } ∧
      Ahead (skipWords s (wordWidths words)) (rest.take (m - (wordWidths words).sum)) := by
  induction words generalizing s m with
  | nil => exact ⟨rfl, h⟩
  | cons word words ih =>
    obtain ⟨w, n⟩ := word
    rw [wordBytes, List.flatMap_cons, List.append_assoc] at h
    rw [wordWidths, List.map_cons, List.sum_cons] at hm ⊢
    obtain ⟨hahead, hread, _⟩ := word_cut h (by omega)
    have hm' : (wordWidths words).sum ≤ m - w := Nat.le_sub_of_add_le' hm
    obtain ⟨hskip, hrest⟩ := ih hahead hm'
    rw [skipWords, hread]
    rw [hskip, Nat.sub_sub] at hrest
    exact ⟨hskip.trans (by rw [Nat.add_assoc]; rfl), hskip ▸ hrest⟩

theorem variant_missing {v : Variant} {m : Nat} (h : Ahead s ((codec.varToBytes v ++ rest).take m))
    (hm : m < (codec.varToBytes v).length) (hv : codec.RejectsPrefixes v) :
    readVariant codec s = (.null, s) := by
  rw [List.take_append_of_le_length hm.le] at h
  obtain ⟨pre, hd, hc⟩ := h
  obtain ⟨hsize, hvar⟩ := hv pre m hm
  rw [← hd, ← hc] at hsize hvar
  have hfits : ¬ s.c > s.data.length := by
    rw [hd, hc, List.length_append]
    omega
  simp only [readVariant, hsize, hvar, Nat.add_zero, if_neg hfits]

theorem variant_cut {v : Variant} {m : Nat} (h : Ahead s ((codec.varToBytes v ++ rest).take m))
    (hm : (codec.varToBytes v).length ≤ m) (hv : codec.Inverts v) :
    Ahead { s with c := s.c + (codec.varToBytes v).length }
        (rest.take (m - (codec.varToBytes v).length)) ∧
      readVariant codec s = (v, { s with c := s.c + (codec.varToBytes v).length }) := by
  have hsplit : (codec.varToBytes v ++ rest).take m =
      codec.varToBytes v ++ rest.take (m - (codec.varToBytes v).length) := by
    rw [List.take_append, List.take_of_length_le hm]
  rw [hsplit] at h
  exact ⟨h.advance, h.read_variant hv⟩

theorem ids_cut (ids : List Int) {m : Nat} (h : Ahead s ((idBytes ids ++ rest).take m))
    (hvalid : s.valid = true) :
    (4 * ids.length ≤ m ∧ (readIds ids.length s).2.valid = true ∧
        Ahead (readIds ids.length s).2 (rest.take (m - 4 * ids.length))) ∨
      m < 4 * ids.length ∧ (readIds ids.length s).2.valid = false := by
  induction ids generalizing s m with
  | nil => exact .inl ⟨Nat.zero_le _, hvalid, h⟩
  | cons id ids ih =>
    rw [idBytes, List.flatMap_cons, List.append_assoc] at h
    simp only [List.length_cons, readIds, readUnsigned_maxBytes]
    by_cases hm : 4 ≤ m
    · obtain ⟨hahead, hread, _⟩ := word_cut h hm
      rw [hread]
      cases ih hahead hvalid with
      | inl hall =>
        obtain ⟨hle, hv, hafter⟩ := hall
        have hsub : m - 4 - 4 * ids.length = m - 4 * (ids.length + 1) := by omega
        rw [hsub] at hafter
        exact .inl ⟨by omega, hv, hafter⟩
      | inr hmissing =>
        obtain ⟨hlt, hinvalid⟩ := hmissing
        exact .inr ⟨by omega, hinvalid⟩
    · have hmissing := word_missing h (Nat.lt_of_not_le hm)
      exact .inr ⟨by omega, (reads_ids ids.length _).invalid (word_invalid hmissing)⟩

/-- The stream once the fields before the properties of a node have been read. -/
def afterUid (s : PackedByteStream) : PackedByteStream :=
  (readSWord 8 (readUWord 4 (readUWord 4 s).2).2).2

theorem readSWord_snd (w : Nat) (s : PackedByteStream) :
    (readSWord w s).2 = (readUWord w s).2 := by
  rw [readSWord, readUWord]
  split
  · rfl
  · rfl

theorem afterUid_eq (s : PackedByteStream) : afterUid s = skipWords s [4, 4, 8] :=
  readSWord_snd 8 _

theorem decodeAddedNode_error
    (h : ∀ keys values, (readVariant codec (afterUid s)).1 ≠ .dictionary keys values) :
    decodeAddedNode codec s = .error (readVariant codec (afterUid s)).2 := by
  simp only [decodeAddedNode, readUnsigned_maxBytes, readUnsigned_maxNodeOwnerBytes,
    readUnsigned_eight]
  change (match readVariant codec (afterUid s) with
    | (.dictionary keys values, stream) => _
    | (_, stream) => _) = _
  rcases hread : readVariant codec (afterUid s) with ⟨v, after⟩
  rw [hread] at h
  cases v with
  | dictionary keys values => exact absurd rfl (h keys values)
  | _ => rfl

theorem reads_afterUid (codec : VariantCodec) (s : PackedByteStream) :
    Reads (afterUid s) (leaves (decodeAddedNode codec s)) := by
  have hvariant := reads_variant codec (afterUid s)
  simp only [decodeAddedNode, readUnsigned_maxBytes, readUnsigned_maxNodeOwnerBytes,
    readUnsigned_eight]
  change Reads (afterUid s) (leaves (match readVariant codec (afterUid s) with
    | (.dictionary keys values, stream) => _
    | (_, stream) => _))
  rcases hread : readVariant codec (afterUid s) with ⟨v, stream⟩
  rw [hread] at hvariant
  cases v with
  | dictionary keys values =>
    exact hvariant.trans ((reads_uword 4 stream).trans ((reads_ids _ _).trans (reads_uword 1 _)))
  | _ => exact hvariant

theorem length_idBytes (ids : List Int) : (idBytes ids).length = 4 * ids.length := by
  induction ids with
  | nil => rfl
  | cons id ids ih =>
    rw [idBytes, List.flatMap_cons, List.length_append, Bytes.encode_length, List.length_cons]
    change 4 + (idBytes ids).length = _
    omega

theorem AddedNode.length_bytes (codec : VariantCodec) (node : AddedNode) :
    (node.bytes codec).length = 16 + (codec.varToBytes node.properties).length + 4 +
      4 * node.nodeIds.length + 1 := by
  simp only [AddedNode.bytes, List.length_append, Bytes.encode_length, length_idBytes]
  omega

variable {node : AddedNode} {m : Nat}

theorem afterUid_invalid (h : Ahead s ((node.bytes codec ++ rest).take m)) (hm : m < 16) :
    (afterUid s).valid = false := by
  have hlength := h.length
  rw [List.length_take] at hlength
  rw [afterUid_eq]
  apply words_invalid
  · change s.data.length < s.c + 16
    omega
  · omega

/-- The words before the properties of a node. -/
def AddedNode.words (node : AddedNode) : List (Nat × Nat) :=
  [(4, Bytes.residue 4 node.parentId), (4, Bytes.residue 4 node.owner),
    (8, Bytes.residue 8 node.uid)]

theorem AddedNode.bytes_eq (codec : VariantCodec) (node : AddedNode) : node.bytes codec =
    wordBytes node.words ++ (codec.varToBytes node.properties ++
      (Bytes.encode 4 (Bytes.residue 4 node.nodeIds.length) ++ (idBytes node.nodeIds ++
        Bytes.encode 1 (Bytes.residue 1 (if node.dominant then 1 else 0))))) := by
  simp only [AddedNode.bytes, wordBytes, AddedNode.words, List.flatMap_cons, List.flatMap_nil,
    List.append_nil, List.append_assoc]

theorem afterUid_cut (h : Ahead s ((node.bytes codec ++ rest).take m)) (hm : 16 ≤ m) :
    afterUid s = { s with c := s.c + 16 } ∧
      Ahead (afterUid s) ((codec.varToBytes node.properties ++
        (Bytes.encode 4 (Bytes.residue 4 node.nodeIds.length) ++ (idBytes node.nodeIds ++
          (Bytes.encode 1 (Bytes.residue 1 (if node.dominant then 1 else 0)) ++ rest)))).take
            (m - 16)) := by
  rw [node.bytes_eq] at h
  simp only [List.append_assoc] at h
  rw [afterUid_eq]
  exact words_cut h hm

/-- A cut inside of the properties ends the call, and the error is not known. -/
theorem decodeAddedNode_cut_properties (h : Ahead s ((node.bytes codec ++ rest).take m))
    (hm : 16 ≤ m) (hlt : m < 16 + (codec.varToBytes node.properties).length)
    (hrejects : codec.RejectsPrefixes node.properties) (hvalid : s.valid = true) :
    ∃ after, decodeAddedNode codec s = .error after ∧ after.valid = true := by
  obtain ⟨huid, hahead⟩ := afterUid_cut h hm
  have hvariant := variant_missing hahead (by omega) hrejects
  refine ⟨_, decodeAddedNode_error (fun keys values => ?_), ?_⟩
  · rw [hvariant]
    exact Variant.noConfusion
  · rw [hvariant, huid]
    exact hvalid

/-- The stream once the fields after the properties of a node have been read. -/
def afterTail (s : PackedByteStream) : PackedByteStream :=
  (readUWord 1 (readIds (readUWord 4 s).1.toNat (readUWord 4 s).2).2).2

theorem decodeAddedNode_ok {keys values : List Variant} {stream : PackedByteStream}
    (h : readVariant codec (afterUid s) = (.dictionary keys values, stream)) :
    ∃ x, decodeAddedNode codec s = .ok (x, afterTail stream) := by
  rw [afterUid] at h
  simp only [decodeAddedNode, readUnsigned_maxBytes, readUnsigned_maxNodeOwnerBytes,
    readUnsigned_eight]
  rw [h]
  exact ⟨_, rfl⟩

theorem residue_count (count : Nat) :
    (((Bytes.residue 4 count % 256 ^ 4 : Nat) : Int)).toNat = count % 2 ^ 32 := by
  rw [Int.toNat_natCast, Nat.mod_eq_of_lt (Bytes.residue_lt 4 _), Bytes.residue]
  omega

theorem afterTail_cut {ids : List Int} {flag : Nat} (h : Ahead s ((Bytes.encode 4
      (Bytes.residue 4 ids.length) ++ (idBytes ids ++ (Bytes.encode 1 flag ++ rest))).take m))
    (hcount : ids.length < 2 ^ 32) (hvalid : s.valid = true) :
    (5 + 4 * ids.length ≤ m ∧ (afterTail s).valid = true ∧
        Ahead (afterTail s) (rest.take (m - (5 + 4 * ids.length)))) ∨
      m < 5 + 4 * ids.length ∧ (afterTail s).valid = false := by
  rw [afterTail]
  by_cases hcounted : 4 ≤ m
  · obtain ⟨hids, hread, _⟩ := word_cut h hcounted
    rw [hread, residue_count, Nat.mod_eq_of_lt hcount]
    cases ids_cut ids hids hvalid with
    | inl hall =>
      obtain ⟨hle, hv, hafter⟩ := hall
      by_cases hflag : 1 ≤ m - 4 - 4 * ids.length
      · obtain ⟨hlast, hread', _⟩ := word_cut hafter hflag
        have hsub : m - 4 - 4 * ids.length - 1 = m - (5 + 4 * ids.length) := by omega
        rw [hsub] at hlast
        rw [hread']
        exact .inl ⟨by omega, hv, hlast⟩
      · have hmissing := word_missing hafter (Nat.lt_of_not_le hflag)
        exact .inr ⟨by omega, word_invalid hmissing⟩
    | inr hmissing =>
      obtain ⟨hlt, hinvalid⟩ := hmissing
      exact .inr ⟨by omega, (reads_uword 1 _).invalid hinvalid⟩
  · have hmissing := word_missing h (Nat.lt_of_not_le hcounted)
    exact .inr ⟨by omega,
      ((reads_ids _ _).trans (reads_uword 1 _)).invalid (word_invalid hmissing)⟩

theorem decodeAddedNode_cut_rest (h : Ahead s ((node.bytes codec ++ rest).take m))
    (hm : 16 + (codec.varToBytes node.properties).length ≤ m)
    (hinverts : codec.Inverts node.properties) (hcount : node.nodeIds.length < 2 ^ 32)
    (hvalid : s.valid = true) :
    ∃ x after, decodeAddedNode codec s = .ok (x, after) ∧
      (((node.bytes codec).length ≤ m ∧ after.valid = true ∧
          Ahead after (rest.take (m - (node.bytes codec).length))) ∨
        m < (node.bytes codec).length ∧ after.valid = false) := by
  obtain ⟨huid, hahead⟩ := afterUid_cut h (by omega)
  obtain ⟨htail, hread⟩ := variant_cut hahead (by omega) hinverts
  have hvalid' : (afterUid s).valid = true := by
    rw [huid]
    exact hvalid
  obtain ⟨x, hdecode⟩ := decodeAddedNode_ok hread
  refine ⟨x, _, hdecode, ?_⟩
  have hlength : (node.bytes codec).length =
      16 + (codec.varToBytes node.properties).length + (5 + 4 * node.nodeIds.length) := by
    have htotal := node.length_bytes codec
    omega
  rw [hlength, ← Nat.sub_sub m, ← Nat.sub_sub m]
  cases afterTail_cut htail hcount hvalid' with
  | inl hall =>
    obtain ⟨hle, hv, hafter⟩ := hall
    exact .inl ⟨by omega, hv, hafter⟩
  | inr hmissing =>
    obtain ⟨hlt, hinvalid⟩ := hmissing
    exact .inr ⟨by omega, hinvalid⟩

/-- The bytes of the nodes. -/
def nodesBytes (codec : VariantCodec) (nodes : List AddedNode) : List UInt8 :=
  nodes.flatMap (AddedNode.bytes codec)

/-- An offset inside of the properties of one of the nodes. -/
def InProperties (codec : VariantCodec) (nodes : List AddedNode) (m : Nat) : Prop :=
  ∃ before node after, nodes = before ++ node :: after ∧
    (nodesBytes codec before).length + 16 ≤ m ∧
      m < (nodesBytes codec before).length + 16 + (codec.varToBytes node.properties).length

variable {nodes : List AddedNode}

theorem length_nodesBytes_cons : (nodesBytes codec (node :: nodes)).length =
    (node.bytes codec).length + (nodesBytes codec nodes).length := by
  rw [nodesBytes, List.flatMap_cons, List.length_append]
  rfl

theorem inProperties_cons : InProperties codec (node :: nodes) m ↔
    (16 ≤ m ∧ m < 16 + (codec.varToBytes node.properties).length) ∨
      (node.bytes codec).length ≤ m ∧
        InProperties codec nodes (m - (node.bytes codec).length) := by
  constructor
  · rintro ⟨before, inner, after, heq, hle, hlt⟩
    cases before with
    | nil =>
      obtain ⟨rfl, _⟩ := List.cons.inj heq
      have hzero : (nodesBytes codec []).length = 0 := rfl
      exact .inl ⟨by omega, by omega⟩
    | cons first before =>
      obtain ⟨rfl, hnodes⟩ := List.cons.inj heq
      rw [length_nodesBytes_cons] at hle hlt
      exact .inr ⟨by omega, before, inner, after, hnodes, by omega, by omega⟩
  · rintro (⟨hle, hlt⟩ | ⟨hle, before, inner, after, hnodes, hstart, hend⟩)
    · have hzero : (nodesBytes codec []).length = 0 := rfl
      exact ⟨[], node, nodes, rfl, by omega, by omega⟩
    · refine ⟨node :: before, inner, after, by rw [hnodes]; rfl, ?_, ?_⟩
      · rw [length_nodesBytes_cons]
        omega
      · rw [length_nodesBytes_cons]
        omega

/-- What is needed of a node that is written out. -/
structure Encodable (codec : VariantCodec) (node : AddedNode) : Prop where
  inverts : codec.Inverts node.properties
  rejects : codec.RejectsPrefixes node.properties
  count : node.nodeIds.length < 2 ^ 32

theorem decodeAddedNodes_error {after : PackedByteStream}
    (h : decodeAddedNode codec s = .error after) (count : Nat) :
    decodeAddedNodes codec (count + 1) s = .error after := by
  rw [decodeAddedNodes, h]
  rfl

theorem decodeAddedNodes_ok {x : AddedNode} {after : PackedByteStream}
    (h : decodeAddedNode codec s = .ok (x, after)) (count : Nat) :
    decodeAddedNodes codec (count + 1) s =
      (decodeAddedNodes codec count after).map fun r => (x :: r.1, r.2) := by
  rw [decodeAddedNodes, h]
  rfl

/-- An error that is known after a node is known after all of them. -/
theorem reads_nodes_after (codec : VariantCodec) (count : Nat) (s : PackedByteStream) :
    Reads (leaves (decodeAddedNode codec s)) (leaves (decodeAddedNodes codec (count + 1) s)) := by
  cases hread : decodeAddedNode codec s with
  | error after =>
    rw [decodeAddedNodes_error hread]
    exact .refl after
  | ok added =>
    obtain ⟨x, after⟩ := added
    rw [decodeAddedNodes_ok hread]
    have hrest := reads_decodeAddedNodes codec count after
    cases hnodes : decodeAddedNodes codec count after with
    | error last =>
      rw [hnodes] at hrest
      exact hrest
    | ok rest =>
      rw [hnodes] at hrest
      exact hrest

/-- What becomes of the nodes of an update when it is cut. -/
inductive NodesCut (codec : VariantCodec) (nodes : List AddedNode) (rest : List UInt8) (m : Nat)
    (s : PackedByteStream) : Prop where
  /-- The cut comes after them. -/
  | read (xs : List AddedNode) (after : PackedByteStream)
    (decoded : decodeAddedNodes codec nodes.length s = .ok (xs, after))
    (reached : (nodesBytes codec nodes).length ≤ m) (valid : after.valid = true)
    (ahead : Ahead after (rest.take (m - (nodesBytes codec nodes).length)))
  | flagged (cut : m < (nodesBytes codec nodes).length) (outside : ¬ InProperties codec nodes m)
    (invalid : (leaves (decodeAddedNodes codec nodes.length s)).valid = false)
  /-- The call ends, and the error is not known. -/
  | hidden (after : PackedByteStream)
    (decoded : decodeAddedNodes codec nodes.length s = .error after)
    (inside : InProperties codec nodes m) (valid : after.valid = true)

theorem NodesCut.here (hlt : m < (node.bytes codec).length)
    (hm : ¬ (16 ≤ m ∧ m < 16 + (codec.varToBytes node.properties).length))
    (hinvalid : (leaves (decodeAddedNode codec s)).valid = false) (rest : List UInt8) :
    NodesCut codec (node :: nodes) rest m s := by
  apply NodesCut.flagged
  · rw [length_nodesBytes_cons]
    omega
  · rw [inProperties_cons]
    rintro (hhere | hlater)
    · exact hm hhere
    · exact Nat.not_le.2 hlt hlater.1
  · exact (reads_nodes_after codec nodes.length s).invalid hinvalid

theorem NodesCut.cons {x : AddedNode} {after : PackedByteStream}
    (hread : decodeAddedNode codec s = .ok (x, after)) (hle : (node.bytes codec).length ≤ m)
    (h : NodesCut codec nodes rest (m - (node.bytes codec).length) after) :
    NodesCut codec (node :: nodes) rest m s := by
  have htotal : (nodesBytes codec (node :: nodes)).length =
      (node.bytes codec).length + (nodesBytes codec nodes).length := length_nodesBytes_cons
  have hlength := node.length_bytes codec
  have hdecode := decodeAddedNodes_ok hread nodes.length
  have hin : InProperties codec (node :: nodes) m ↔
      InProperties codec nodes (m - (node.bytes codec).length) := by
    rw [inProperties_cons]
    constructor
    · rintro (hhere | hlater)
      · omega
      · exact hlater.2
    · exact fun hlater => .inr ⟨hle, hlater⟩
  cases h with
  | read xs last decoded reached valid ahead =>
    rw [decoded] at hdecode
    apply NodesCut.read _ last hdecode (by omega) valid
    rw [htotal, ← Nat.sub_sub]
    exact ahead
  | flagged cut outside invalid =>
    apply NodesCut.flagged (by omega) (mt hin.1 outside)
    rw [List.length_cons, hdecode]
    cases hnodes : decodeAddedNodes codec nodes.length after with
    | error last =>
      rw [hnodes] at invalid
      exact invalid
    | ok rest =>
      rw [hnodes] at invalid
      exact invalid
  | hidden last decoded inside valid =>
    rw [decoded] at hdecode
    exact .hidden last hdecode (hin.2 inside) valid

theorem decodeAddedNodes_cut (hnodes : ∀ node ∈ nodes, Encodable codec node)
    (h : Ahead s ((nodesBytes codec nodes ++ rest).take m)) (hvalid : s.valid = true) :
    NodesCut codec nodes rest m s := by
  induction nodes generalizing s m with
  | nil => exact .read [] s rfl (Nat.zero_le _) hvalid h
  | cons node nodes ih =>
    obtain ⟨hinverts, hrejects, hcount⟩ := hnodes node List.mem_cons_self
    have hothers (n : AddedNode) (hn : n ∈ nodes) := hnodes n (List.mem_cons_of_mem _ hn)
    have hlength := node.length_bytes codec
    rw [nodesBytes, List.flatMap_cons, List.append_assoc] at h
    by_cases hfields : m < 16
    · apply NodesCut.here (by omega) (by omega)
      exact (reads_afterUid codec s).invalid (afterUid_invalid h hfields)
    by_cases hm : m < 16 + (codec.varToBytes node.properties).length
    · obtain ⟨after, hread, hv⟩ := decodeAddedNode_cut_properties h (Nat.le_of_not_lt hfields)
        hm hrejects hvalid
      apply NodesCut.hidden after (decodeAddedNodes_error hread _) _ hv
      exact inProperties_cons.2 (.inl ⟨Nat.le_of_not_lt hfields, hm⟩)
    obtain ⟨x, after, hread, hall | hmissing⟩ :=
      decodeAddedNode_cut_rest h (Nat.le_of_not_lt hm) hinverts hcount hvalid
    · obtain ⟨hle, hv, hafter⟩ := hall
      exact .cons hread hle (ih hothers hafter hv)
    · obtain ⟨hlt, hinvalid⟩ := hmissing
      apply NodesCut.here hlt (fun hin => hm hin.2)
      rw [hread]
      exact hinvalid

/-- The stream once the fields before the arguments of a packet have been read. -/
def afterFields (isClient : Bool) (data : List UInt8) : PackedByteStream :=
  let stream := (readUWord 1 (PackedByteStream.new.setupRead data)).2
  let stream := if isClient then (readUWord 4 stream).2 else stream
  (readUWord 1 (readUWord 4 (readUWord 4 stream).2).2).2

def fieldsLength (isServer : Bool) : Nat :=
  1 + (if isServer then 4 else 0) + 4 + maxBytes + maxRpcMethodBytes

theorem decodeRpc_snd (codec : VariantCodec) (isClient : Bool) (id : Int) (data : List UInt8) :
    (decodeRpc codec isClient id data).2 =
      (readRpcArgs codec (readUWord 1 (PackedByteStream.new.setupRead data)).1
        (afterFields isClient data)).2 := by
  have hfrom : (if isClient then (readUWord 4 (readUWord 1 (PackedByteStream.new.setupRead data)).2)
      else (id, (readUWord 1 (PackedByteStream.new.setupRead data)).2)).2 =
      if isClient then (readUWord 4 (readUWord 1 (PackedByteStream.new.setupRead data)).2).2
        else (readUWord 1 (PackedByteStream.new.setupRead data)).2 := by
    split
    · rfl
    · rfl
  simp only [decodeRpc, readU8, readU32, readUnsigned_maxBytes, readUnsigned_maxRpcMethodBytes,
    afterFields, hfrom]
  generalize readRpcArgs codec _ _ = r
  obtain ⟨args, stream⟩ := r
  cases args with
  | none => rfl
  | some args => rfl

theorem decodeRpc_empty {isClient : Bool} {id : Int} {data : List UInt8}
    (h : (decodeRpc codec isClient id data).2.valid = false) :
    (decodeRpc codec isClient id data).1 = none := by
  simp only [decodeRpc] at h ⊢
  generalize readRpcArgs codec _ _ = r at h ⊢
  obtain ⟨args, stream⟩ := r
  cases args with
  | none => rfl
  | some args =>
    change stream.valid = false at h
    change (if stream.valid then _ else _) = _
    rw [h]
    rfl

theorem readUWord_snd (w : Nat) (s : PackedByteStream) : (readUWord w s).2 =
    if s.c + w > s.data.length then { s with valid := false } else { s with c := s.c + w } := by
  rw [readUWord]
  split
  · rfl
  · rfl

def fieldWidths (isServer : Bool) : List Nat :=
  1 :: ((if isServer then [4] else []) ++ [4, maxBytes, maxRpcMethodBytes])

theorem sum_fieldWidths (isServer : Bool) : (fieldWidths isServer).sum = fieldsLength isServer := by
  cases isServer <;> rfl

theorem afterFields_eq (isClient : Bool) (data : List UInt8) : afterFields isClient data =
    skipWords (PackedByteStream.new.setupRead data) (fieldWidths isClient) := by
  cases isClient <;> rfl

theorem afterFields_short {isClient : Bool} {data : List UInt8}
    (h : data.length < fieldsLength isClient) : (afterFields isClient data).valid = false := by
  rw [afterFields_eq]
  apply words_invalid
  · rw [sum_fieldWidths]
    exact h.trans_le (Nat.le_add_left _ _)
  · exact Nat.zero_le _

variable {isServer : Bool} {args : List Variant} {n : Nat}
variable {fromPeer toPeer objectId methodIdx : Int}

theorem length_rpcBytes : (rpcBytes codec isServer fromPeer toPeer objectId methodIdx args).length =
    fieldsLength isServer + (rpcArgs codec args).length := by
  have hmax : maxBytes = 4 := rfl
  have hmethod : maxRpcMethodBytes = 1 := rfl
  simp only [rpcBytes, List.length_append, Bytes.encode_length, fieldsLength, hmax, hmethod]
  cases isServer with
  | false =>
    simp only [Bool.false_eq_true, ↓reduceIte, List.length_nil]
    omega
  | true =>
    simp only [↓reduceIte, Bytes.encode_length]
    omega

theorem header_cut (h : 0 < n) :
    (readUWord 1 (PackedByteStream.new.setupRead
      ((rpcBytes codec isServer fromPeer toPeer objectId methodIdx args).take n))).1 =
        rpcHeader args := by
  have h0 := Ahead.setup PackedByteStream.new
    ((rpcBytes codec isServer fromPeer toPeer objectId methodIdx args).take n)
  nth_rewrite 2 [rpcBytes] at h0
  obtain ⟨_, hread, _⟩ := word_cut h0 h
  have hlt := rpcHeader_lt args
  rw [hread, Nat.mod_eq_of_lt (by omega)]

/-- The words before the arguments of a packet. -/
def rpcWords (isServer : Bool) (fromPeer toPeer objectId methodIdx : Int) (args : List Variant) :
    List (Nat × Nat) :=
  (1, rpcHeader args) :: ((if isServer then [(4, Bytes.residue 4 fromPeer)] else []) ++
    [(4, Bytes.residue 4 toPeer), (maxBytes, Bytes.residue 4 objectId),
      (maxRpcMethodBytes, Bytes.residue 1 methodIdx)])

theorem wordWidths_rpcWords :
    wordWidths (rpcWords isServer fromPeer toPeer objectId methodIdx args) =
      fieldWidths isServer := by
  cases isServer <;> rfl

theorem rpcBytes_eq : rpcBytes codec isServer fromPeer toPeer objectId methodIdx args =
    wordBytes (rpcWords isServer fromPeer toPeer objectId methodIdx args) ++
      rpcArgs codec args := by
  cases isServer with
  | false =>
    simp only [rpcBytes, wordBytes, rpcWords, List.flatMap_cons, List.flatMap_nil,
      List.append_assoc, List.append_nil, List.nil_append, Bool.false_eq_true, ↓reduceIte]
    rfl
  | true =>
    simp only [rpcBytes, wordBytes, rpcWords, List.flatMap_cons, List.flatMap_nil, List.cons_append,
      List.append_assoc, List.append_nil, List.nil_append, ↓reduceIte]
    rfl

variable (codec fromPeer toPeer objectId methodIdx args) in
theorem afterFields_cut (h : fieldsLength isServer ≤ n) :
    (afterFields isServer
        ((rpcBytes codec isServer fromPeer toPeer objectId methodIdx args).take n)).valid = true ∧
      Ahead (afterFields isServer
          ((rpcBytes codec isServer fromPeer toPeer objectId methodIdx args).take n))
        ((rpcArgs codec args).take (n - fieldsLength isServer)) := by
  have h0 := Ahead.setup PackedByteStream.new
    ((rpcBytes codec isServer fromPeer toPeer objectId methodIdx args).take n)
  nth_rewrite 2 [rpcBytes_eq] at h0
  have hsum : (wordWidths (rpcWords isServer fromPeer toPeer objectId methodIdx args)).sum =
      fieldsLength isServer := by
    rw [wordWidths_rpcWords, sum_fieldWidths]
  obtain ⟨hskip, hahead⟩ := words_cut h0 (hsum.trans_le h)
  rw [hsum, wordWidths_rpcWords, ← afterFields_eq] at hahead
  rw [wordWidths_rpcWords, ← afterFields_eq] at hskip
  refine ⟨?_, hahead⟩
  rw [hskip]
  rfl

theorem readRpcArgs_none (hargs : args ≠ []) (hdense : ∀ bytes, args ≠ [.packedByteArray bytes])
    (h : ∀ elements, (readVariant codec s).1 ≠ .array elements) :
    readRpcArgs codec (rpcHeader args) s = (none, (readVariant codec s).2) := by
  have hpacking : ¬ rpcHeader args &&& 1 = 0 := fun h => hargs (rpcHeader_packing.1 h)
  have hraw : ¬ rpcHeader args &&& 2 ≠ 0 := by
    rw [rpcHeader_dense hargs]
    rintro ⟨bytes, heq⟩
    exact hdense bytes heq
  rw [readRpcArgs, Int.toNat_natCast, if_neg hpacking, if_neg hraw]
  rcases hread : readVariant codec s with ⟨v, after⟩
  rw [hread] at h
  cases v with
  | array elements => exact absurd rfl (h elements)
  | _ => rfl

theorem rpcArgs_eq (codec : VariantCodec) (hargs : args ≠ [])
    (hdense : ∀ bytes, args ≠ [.packedByteArray bytes]) :
    rpcArgs codec args = codec.varToBytes (.array args) := by
  unfold rpcArgs
  split
  · exact absurd rfl hargs
  · next bytes => exact absurd rfl (hdense bytes)
  · rfl

theorem readRpcArgs_cut (hrejects : codec.RejectsPrefixes (.array args)) (hargs : args ≠ [])
    (hdense : ∀ bytes, args ≠ [.packedByteArray bytes]) (hle : fieldsLength isServer ≤ n)
    (hn : n < (rpcBytes codec isServer fromPeer toPeer objectId methodIdx args).length) :
    let stream := afterFields isServer
      ((rpcBytes codec isServer fromPeer toPeer objectId methodIdx args).take n)
    readRpcArgs codec (rpcHeader args) stream = (none, stream) ∧ stream.valid = true := by
  intro stream
  have hbytes := rpcArgs_eq codec hargs hdense
  obtain ⟨hvalid, hahead⟩ := afterFields_cut codec args fromPeer toPeer objectId methodIdx hle
  rw [hbytes, ← List.append_nil (codec.varToBytes _)] at hahead
  rw [length_rpcBytes, hbytes] at hn
  have hmissing := variant_missing hahead (by omega) hrejects
  have hnull : ∀ elements, (readVariant codec stream).1 ≠ .array elements := by
    intro elements
    rw [hmissing]
    exact Variant.noConfusion
  refine ⟨?_, hvalid⟩
  rw [readRpcArgs_none hargs hdense hnull, hmissing]

/-- A packet is cut: the error is known exactly if the cut comes before the arguments. -/
theorem decodeRpc_cut (hrejects : codec.RejectsPrefixes (.array args))
    (hdense : ∀ bytes, args ≠ [.packedByteArray bytes]) (transport : Int)
    (hn : n < (rpcBytes codec isServer fromPeer toPeer objectId methodIdx args).length) :
    (decodeRpc codec isServer transport
      ((rpcBytes codec isServer fromPeer toPeer objectId methodIdx args).take n)).2.valid = false ↔
        n < fieldsLength isServer := by
  have hlength : ((rpcBytes codec isServer fromPeer toPeer objectId methodIdx args).take n).length =
      n := by
    rw [List.length_take]
    omega
  rw [decodeRpc_snd]
  by_cases hlt : n < fieldsLength isServer
  · have hshort : (afterFields isServer _).valid = false :=
      afterFields_short (hlength.trans_lt hlt)
    exact iff_of_true ((reads_args codec _ _).invalid hshort) hlt
  · have hpos : 0 < fieldsLength isServer := by
      rw [fieldsLength]
      omega
    have hargs : args ≠ [] := by
      intro hnil
      rw [length_rpcBytes, hnil] at hn
      exact hlt hn
    obtain ⟨hnone, hvalid⟩ := readRpcArgs_cut hrejects hargs hdense (Nat.le_of_not_lt hlt) hn
    rw [header_cut (by omega), hnone]
    exact iff_of_false (ne_false_of_eq_true hvalid) hlt

/-- The nodes that an update makes its receiver read. -/
def readNodes (added : List AddedNode) : List AddedNode := added.take (added.length % 2 ^ 32)

/-- The number of bytes that an update makes its receiver read. -/
def readLength (codec : VariantCodec) (added : List AddedNode) (removed : List Int) : Nat :=
  8 + (nodesBytes codec (readNodes added)).length + 4 * (removed.length % 2 ^ 32)

theorem readIds_valid (count : Nat) (s : PackedByteStream) (hin : s.c ≤ s.data.length) :
    (readIds count s).2.valid = (s.valid && decide (s.c + 4 * count ≤ s.data.length)) := by
  induction count generalizing s with
  | zero => simp [readIds, hin]
  | succ count ih =>
    have hfirst := reads_uword 4 s
    have hrest := ih (readUWord 4 s).2 (hfirst.data ▸ hfirst.inside hin)
    change (readIds count (readUWord 4 s).2).2.valid = _
    rw [hrest, hfirst.data, readUWord_snd]
    split
    · next h =>
      have hnot : ¬ s.c + 4 * (count + 1) ≤ s.data.length := by omega
      simp [hnot]
    · have hsum : s.c + 4 + 4 * count = s.c + 4 * (count + 1) := by omega
      rw [hsum]

theorem nodesBytes_append (nodes others : List AddedNode) :
    nodesBytes codec (nodes ++ others) = nodesBytes codec nodes ++ nodesBytes codec others :=
  List.flatMap_append

theorem InProperties.bounds (h : InProperties codec nodes m) :
    16 ≤ m ∧ m < (nodesBytes codec nodes).length := by
  obtain ⟨before, inner, after, hnodes, hle, hlt⟩ := h
  have hlength := inner.length_bytes codec
  rw [hnodes, nodesBytes_append, List.length_append, length_nodesBytes_cons]
  exact ⟨by omega, by omega⟩

variable {added : List AddedNode} {removed : List Int}

/-- What follows the counts of an update. -/
def decodeCounted (codec : VariantCodec) (addedCount removedCount : Nat)
    (stream : PackedByteStream) : Option (List AddedNode × List Int) × PackedByteStream :=
  match decodeAddedNodes codec addedCount stream with
  | .error stream => (none, stream)
  | .ok (added, stream) =>
    let (removed, stream) := readIds removedCount stream
    (if stream.valid then some (added, removed) else none, stream)

theorem decodeVisibility_eq (codec : VariantCodec) (data : List UInt8) :
    let first := readUWord 4 (PackedByteStream.new.setupRead data)
    let second := readUWord 4 first.2
    decodeVisibility codec data = decodeCounted codec first.1.toNat second.1.toNat second.2 := by
  simp only [decodeVisibility, readUnsigned_maxBytes]
  rfl

theorem decodeCounted_empty {count removedCount : Nat}
    (h : (decodeCounted codec count removedCount s).2.valid = false) :
    (decodeCounted codec count removedCount s).1 = none := by
  rw [decodeCounted] at h ⊢
  cases hread : decodeAddedNodes codec count s with
  | error after => rfl
  | ok added =>
    rw [hread] at h
    change (readIds removedCount added.2).2.valid = false at h
    change (if (readIds removedCount added.2).2.valid then _ else _) = _
    rw [h]
    rfl

theorem reads_decodeCounted (codec : VariantCodec) (count removedCount : Nat)
    (s : PackedByteStream) : Reads (leaves (decodeAddedNodes codec count s))
      (decodeCounted codec count removedCount s).2 := by
  rw [decodeCounted]
  cases decodeAddedNodes codec count s with
  | error after => exact .refl after
  | ok added => exact reads_ids removedCount added.2

/-- How the reading of an update ends that is cut after n bytes: the error is known exactly if the
cut comes before the end of what is read and not inside of some properties. -/
def FlagsCut (codec : VariantCodec) (added : List AddedNode) (removed : List Int) (n : Nat)
    (stream : PackedByteStream) : Prop :=
  stream.valid = false ↔ n < readLength codec added removed ∧
    ¬ InProperties codec (readNodes added) (n - 8)

theorem le_readLength (codec : VariantCodec) (added : List AddedNode) (removed : List Int) :
    8 + (nodesBytes codec (readNodes added)).length ≤ readLength codec added removed :=
  Nat.le_add_right _ _

theorem flagsCut_of_counts (h : s.valid = false) (hn : n < 8) (count removedCount : Nat) :
    FlagsCut codec added removed n (decodeCounted codec count removedCount s).2 := by
  have hreads := (reads_decodeAddedNodes codec count s).trans
    (reads_decodeCounted codec count removedCount s)
  have hlength := le_readLength codec added removed
  apply iff_of_true (hreads.invalid h)
  refine ⟨by omega, fun hin => ?_⟩
  have hbounds := hin.bounds
  omega

theorem NodesCut.flagsCut (h : NodesCut codec (readNodes added) rest (n - 8) s) (hn : 8 ≤ n)
    (hdata : s.data.length = n)
    (hrest : n ≤ 8 + (nodesBytes codec (readNodes added)).length + rest.length) :
    FlagsCut codec added removed n
      (decodeCounted codec (readNodes added).length (removed.length % 2 ^ 32) s).2 := by
  have hlength := le_readLength codec added removed
  have hreads := reads_decodeAddedNodes codec (readNodes added).length s
  cases h with
  | read xs after decoded reached valid ahead =>
    rw [decoded] at hreads
    have hend : after.data.length = n := (congrArg List.length hreads.data).trans hdata
    have hahead := ahead.length
    rw [hend, List.length_take] at hahead
    have hvalid := readIds_valid (removed.length % 2 ^ 32) after (by omega)
    have hafter : after.c = 8 + (nodesBytes codec (readNodes added)).length := by omega
    rw [hend, valid, hafter, Bool.true_and] at hvalid
    have hshort : (readIds (removed.length % 2 ^ 32) after).2.valid = false ↔
        n < readLength codec added removed := by
      rw [hvalid, decide_eq_false_iff_not, Nat.not_le]
      rfl
    rw [FlagsCut, decodeCounted, decoded]
    refine hshort.trans (and_iff_left fun hin => ?_).symm
    exact Nat.not_le.2 hin.bounds.2 reached
  | flagged cut outside invalid =>
    have hcounted := reads_decodeCounted codec (readNodes added).length (removed.length % 2 ^ 32) s
    exact iff_of_true (hcounted.invalid invalid) ⟨by omega, outside⟩
  | hidden after decoded inside valid =>
    rw [FlagsCut, decodeCounted, decoded]
    exact iff_of_false (ne_false_of_eq_true valid) fun hcut => hcut.2 inside

theorem visibilityBytes_eq (codec : VariantCodec) (added : List AddedNode) (removed : List Int) :
    visibilityBytes codec added removed =
      Bytes.encode 4 (Bytes.residue 4 added.length) ++
        (Bytes.encode 4 (Bytes.residue 4 removed.length) ++
          (nodesBytes codec (readNodes added) ++
            (nodesBytes codec (added.drop (added.length % 2 ^ 32)) ++ idBytes removed))) := by
  rw [visibilityBytes, ← List.append_assoc (nodesBytes codec (readNodes added)),
    ← nodesBytes_append, readNodes, List.take_append_drop]
  rfl

theorem length_readNodes (added : List AddedNode) :
    (readNodes added).length = added.length % 2 ^ 32 := by
  rw [readNodes, List.length_take]
  exact Nat.min_eq_left (Nat.mod_le _ _)

theorem decodeVisibility_cut (hadded : ∀ node ∈ added, Encodable codec node)
    (hn : n < (visibilityBytes codec added removed).length) :
    FlagsCut codec added removed n
      (decodeVisibility codec ((visibilityBytes codec added removed).take n)).2 := by
  have hnodes : ∀ node ∈ readNodes added, Encodable codec node :=
    fun node hmem => hadded node (List.mem_of_mem_take hmem)
  have hdata : ((visibilityBytes codec added removed).take n).length = n := by
    rw [List.length_take]
    omega
  rw [decodeVisibility_eq]
  have h0 := Ahead.setup PackedByteStream.new ((visibilityBytes codec added removed).take n)
  nth_rewrite 2 [visibilityBytes_eq] at h0
  rw [visibilityBytes_eq] at hn
  simp only [List.length_append, Bytes.encode_length] at hn
  by_cases hfirst : 4 ≤ n
  · obtain ⟨h1, e1, _⟩ := word_cut h0 hfirst
    rw [e1, residue_count, ← length_readNodes]
    by_cases hsecond : 4 ≤ n - 4
    · obtain ⟨h2, e2, _⟩ := word_cut h1 hsecond
      rw [e2, residue_count]
      have hsub : n - 4 - 4 = n - 8 := by omega
      rw [hsub] at h2
      apply (decodeAddedNodes_cut hnodes h2 rfl).flagsCut (by omega) hdata
      rw [List.length_append]
      omega
    · have hmissing := word_missing h1 (Nat.lt_of_not_le hsecond)
      exact flagsCut_of_counts (word_invalid hmissing) (by omega) _ _
  · have hmissing := word_missing h0 (Nat.lt_of_not_le hfirst)
    have hinvalid := (reads_uword 4 _).invalid (word_invalid hmissing)
    exact flagsCut_of_counts hinvalid (by omega) _ _

theorem rejects_iff {data : List UInt8} {result : Option α × PackedByteStream}
    (hreads : Reads (PackedByteStream.new.setupRead data) result.2)
    (hempty : result.2.valid = false → result.1 = none) :
    Rejects data result ↔ result.2.valid = false := by
  have hinside : result.2.c ≤ data.length := hreads.inside (Nat.zero_le _)
  exact ⟨fun h => h.flagged, fun h => ⟨h, ⟨hreads.data, hinside⟩, hempty h⟩⟩

/-- What is cut off from a packet or an update is read without going past its end, and rejected
unless the cut comes inside of a variant: the arguments of a packet, or the properties of a node. -/
theorem truncated_packets_iff (codec : VariantCodec) :
    (∀ (isServer : Bool) (fromPeer toPeer objectId methodIdx transport : Int)
      (args : List Variant) (n : Nat),
      codec.RejectsPrefixes (.array args) → (∀ bytes, args ≠ [.packedByteArray bytes]) →
      n < (compressRpc codec isServer fromPeer toPeer objectId methodIdx args).length →
      let data := (compressRpc codec isServer fromPeer toPeer objectId methodIdx args).take n
      (Rejects data (decodeRpc codec isServer transport data) ↔ n < fieldsLength isServer)) ∧
    ∀ (added : List AddedNode) (removed : List Int) (n : Nat),
      (∀ node ∈ added, Encodable codec node) →
      n < (compressVisibilityData codec added removed).length →
      let data := (compressVisibilityData codec added removed).take n
      (Rejects data (decodeVisibility codec data) ↔ n < readLength codec added removed ∧
        ¬ InProperties codec (readNodes added) (n - 8)) := by
  constructor
  · intro isServer fromPeer toPeer objectId methodIdx transport args n hrejects hdense hn data
    have hbytes : compressRpc codec isServer fromPeer toPeer objectId methodIdx args =
        rpcBytes codec isServer fromPeer toPeer objectId methodIdx args := by
      apply compressRpc_of_ne_nil
      intro hnil
      rw [hnil] at hn
      exact absurd hn (Nat.not_lt_zero _)
    have hcut := decodeRpc_cut hrejects hdense transport (hbytes ▸ hn)
    rw [← hbytes] at hcut
    exact (rejects_iff (reads_decodeRpc codec isServer transport data) decodeRpc_empty).trans hcut
  · intro added removed n hadded hn data
    have hbytes := compressVisibilityData_eq codec added removed
    have hcut := decodeVisibility_cut hadded (hbytes ▸ hn)
    rw [← hbytes] at hcut
    have hempty : (decodeVisibility codec data).2.valid = false →
        (decodeVisibility codec data).1 = none := by
      rw [decodeVisibility_eq]
      exact decodeCounted_empty
    exact (rejects_iff (reads_decodeVisibility codec data) hempty).trans hcut

/-- The size of an array of small integers or of an empty dictionary, if it is complete. -/
def containerSize (data : List UInt8) : Nat :=
  let size := if Bytes.decode (data.take 4) = 27 then 8
    else 8 + 8 * Bytes.decode ((data.drop 4).take 4)
  if data.length < 8 ∨ data.length < size then 0 else size

def containerValue (data : List UInt8) : Variant :=
  if containerSize data = 0 then .null
  else if Bytes.decode (data.take 4) = 27 then .dictionary [] []
  else intArrayCodec.decodeVar data 0

/-- The engine's serializer, as far as it is about these. -/
def containerCodec : VariantCodec where
  varToBytes
    | .dictionary _ _ => Bytes.encode 4 27 ++ Bytes.encode 4 0
    | v => intArrayCodec.varToBytes v
  decodeVarSize data c := containerSize (data.drop c)
  decodeVar data c := containerValue (data.drop c)

theorem containerCodec_rejects {v : Variant}
    (h : ∀ n, n < (containerCodec.varToBytes v).length →
      containerSize ((containerCodec.varToBytes v).take n) = 0) :
    containerCodec.RejectsPrefixes v := by
  intro pre n hn
  have hsize := h n hn
  have hdrop : (pre ++ (containerCodec.varToBytes v).take n).drop pre.length =
      (containerCodec.varToBytes v).take n := List.drop_left
  change containerSize (List.drop _ _) = 0 ∧ containerValue (List.drop _ _) = .null
  rw [hdrop]
  exact ⟨hsize, if_pos hsize⟩

theorem containerCodec_encodable {node : AddedNode} (hkeys : node.propertyKeys = [])
    (hvalues : node.propertyValues = []) (hcount : node.nodeIds.length < 2 ^ 32) :
    Encodable containerCodec node := by
  have hproperties : node.properties = .dictionary [] [] := by
    rw [AddedNode.properties, hkeys, hvalues]
  refine ⟨?_, ?_, hcount⟩
  · rw [hproperties]
    intro pre post
    have hdrop : (pre ++ containerCodec.varToBytes (.dictionary [] []) ++ post).drop pre.length =
        containerCodec.varToBytes (.dictionary [] []) ++ post := by
      rw [List.append_assoc]
      exact List.drop_left
    have hsize : containerSize (containerCodec.varToBytes (.dictionary [] []) ++ post) = 8 := by
      have hlength : ¬ (containerCodec.varToBytes (.dictionary [] []) ++ post).length < 8 := by
        rw [List.length_append]
        exact Nat.not_lt.2 (Nat.le_add_right 8 _)
      exact @if_neg _ _ (fun h => hlength (or_self_iff.1 h)) Nat 0 8
    change containerSize (List.drop _ _) = 8 ∧ containerValue (List.drop _ _) = _
    rw [hdrop, containerValue, hsize]
    exact ⟨rfl, rfl⟩
  · rw [hproperties]
    exact containerCodec_rejects (by decide)

/-- A scene with two ids and no synced properties. -/
def cutScene : AddedNode := ⟨1, 1, -42, [], [], [2, 3], true⟩

/-- A packet with one argument and an update with one scene, cut short. -/
theorem truncated_packets_sample :
    let packet := (compressRpc containerCodec true 1 9 7 3 [.int 5]).take 5
    let update := (compressVisibilityData containerCodec [cutScene] [5]).take 40
    (Rejects packet (decodeRpc containerCodec true 1 packet) ↔ 5 < fieldsLength true) ∧
      (Rejects update (decodeVisibility containerCodec update) ↔
        40 < readLength containerCodec [cutScene] [5] ∧
          ¬ InProperties containerCodec (readNodes [cutScene]) (40 - 8)) := by
  obtain ⟨hrpc, hvisibility⟩ := truncated_packets_iff containerCodec
  refine ⟨hrpc true 1 9 7 3 1 [.int 5] 5 (containerCodec_rejects (by decide)) ?_ (by decide),
    hvisibility [cutScene] [5] 40 ?_ (by decide)⟩
  · intro bytes heq
    cases heq
  · intro node hnode
    rw [List.mem_singleton.1 hnode]
    exact containerCodec_encodable rfl rfl (by decide)

/-- A packet that lacks its last byte is not found invalid. -/
theorem cut_argument_unflagged :
    ¬ ∀ (codec : VariantCodec) (args : List Variant) (n : Nat),
      codec.RejectsPrefixes (.array args) → (∀ bytes, args ≠ [.packedByteArray bytes]) →
      n < (compressRpc codec true 1 9 7 3 args).length →
        Rejects ((compressRpc codec true 1 9 7 3 args).take n)
          (decodeRpc codec true 1 ((compressRpc codec true 1 9 7 3 args).take n)) := by
  intro h
  have hrejects := h containerCodec [.int 5] 29
    (containerCodec_rejects (by decide)) (fun bytes heq => by cases heq) (by decide)
  have hvalid : (decodeRpc containerCodec true 1
      ((compressRpc containerCodec true 1 9 7 3 [.int 5]).take 29)).2.valid = true := by
    decide +kernel
  exact Bool.noConfusion (hvalid.symm.trans hrejects.flagged)

end Godaemon
