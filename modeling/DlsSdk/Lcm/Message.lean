import DlsSdk.Lcm.Coretypes
import DlsSdk.LcmNet.Device

/-!
# `Lcm.Message` — the generated codec of `exlcm_lcm_jyt_t`

The functions of `exlcm_lcm_jyt_t.c` between a message and its bytes. `wire` is the format: the hash, the three
strings, the time, the two states, the number of extension bytes, and these bytes.

* `writes_encode` — what `exlcm_lcm_jyt_t_encode` writes is the format, and `length_wire` that
  `exlcm_lcm_jyt_t_encoded_size` is its length;
* `jytParse_eq_done` — what `exlcm_lcm_jyt_t_decode` accepts is the format, and no more;
* `jytParse_eq_undefined` — and where it leaves what C defines: at a negative length.
-/

namespace DlsSdk

open ByteBuffer ByteString

/-! ## The hash -/

/-- `__exlcm_lcm_jyt_t_hash_recursive`; the hashes of the field types are 0. -/
def jytHashRecursive : UInt64 :=
  let hash : UInt64 := 0xedfed426d1c2dd69 + 0 + 0 + 0 + 0 + 0 + 0 + 0 + 0 + 0
  (hash <<< 1) + ((hash >>> 63) &&& 1)

/-- `__exlcm_lcm_jyt_t_get_hash` -/
def jytGetHash : Int64 := jytHashRecursive.toInt64

/-! ## Encoding -/

/-- The nine calls of `__exlcm_lcm_jyt_t_encode_array` for one element. -/
def ExlcmLcmJyt.encodeFields (p : ExlcmLcmJyt) : List Writer :=
  [stringEncodeArray [p.srcAddr], stringEncodeArray [p.reqAddr], stringEncodeArray [p.repAddr],
    int32EncodeArray [p.timeSs], int8EncodeArray [p.timeMs.toUInt8] 1,
    int8EncodeArray [p.reqState.toUInt8] 1, int8EncodeArray [p.repState.toUInt8] 1,
    int8EncodeArray [p.numExts.toUInt8] 1, int8EncodeArray (p.exts.map Int8.toUInt8) p.numExts.toInt]

/-- `__exlcm_lcm_jyt_t_encode_array` -/
def jytEncodeArray (p : List ExlcmLcmJyt) : Writer := .all (p.flatMap ExlcmLcmJyt.encodeFields)

/-- `exlcm_lcm_jyt_t_encode` -/
def jytEncode (p : ExlcmLcmJyt) : Writer := .all [int64EncodeArray [jytGetHash], jytEncodeArray [p]]

/-- `__exlcm_lcm_jyt_t_encoded_array_size` -/
def jytEncodedArraySize (p : List ExlcmLcmJyt) : Int :=
  p.foldl (fun size p => size + stringEncodedArraySize [p.srcAddr] + stringEncodedArraySize [p.reqAddr]
    + stringEncodedArraySize [p.repAddr] + int32EncodedArraySize [p.timeSs] + int8EncodedArraySize 1
    + int8EncodedArraySize 1 + int8EncodedArraySize 1 + int8EncodedArraySize 1
    + int8EncodedArraySize p.numExts.toInt) 0

/-- `exlcm_lcm_jyt_t_encoded_size` -/
def jytEncodedSize (p : ExlcmLcmJyt) : Int := 8 + jytEncodedArraySize [p]

/-! ## Decoding -/

/-- A message as it is decoded. A string is the block of memory that its pointer is at; whether a NUL is in
    it nobody has looked. -/
structure RawJyt where
  srcAddr : List UInt8
  reqAddr : List UInt8
  repAddr : List UInt8
  timeSs : Int32
  timeMs : Int8
  reqState : Int8
  repState : Int8
  numExts : Int8
  exts : List Int8
  deriving DecidableEq, Repr, Inhabited

/-- The nine calls of `__exlcm_lcm_jyt_t_decode_array` for one element. -/
def decodeFields : Reader RawJyt := do
  let srcAddr ← scalar (stringDecodeArray 1)
  let reqAddr ← scalar (stringDecodeArray 1)
  let repAddr ← scalar (stringDecodeArray 1)
  let timeSs ← scalar (int32DecodeArray 1)
  let timeMs ← scalar (int8DecodeArray 1)
  let reqState ← scalar (int8DecodeArray 1)
  let repState ← scalar (int8DecodeArray 1)
  let numExts ← scalar (int8DecodeArray 1)
  let exts ← int8DecodeArray numExts.toInt8.toInt
  pure ⟨srcAddr, reqAddr, repAddr, timeSs, timeMs.toInt8, reqState.toInt8, repState.toInt8,
    numExts.toInt8, exts.map UInt8.toInt8⟩

/-- `__exlcm_lcm_jyt_t_decode_array` -/
def jytDecodeArray : Nat → Reader (List RawJyt)
  | 0 => pure []
  | elements + 1 => do
      let p ← decodeFields
      let ps ← jytDecodeArray elements
      pure (p :: ps)

/-- `exlcm_lcm_jyt_t_decode` -/
def jytDecode : Reader RawJyt := do
  let thisHash ← scalar (int64DecodeArray 1)
  if thisHash ≠ jytGetHash then stop (-1) else scalar (jytDecodeArray 1)

/-! ## The format -/

/-- The bytes of a message. -/
def RawJyt.body (p : RawJyt) : List UInt8 :=
  wireBlock p.srcAddr ++ (wireBlock p.reqAddr ++ (wireBlock p.repAddr ++ (int32Bytes p.timeSs.toUInt32 ++
    (p.timeMs.toUInt8 :: p.reqState.toUInt8 :: p.repState.toUInt8 :: p.numExts.toUInt8 ::
      p.exts.map Int8.toUInt8))))

def RawJyt.wire (p : RawJyt) : List UInt8 := int64Bytes jytGetHash.toUInt64 ++ p.body

/-- The lengths are those that the format can give. -/
structure RawJyt.Proper (p : RawJyt) : Prop where
  src : p.srcAddr.length < 2147483648
  req : p.reqAddr.length < 2147483648
  rep : p.repAddr.length < 2147483648
  exts : (p.exts.length : Int) = p.numExts.toInt

instance (p : RawJyt) : Decidable p.Proper :=
  decidable_of_iff (p.srcAddr.length < 2147483648 ∧ p.reqAddr.length < 2147483648 ∧
      p.repAddr.length < 2147483648 ∧ (p.exts.length : Int) = p.numExts.toInt)
    ⟨fun h => ⟨h.1, h.2.1, h.2.2.1, h.2.2.2⟩, fun h => ⟨h.src, h.req, h.rep, h.exts⟩⟩

/-- A message in memory. -/
def ExlcmLcmJyt.raw (m : ExlcmLcmJyt) : RawJyt where
  srcAddr := terminated m.srcAddr
  reqAddr := terminated m.reqAddr
  repAddr := terminated m.repAddr
  timeSs := m.timeSs
  timeMs := m.timeMs
  reqState := m.reqState
  repState := m.repState
  numExts := m.numExts
  exts := m.exts

def ExlcmLcmJyt.wire (m : ExlcmLcmJyt) : List UInt8 := m.raw.wire

/-- A message that can be sent: the strings are C strings, `num_exts` is the length of `exts`, and an `int`
    can count the bytes. -/
structure Sendable (m : ExlcmLcmJyt) : Prop where
  src : CString m.srcAddr
  req : CString m.reqAddr
  rep : CString m.repAddr
  exts : (m.exts.length : Int) = m.numExts.toInt
  size : m.wire.length < 2147483648

instance (m : ExlcmLcmJyt) : Decidable (Sendable m) :=
  decidable_of_iff (CString m.srcAddr ∧ CString m.reqAddr ∧ CString m.repAddr ∧
      (m.exts.length : Int) = m.numExts.toInt ∧ m.wire.length < 2147483648)
    ⟨fun h => ⟨h.1, h.2.1, h.2.2.1, h.2.2.2.1, h.2.2.2.2⟩,
      fun h => ⟨h.src, h.req, h.rep, h.exts, h.size⟩⟩

variable {m : ExlcmLcmJyt} {p : RawJyt}

theorem length_terminated (s : String) : (terminated s).length = (bytes s).length + 1 :=
  List.length_append

theorem RawJyt.length_wire (p : RawJyt) : p.wire.length =
    28 + p.srcAddr.length + p.reqAddr.length + p.repAddr.length + p.exts.length := by
  simp only [RawJyt.wire, RawJyt.body, List.length_append, length_int64Bytes, length_wireBlock,
    length_int32Bytes, List.length_cons, List.length_map]
  omega

theorem length_wire (m : ExlcmLcmJyt) : m.wire.length = 31 + (bytes m.srcAddr).length +
    (bytes m.reqAddr).length + (bytes m.repAddr).length + m.exts.length := by
  rw [ExlcmLcmJyt.wire, RawJyt.length_wire]
  simp only [ExlcmLcmJyt.raw, length_terminated]
  omega

theorem Sendable.sized (hm : Sendable m) :
    Sized m.srcAddr ∧ Sized m.reqAddr ∧ Sized m.repAddr := by
  have hsize := hm.size
  rw [length_wire] at hsize
  exact ⟨⟨hm.src, by omega⟩, ⟨hm.req, by omega⟩, ⟨hm.rep, by omega⟩⟩

theorem Sendable.proper (hm : Sendable m) : m.raw.Proper := by
  obtain ⟨hsrc, hreq, hrep⟩ := hm.sized
  have hlen : ∀ {s}, Sized s → (terminated s).length < 2147483648 := fun hs => by
    rw [length_terminated]
    exact hs.short
  exact ⟨hlen hsrc, hlen hreq, hlen hrep, hm.exts⟩

/-- `exlcm_lcm_jyt_t_encoded_size` is the length of the format. -/
theorem encodedSize_eq (hm : Sendable m) : jytEncodedSize m = m.wire.length := by
  have hexts := hm.exts
  rw [length_wire]
  simp only [jytEncodedSize, jytEncodedArraySize, stringEncodedArraySize, List.foldl_cons, List.foldl_nil,
    int32EncodedArraySize, int8EncodedArraySize, strlen_eq hm.src, strlen_eq hm.req, strlen_eq hm.rep,
    List.length_singleton]
  omega

/-! ## What is written -/

/-- One byte. -/
theorem writes_byte (b : UInt8) : Writes (int8EncodeArray [b] 1) [b] :=
  writes_int8 (p := [b]) (n := 1) (Nat.le_refl _)

theorem writes_fields (hm : Sendable m) : Writes (.all m.encodeFields) m.raw.body := by
  obtain ⟨hsrc, hreq, hrep⟩ := hm.sized
  have hexts := writes_int8 (p := m.exts.map Int8.toUInt8) (n := m.exts.length)
    (by rw [List.length_map])
  rw [hm.exts, List.take_of_length_le (by rw [List.length_map])] at hexts
  have hall := Writes.all (.cons (writes_string hsrc) (.cons (writes_string hreq)
    (.cons (writes_string hrep) (.cons (writes_int32 [m.timeSs]) (.cons (writes_byte m.timeMs.toUInt8)
      (.cons (writes_byte m.reqState.toUInt8) (.cons (writes_byte m.repState.toUInt8)
        (.cons (writes_byte m.numExts.toUInt8) (.cons hexts .nil)))))))))
  simp only [List.flatten_cons, List.flatten_nil, List.append_nil, List.flatMap_singleton,
    List.singleton_append] at hall
  exact hall

/-- **What is written is the format.** -/
theorem writes_encode (hm : Sendable m) : Writes (jytEncode m) m.wire := by
  have hfields := writes_fields hm
  have hhash := writes_int64 [jytGetHash]
  have harray : jytEncodeArray [m] = .all m.encodeFields := by
    rw [jytEncodeArray, List.flatMap_singleton]
  rw [← harray] at hfields
  rw [List.flatMap_singleton] at hhash
  have hall := Writes.all (.cons hhash (.cons hfields .nil))
  rw [List.flatten_cons, List.flatten_cons, List.flatten_nil, List.append_nil] at hall
  exact hall

/-! ## What is read -/

def fieldsParse : Parser RawJyt := do
  let srcAddr ← blockParse
  let reqAddr ← blockParse
  let repAddr ← blockParse
  let timeSs ← scalarParse (int32Parse 1)
  let timeMs ← scalarParse (int8Parse 1)
  let reqState ← scalarParse (int8Parse 1)
  let repState ← scalarParse (int8Parse 1)
  let numExts ← scalarParse (int8Parse 1)
  let exts ← int8Parse numExts.toInt8.toInt
  pure ⟨srcAddr, reqAddr, repAddr, timeSs, timeMs.toInt8, reqState.toInt8, repState.toInt8,
    numExts.toInt8, exts.map UInt8.toInt8⟩

def jytParse : Parser RawJyt := do
  let thisHash ← scalarParse (int64Parse 1)
  if thisHash ≠ jytGetHash then refuse (-1) else fieldsParse

/-- A string that is no array. -/
theorem reads_block : Reads (scalar (stringDecodeArray 1)) blockParse := by
  have hone : blockParse = scalarParse (stringParse 1) := by
    simp [scalarParse, stringParse]
  rw [hone]
  exact reads_scalar (reads_string 1)

theorem reads_byte : Reads (scalar (int8DecodeArray 1)) (scalarParse (int8Parse 1)) :=
  reads_scalar (reads_int8 1)

theorem reads_fields : Reads decodeFields fieldsParse :=
  reads_block.bind fun _ => reads_block.bind fun _ => reads_block.bind fun _ =>
    (reads_scalar (reads_int32 1)).bind fun _ => reads_byte.bind fun _ => reads_byte.bind fun _ =>
      reads_byte.bind fun _ => reads_byte.bind fun _ => (reads_int8 _).bind fun _ => .pure _

theorem reads_decode : Reads jytDecode jytParse := by
  have hone : fieldsParse = scalarParse (fieldsParse >>= fun p => pure [p]) := by
    simp [scalarParse]
  refine (reads_scalar (reads_int64 1)).bind fun thisHash => ?_
  by_cases hhash : thisHash ≠ jytGetHash
  · rw [if_pos hhash, if_pos hhash]
    exact .refuse (-1)
  · rw [if_neg hhash, if_neg hhash, hone]
    exact reads_scalar (reads_fields.bind fun p => .pure [p])

theorem steady_byte : Steady (scalarParse (int8Parse 1)) := steady_scalar (steady_int8 1)

theorem steady_fields : Steady fieldsParse :=
  steady_block.bind fun _ => steady_block.bind fun _ => steady_block.bind fun _ =>
    (steady_scalar (steady_int32 1)).bind fun _ => steady_byte.bind fun _ => steady_byte.bind fun _ =>
      steady_byte.bind fun _ => steady_byte.bind fun _ => (steady_int8 _).bind fun _ => .pure _

theorem steady_jyt : Steady jytParse := by
  refine (steady_scalar (steady_int64 1)).bind fun thisHash => ?_
  by_cases hhash : thisHash ≠ jytGetHash
  · rw [if_pos hhash]
    exact .refuse
  · rw [if_neg hhash]
    exact steady_fields

/-! ## What is accepted -/

theorem fieldsParse_eq_done {room rest : List UInt8} :
    fieldsParse.run room = .done (p, rest) ↔ room = p.body ++ rest ∧ p.Proper := by
  unfold fieldsParse
  simp only [StateT.run_bind, Outcome.bind_eq_done, Prod.exists, blockParse_eq_done,
    int32Parse_eq_done, byteParse_eq_done, int8Parse_eq_done, StateT.run_pure, Outcome.pure_eq,
    Outcome.done.injEq, Prod.mk.injEq]
  constructor
  · rintro ⟨src, _, ⟨rfl, hsrc⟩, req, _, ⟨rfl, hreq⟩, rep, _, ⟨rfl, hrep⟩, timeSs, _, rfl, timeMs, _, rfl,
      reqState, _, rfl, repState, _, rfl, numExts, _, rfl, exts, _, ⟨rfl, hexts⟩, rfl, rfl⟩
    have hback : (exts.map UInt8.toInt8).map Int8.toUInt8 = exts := by
      rw [List.map_map]
      exact List.map_id'' UInt8.toUInt8_toInt8 exts
    refine ⟨?_, hsrc, hreq, hrep, by rw [List.length_map]; exact hexts⟩
    simp only [RawJyt.body, hback, UInt8.toUInt8_toInt8, List.append_assoc, List.cons_append]
  · rintro ⟨rfl, hp⟩
    have hback : (p.exts.map Int8.toUInt8).map UInt8.toInt8 = p.exts := by
      rw [List.map_map]
      exact List.map_id'' Int8.toInt8_toUInt8 p.exts
    refine ⟨p.srcAddr, _, ⟨?_, hp.src⟩, p.reqAddr, _, ⟨rfl, hp.req⟩, p.repAddr, _, ⟨rfl, hp.rep⟩,
      p.timeSs, _, rfl, p.timeMs.toUInt8, _, rfl, p.reqState.toUInt8, _, rfl, p.repState.toUInt8, _, rfl,
      p.numExts.toUInt8, p.exts.map Int8.toUInt8 ++ rest, rfl, p.exts.map Int8.toUInt8, rest,
      ⟨rfl, ?_⟩, ?_, rfl⟩
    · simp only [RawJyt.body, List.append_assoc, List.cons_append]
    · rw [List.length_map, hp.exts, Int8.toInt8_toUInt8]
    · simp only [hback, Int8.toInt8_toUInt8]

/-- **What is accepted is the format.** -/
theorem jytParse_eq_done {room rest : List UInt8} :
    jytParse.run room = .done (p, rest) ↔ room = p.wire ++ rest ∧ p.Proper := by
  unfold jytParse
  rw [StateT.run_bind, Outcome.bind_eq_done]
  constructor
  · rintro ⟨⟨thisHash, mid⟩, hhash, h⟩
    by_cases hne : thisHash ≠ jytGetHash
    · rw [if_pos hne] at h
      exact absurd h (by simp)
    · rw [if_neg hne] at h
      obtain ⟨rfl, hp⟩ := fieldsParse_eq_done.mp h
      obtain rfl := not_not.mp hne
      exact ⟨by rw [int64Parse_eq_done.mp hhash, RawJyt.wire, List.append_assoc], hp⟩
  · rintro ⟨rfl, hp⟩
    refine ⟨(jytGetHash, p.body ++ rest), int64Parse_eq_done.mpr ?_, ?_⟩
    · rw [RawJyt.wire, List.append_assoc]
    · rw [if_neg (by simp)]
      exact fieldsParse_eq_done.mpr ⟨rfl, hp⟩

/-! ## What is not defined -/

/-- The fields up to a negative length: that of one of the three strings, or `num_exts`. -/
inductive NegativeLength : List UInt8 → Prop where
  | string (blocks : List (List UInt8)) (length : Int32) (rest : List UInt8) (hb : blocks.length < 3)
      (hs : ∀ b ∈ blocks, b.length < 2147483648) (hneg : length.toInt < 0) :
      NegativeLength (blocks.flatMap wireBlock ++ (int32Bytes length.toUInt32 ++ rest))
  | exts (p : RawJyt) (rest : List UInt8) (hsrc : p.srcAddr.length < 2147483648)
      (hreq : p.reqAddr.length < 2147483648) (hrep : p.repAddr.length < 2147483648)
      (hno : p.exts = []) (hneg : p.numExts.toInt < 0) : NegativeLength (p.body ++ rest)

theorem fieldsParse_eq_undefined {room : List UInt8} :
    fieldsParse.run room = .undefined ↔ NegativeLength room := by
  unfold fieldsParse
  simp only [StateT.run_bind, Outcome.bind_eq_undefined, Prod.exists, blockParse_eq_undefined,
    blockParse_eq_done, int32Parse_ne_undefined, int32Parse_eq_done, byteParse_ne_undefined,
    byteParse_eq_done, int8Parse_eq_undefined, StateT.run_pure, Outcome.pure_eq, reduceCtorEq, and_false,
    exists_false, or_false, false_or]
  constructor
  · rintro (⟨n, rest, hneg, rfl⟩ | ⟨src, _, ⟨rfl, hsrc⟩, ⟨n, rest, hneg, rfl⟩ | ⟨req, _, ⟨rfl, hreq⟩,
      ⟨n, rest, hneg, rfl⟩ | ⟨rep, _, ⟨rfl, hrep⟩, timeSs, _, rfl, timeMs, _, rfl, reqState, _, rfl,
        repState, _, rfl, numExts, rest, rfl, hneg⟩⟩⟩)
    · exact .string [] n rest (by simp) (by simp) hneg
    · have h := NegativeLength.string [src] n rest (by simp) (by simpa using hsrc) hneg
      rwa [List.flatMap_singleton] at h
    · have h := NegativeLength.string [src, req] n rest (by simp) (by simpa using ⟨hsrc, hreq⟩) hneg
      rwa [List.flatMap_cons, List.flatMap_singleton, List.append_assoc] at h
    · have h := NegativeLength.exts ⟨src, req, rep, timeSs, timeMs.toInt8, reqState.toInt8,
        repState.toInt8, numExts.toInt8, []⟩ rest hsrc hreq hrep rfl hneg
      simp only [RawJyt.body, UInt8.toUInt8_toInt8, List.map_nil, List.append_assoc, List.cons_append,
        List.nil_append] at h
      exact h
  · rintro (⟨blocks, n, rest, hb, hs, hneg⟩ | ⟨p, rest, hsrc, hreq, hrep, hno, hneg⟩)
    · match blocks, hb, hs with
      | [], _, _ => exact .inl ⟨n, rest, hneg, rfl⟩
      | [src], _, hs =>
          refine .inr ⟨src, _, ⟨?_, hs src (by simp)⟩, .inl ⟨n, rest, hneg, rfl⟩⟩
          rw [List.flatMap_singleton]
      | [src, req], _, hs =>
          refine .inr ⟨src, _, ⟨?_, hs src (by simp)⟩, .inr ⟨req, _, ⟨rfl, hs req (by simp)⟩,
            .inl ⟨n, rest, hneg, rfl⟩⟩⟩
          rw [List.flatMap_cons, List.flatMap_singleton, List.append_assoc]
      | _ :: _ :: _ :: _, hb, _ => exact absurd hb (by simp only [List.length_cons]; omega)
    · refine .inr ⟨p.srcAddr, _, ⟨?_, hsrc⟩, .inr ⟨p.reqAddr, _, ⟨rfl, hreq⟩, .inr ⟨p.repAddr, _,
        ⟨rfl, hrep⟩, p.timeSs, _, rfl, p.timeMs.toUInt8, _, rfl, p.reqState.toUInt8, _, rfl,
        p.repState.toUInt8, _, rfl, p.numExts.toUInt8, rest, rfl, ?_⟩⟩⟩
      · simp only [RawJyt.body, hno, List.map_nil, List.append_assoc, List.cons_append, List.nil_append]
      · rw [Int8.toInt8_toUInt8]
        exact hneg

/-- **Where decoding leaves what C defines**: behind the right hash, at a negative length. -/
theorem jytParse_eq_undefined {room : List UInt8} : jytParse.run room = .undefined ↔
    ∃ fields, room = int64Bytes jytGetHash.toUInt64 ++ fields ∧ NegativeLength fields := by
  unfold jytParse
  rw [StateT.run_bind, Outcome.bind_eq_undefined]
  constructor
  · rintro (h | ⟨⟨thisHash, fields⟩, hhash, h⟩)
    · exact absurd h int64Parse_ne_undefined
    · by_cases hne : thisHash ≠ jytGetHash
      · rw [if_pos hne] at h
        exact absurd h (by simp)
      · rw [if_neg hne] at h
        obtain rfl := not_not.mp hne
        exact ⟨fields, int64Parse_eq_done.mp hhash, fieldsParse_eq_undefined.mp h⟩
  · rintro ⟨fields, rfl, hn⟩
    refine .inr ⟨(jytGetHash, fields), int64Parse_eq_done.mpr rfl, ?_⟩
    rw [if_neg (by simp)]
    exact fieldsParse_eq_undefined.mpr hn

end DlsSdk
