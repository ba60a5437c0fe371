import DlsSdk.Library.ByteBuffer
import DlsSdk.Library.ByteString

/-!
# `Lcm.Coretypes` — the primitive codecs of `lcm_coretypes.h`

The functions that the generated codec of `exlcm_lcm_jyt_t` calls. Integers are written most significant byte
first, a string as its length with the NUL and then its bytes with the NUL.

Lengths are `int` (unbounded here; the length of a string is an `int32_t` and wraps). The functions compare
the room with the length before they touch the buffer, and a negative length passes that test.
-/

namespace DlsSdk

open ByteBuffer ByteString

/-- `memcpy(&buf[offset], p, elements)`. The length is a `size_t`, so a negative one is larger than any
    object. -/
def memcpyTo (buf : List UInt8) (offset : Int) (p : List UInt8) (elements : Int) : Option (List UInt8) :=
  if 0 ≤ elements ∧ elements ≤ p.length then store buf offset (p.take elements.toNat) else none

/-- `memcpy(p, &buf[offset], elements)` -/
def memcpyFrom (buf : List UInt8) (offset elements : Int) : Option (List UInt8) :=
  if 0 ≤ elements then load buf offset elements.toNat else none

/-! ## `int8_t` -/

/-- `__int8_t_encoded_array_size` -/
def int8EncodedArraySize (elements : Int) : Int := elements

/-- `__int8_t_encode_array` -/
def int8EncodeArray (p : List UInt8) (elements : Int) : Writer := fun buf offset maxlen =>
  if maxlen < elements then some (-1, buf)
  else (memcpyTo buf offset p elements).map fun buf => (elements, buf)

/-- `__int8_t_decode_array` -/
def int8DecodeArray (elements : Int) : Reader (List UInt8) := fun buf offset maxlen =>
  if maxlen < elements then .failed (-1)
  else match memcpyFrom buf offset elements with
    | some bs => .done (elements, bs)
    | none => .undefined

/-! ## `int32_t` -/

/-- The four assignments of the loop. -/
def int32Bytes (v : UInt32) : List UInt8 :=
  [((v >>> 24) &&& 0xff).toUInt8, ((v >>> 16) &&& 0xff).toUInt8, ((v >>> 8) &&& 0xff).toUInt8,
    (v &&& 0xff).toUInt8]

/-- The sum of the loop. -/
def int32OfBytes (b0 b1 b2 b3 : UInt8) : UInt32 :=
  (b0.toUInt32 <<< 24) + (b1.toUInt32 <<< 16) + (b2.toUInt32 <<< 8) + b3.toUInt32

/-- The elements in a row of bytes. -/
def int32Elements : List UInt8 → List Int32
  | b0 :: b1 :: b2 :: b3 :: bs => (int32OfBytes b0 b1 b2 b3).toInt32 :: int32Elements bs
  | _ => []

/-- `__int32_t_encoded_array_size` -/
def int32EncodedArraySize (p : List Int32) : Int := 4 * p.length

/-- `__int32_t_encode_array` -/
def int32EncodeArray (p : List Int32) : Writer := fun buf offset maxlen =>
  let totalSize : Int := 4 * p.length
  if maxlen < totalSize then some (-1, buf)
  else (store buf offset (p.flatMap fun v => int32Bytes v.toUInt32)).map fun buf => (totalSize, buf)

/-- `__int32_t_decode_array` -/
def int32DecodeArray (elements : Nat) : Reader (List Int32) := fun buf offset maxlen =>
  let totalSize : Int := 4 * elements
  if maxlen < totalSize then .failed (-1)
  else match load buf offset (4 * elements) with
    | some bs => .done (totalSize, int32Elements bs)
    | none => .undefined

/-! ## `int64_t` -/

/-- The eight assignments of the loop. -/
def int64Bytes (v : UInt64) : List UInt8 :=
  [((v >>> 56) &&& 0xff).toUInt8, ((v >>> 48) &&& 0xff).toUInt8, ((v >>> 40) &&& 0xff).toUInt8,
    ((v >>> 32) &&& 0xff).toUInt8, ((v >>> 24) &&& 0xff).toUInt8, ((v >>> 16) &&& 0xff).toUInt8,
    ((v >>> 8) &&& 0xff).toUInt8, (v &&& 0xff).toUInt8]

/-- `p[element] = (a << 32) + (b & 0xffffffff)` -/
def int64OfHalves (a b : UInt32) : UInt64 := (a.toUInt64 <<< 32) + (b.toUInt64 &&& 0xffffffff)

/-- The elements in a row of bytes. -/
def int64Elements : List UInt8 → List Int64
  | b0 :: b1 :: b2 :: b3 :: b4 :: b5 :: b6 :: b7 :: bs =>
      (int64OfHalves (int32OfBytes b0 b1 b2 b3) (int32OfBytes b4 b5 b6 b7)).toInt64 :: int64Elements bs
  | _ => []

/-- `__int64_t_encode_array` -/
def int64EncodeArray (p : List Int64) : Writer := fun buf offset maxlen =>
  let totalSize : Int := 8 * p.length
  if maxlen < totalSize then some (-1, buf)
  else (store buf offset (p.flatMap fun v => int64Bytes v.toUInt64)).map fun buf => (totalSize, buf)

/-- `__int64_t_decode_array` -/
def int64DecodeArray (elements : Nat) : Reader (List Int64) := fun buf offset maxlen =>
  let totalSize : Int := 8 * elements
  if maxlen < totalSize then .failed (-1)
  else match load buf offset (8 * elements) with
    | some bs => .done (totalSize, int64Elements bs)
    | none => .undefined

/-- A field that is no array is read as an array of one element. -/
def scalar {α : Type} [Inhabited α] (r : Reader (List α)) : Reader α := do
  let p ← r
  pure (p.headD default)

/-! ## Strings -/

/-- `strlen` of the C string that is at `c_str()`. -/
def strlen (s : String) : Nat := ((bytes s).takeWhile (· != 0)).length

/-- `int32_t length = strlen(p[element]) + 1` -/
def stringLength (s : String) : Int32 := Int32.ofNat (strlen s + 1)

/-- `__string_encoded_array_size` -/
def stringEncodedArraySize (p : List String) : Int :=
  p.foldl (fun size s => size + (4 + strlen s + 1)) 0

/-- `__string_encode_array` -/
def stringEncodeArray (p : List String) : Writer :=
  .all (p.flatMap fun s => [int32EncodeArray [stringLength s],
    int8EncodeArray (bytes s ++ [0]) (stringLength s).toInt])

/-- `__string_decode_array`: every string is a block of its own, of the length that is read. -/
def stringDecodeArray : Nat → Reader (List (List UInt8))
  | 0 => pure []
  | elements + 1 => do
      let length ← scalar (int32DecodeArray 1)
      let block ← int8DecodeArray length.toInt
      let blocks ← stringDecodeArray elements
      pure (block :: blocks)

/-! ## Words and bytes -/

@[simp] theorem length_int32Bytes (v : UInt32) : (int32Bytes v).length = 4 := rfl
@[simp] theorem length_int64Bytes (v : UInt64) : (int64Bytes v).length = 8 := rfl

theorem toNat_int32OfBytes (b0 b1 b2 b3 : UInt8) : (int32OfBytes b0 b1 b2 b3).toNat =
    b0.toNat * 16777216 + b1.toNat * 65536 + b2.toNat * 256 + b3.toNat := by
  have h0 := b0.toNat_lt
  have h1 := b1.toNat_lt
  have h2 := b2.toNat_lt
  have h3 := b3.toNat_lt
  simp only [int32OfBytes, UInt32.toNat_add, UInt32.toNat_shiftLeft, UInt8.toNat_toUInt32,
    Nat.shiftLeft_eq, UInt32.reduceToNat, Nat.reduceMod, Nat.reducePow]
  omega

theorem and_255 (n : Nat) : n &&& 255 = n % 256 := Nat.and_two_pow_sub_one_eq_mod n 8

/-- **A word is the sum of its bytes.** -/
theorem int32OfBytes_bytes (v : UInt32) :
    int32OfBytes ((v >>> 24) &&& 0xff).toUInt8 ((v >>> 16) &&& 0xff).toUInt8
      ((v >>> 8) &&& 0xff).toUInt8 (v &&& 0xff).toUInt8 = v := by
  have hv := v.toNat_lt
  apply UInt32.toNat_inj.mp
  rw [toNat_int32OfBytes]
  simp [UInt32.toNat_toUInt8, UInt32.toNat_shiftRight, Nat.shiftRight_eq_div_pow, and_255]
  omega

/-- The bytes of a sum are its terms. -/
theorem bytes_int32OfBytes (b0 b1 b2 b3 : UInt8) :
    int32Bytes (int32OfBytes b0 b1 b2 b3) = [b0, b1, b2, b3] := by
  have h0 := b0.toNat_lt
  have h1 := b1.toNat_lt
  have h2 := b2.toNat_lt
  have h3 := b3.toNat_lt
  have hsum := toNat_int32OfBytes b0 b1 b2 b3
  simp only [int32Bytes, List.cons.injEq, and_true, ← UInt8.toNat_inj]
  simp [UInt32.toNat_toUInt8, UInt32.toNat_shiftRight, Nat.shiftRight_eq_div_pow, and_255, hsum]
  omega

theorem toNat_int64OfHalves (a b : UInt32) :
    (int64OfHalves a b).toNat = a.toNat * 4294967296 + b.toNat := by
  have ha := a.toNat_lt
  have hb := b.toNat_lt
  have hmask : b.toNat &&& 4294967295 = b.toNat % 4294967296 := Nat.and_two_pow_sub_one_eq_mod b.toNat 32
  simp only [int64OfHalves, UInt64.toNat_add, UInt64.toNat_shiftLeft, UInt32.toNat_toUInt64,
    UInt64.toNat_and, Nat.shiftLeft_eq]
  simp [hmask]
  omega

/-- The upper and the lower half, as the bytes give them. -/
theorem int64OfHalves_bytes (v : UInt64) :
    int64OfHalves
      (int32OfBytes ((v >>> 56) &&& 0xff).toUInt8 ((v >>> 48) &&& 0xff).toUInt8
        ((v >>> 40) &&& 0xff).toUInt8 ((v >>> 32) &&& 0xff).toUInt8)
      (int32OfBytes ((v >>> 24) &&& 0xff).toUInt8 ((v >>> 16) &&& 0xff).toUInt8
        ((v >>> 8) &&& 0xff).toUInt8 (v &&& 0xff).toUInt8) = v := by
  have hv := v.toNat_lt
  apply UInt64.toNat_inj.mp
  rw [toNat_int64OfHalves, toNat_int32OfBytes, toNat_int32OfBytes]
  simp [UInt64.toNat_toUInt8, UInt64.toNat_shiftRight, Nat.shiftRight_eq_div_pow, and_255]
  omega

theorem bytes_int64OfHalves (b0 b1 b2 b3 b4 b5 b6 b7 : UInt8) :
    int64Bytes (int64OfHalves (int32OfBytes b0 b1 b2 b3) (int32OfBytes b4 b5 b6 b7)) =
      [b0, b1, b2, b3, b4, b5, b6, b7] := by
  have h0 := b0.toNat_lt
  have h1 := b1.toNat_lt
  have h2 := b2.toNat_lt
  have h3 := b3.toNat_lt
  have h4 := b4.toNat_lt
  have h5 := b5.toNat_lt
  have h6 := b6.toNat_lt
  have h7 := b7.toNat_lt
  have hsum := toNat_int64OfHalves (int32OfBytes b0 b1 b2 b3) (int32OfBytes b4 b5 b6 b7)
  rw [toNat_int32OfBytes, toNat_int32OfBytes] at hsum
  simp only [int64Bytes, List.cons.injEq, and_true, ← UInt8.toNat_inj]
  simp [UInt64.toNat_toUInt8, UInt64.toNat_shiftRight, Nat.shiftRight_eq_div_pow, and_255, hsum]
  omega

/-! ## What the functions write -/

theorem memcpyTo_eq {buf p : List UInt8} {offset : Int} {n : Nat} (h : n ≤ p.length) :
    memcpyTo buf offset p n = store buf offset (p.take n) := by
  rw [memcpyTo, if_pos (by omega), Int.toNat_natCast]

theorem writes_int8 {p : List UInt8} {n : Nat} (h : n ≤ p.length) :
    Writes (int8EncodeArray p n) (p.take n) := by
  have hlen : (p.take n).length = n := by rw [List.length_take, Nat.min_eq_left h]
  refine .of_store fun buf offset maxlen => ?_
  rw [int8EncodeArray, memcpyTo_eq h, hlen]

theorem length_flatMap_words {α : Type} {f : α → List UInt8} {n : Nat} (hf : ∀ v, (f v).length = n)
    (p : List α) : (p.flatMap f).length = n * p.length := by
  induction p with
  | nil => rfl
  | cons v p ih =>
      rw [List.flatMap_cons, List.length_append, hf, ih, List.length_cons, Nat.mul_succ, Nat.add_comm]

theorem writes_int32 (p : List Int32) :
    Writes (int32EncodeArray p) (p.flatMap fun v => int32Bytes v.toUInt32) := by
  refine .of_store fun buf offset maxlen => ?_
  rw [length_flatMap_words (n := 4) (fun _ => rfl)]
  rfl

theorem writes_int64 (p : List Int64) :
    Writes (int64EncodeArray p) (p.flatMap fun v => int64Bytes v.toUInt64) := by
  refine .of_store fun buf offset maxlen => ?_
  rw [length_flatMap_words (n := 8) (fun _ => rfl)]
  rfl

/-- A string on the wire: the length of its block, and the block. -/
def wireBlock (block : List UInt8) : List UInt8 := int32Bytes (.ofNat block.length) ++ block

@[simp] theorem length_wireBlock (block : List UInt8) : (wireBlock block).length = 4 + block.length := by
  rw [wireBlock, List.length_append, length_int32Bytes]

/-- The block of a C string. -/
def terminated (s : String) : List UInt8 := bytes s ++ [0]

theorem strlen_eq {s : String} (hs : CString s) : strlen s = (bytes s).length := by
  rw [strlen, hs.takeWhile_bytes]

/-- A string that `int32_t` can count with its NUL. -/
structure Sized (s : String) : Prop where
  cstring : CString s
  short : (bytes s).length + 1 < 2147483648

theorem stringLength_toInt {s : String} (hs : Sized s) :
    (stringLength s).toInt = ((terminated s).length : Int) := by
  have hshort := hs.short
  rw [stringLength, strlen_eq hs.cstring, terminated, List.length_append, List.length_singleton]
  exact Int32.toInt_ofNat_of_lt (by simpa using hshort)

theorem writes_string {s : String} (hs : Sized s) :
    Writes (stringEncodeArray [s]) (wireBlock (terminated s)) := by
  have hlen := stringLength_toInt hs
  have hword : int32Bytes (stringLength s).toUInt32 = int32Bytes (.ofNat (terminated s).length) := by
    rw [stringLength, strlen_eq hs.cstring, terminated, List.length_append, List.length_singleton]
    rfl
  have hfirst := writes_int32 [stringLength s]
  have hsecond := writes_int8 (p := terminated s) (n := (terminated s).length) (Nat.le_refl _)
  rw [List.flatMap_singleton, hword] at hfirst
  rw [List.take_length, ← hlen] at hsecond
  have hall := Writes.all (.cons hfirst (.cons hsecond .nil))
  rw [List.flatten_cons, List.flatten_cons, List.flatten_nil, List.append_nil] at hall
  exact hall

/-! ## What the functions read -/

/-- A field that is no array. -/
def scalarParse {α : Type} [Inhabited α] (p : Parser (List α)) : Parser α := do
  let l ← p
  pure (l.headD default)

/-- A negative length is past every test. -/
def int8Parse (elements : Int) : Parser (List UInt8) :=
  if elements < 0 then crash else fetch elements.toNat

def int32Parse (elements : Nat) : Parser (List Int32) := int32Elements <$> fetch (4 * elements)

def int64Parse (elements : Nat) : Parser (List Int64) := int64Elements <$> fetch (8 * elements)

/-- One string: the length, and as many bytes. -/
def blockParse : Parser (List UInt8) := do
  let length ← scalarParse (int32Parse 1)
  int8Parse length.toInt

def stringParse : Nat → Parser (List (List UInt8))
  | 0 => pure []
  | elements + 1 => do
      let block ← blockParse
      let blocks ← stringParse elements
      pure (block :: blocks)

theorem reads_scalar {α : Type} [Inhabited α] {r : Reader (List α)} {p : Parser (List α)}
    (h : Reads r p) : Reads (scalar r) (scalarParse p) :=
  h.bind fun _ => .pure _

theorem reads_int8 (elements : Int) : Reads (int8DecodeArray elements) (int8Parse elements) := by
  by_cases hneg : elements < 0
  · rw [int8Parse, if_pos hneg]
    refine .crash fun buf off max _ => ?_
    rw [int8DecodeArray, if_neg (by omega), memcpyFrom, if_neg (by omega)]
  · obtain ⟨n, rfl⟩ : ∃ n : Nat, elements = n := ⟨elements.toNat, by omega⟩
    have hfetch : int8Parse n = id <$> fetch n := by
      rw [int8Parse, if_neg hneg, Int.toNat_natCast, id_map]
    rw [hfetch]
    refine .fetch fun buf off max hbuf => ?_
    unfold int8DecodeArray
    by_cases hlt : max < n
    · rw [if_pos (by omega), if_pos hlt]
    · rw [if_neg (by omega), if_neg hlt, memcpyFrom, if_pos (by omega), Int.toNat_natCast,
        load_eq (by omega)]
      rfl

theorem reads_int32 (elements : Nat) : Reads (int32DecodeArray elements) (int32Parse elements) := by
  refine .fetch fun buf off max hbuf => ?_
  unfold int32DecodeArray
  by_cases hlt : max < 4 * elements
  · simp only
    rw [if_pos (by omega), if_pos hlt]
  · simp only
    rw [if_neg (by omega), if_neg hlt, load_eq (by omega)]
    rfl

theorem reads_int64 (elements : Nat) : Reads (int64DecodeArray elements) (int64Parse elements) := by
  refine .fetch fun buf off max hbuf => ?_
  unfold int64DecodeArray
  by_cases hlt : max < 8 * elements
  · simp only
    rw [if_pos (by omega), if_pos hlt]
  · simp only
    rw [if_neg (by omega), if_neg hlt, load_eq (by omega)]
    rfl

theorem reads_string (elements : Nat) : Reads (stringDecodeArray elements) (stringParse elements) := by
  induction elements with
  | zero => exact .pure []
  | succ elements ih =>
      rw [stringParse, blockParse, bind_assoc]
      exact (reads_scalar (reads_int32 1)).bind fun length =>
        (reads_int8 length.toInt).bind fun block => ih.bind fun blocks => .pure (block :: blocks)

/-! ## Reading back -/

theorem int8Parse_eq_done {n : Int} {room bs rest : List UInt8} :
    (int8Parse n).run room = .done (bs, rest) ↔ room = bs ++ rest ∧ (bs.length : Int) = n := by
  unfold int8Parse
  by_cases hneg : n < 0
  · rw [if_pos hneg, crash_run]
    constructor
    · intro h
      exact absurd h (by simp)
    · rintro ⟨-, rfl⟩
      omega
  · rw [if_neg hneg, fetch_eq_done]
    constructor
    · rintro ⟨hroom, hlen⟩
      exact ⟨hroom, by omega⟩
    · rintro ⟨hroom, hlen⟩
      exact ⟨hroom, by omega⟩

/-- One word. -/
theorem int32Parse_eq_done {v : Int32} {room rest : List UInt8} :
    (scalarParse (int32Parse 1)).run room = .done (v, rest) ↔ room = int32Bytes v.toUInt32 ++ rest := by
  unfold scalarParse int32Parse
  rw [StateT.run_bind, fetch_map]
  constructor
  · intro h
    by_cases hlt : room.length < 4 * 1
    · rw [if_pos hlt] at h
      exact absurd h (by simp)
    · rw [if_neg hlt] at h
      obtain ⟨b0, b1, b2, b3, tail, rfl⟩ : ∃ b0 b1 b2 b3 tail, room = b0 :: b1 :: b2 :: b3 :: tail := by
        rcases room with _ | ⟨b0, _ | ⟨b1, _ | ⟨b2, _ | ⟨b3, tail⟩⟩⟩⟩
        case cons.cons.cons.cons => exact ⟨b0, b1, b2, b3, tail, rfl⟩
        all_goals simp at hlt
      obtain ⟨rfl, rfl⟩ := Prod.mk.inj (Outcome.done.inj h)
      exact congrArg (· ++ tail) (bytes_int32OfBytes b0 b1 b2 b3).symm
  · rintro rfl
    have hword := int32OfBytes_bytes v.toUInt32
    have hv : v.toUInt32.toInt32 = v := Int32.toInt32_toUInt32 v
    rw [if_neg (by rw [List.length_append, length_int32Bytes]; omega)]
    show Outcome.done ((int32OfBytes _ _ _ _).toInt32, rest) = _
    rw [hword, hv]

theorem int32Parse_ne_undefined {room : List UInt8} :
    (scalarParse (int32Parse 1)).run room ≠ .undefined := by
  unfold scalarParse int32Parse
  rw [StateT.run_bind, fetch_map]
  split <;> simp [StateT.run_pure]

/-- One double word. -/
theorem int64Parse_eq_done {v : Int64} {room rest : List UInt8} :
    (scalarParse (int64Parse 1)).run room = .done (v, rest) ↔ room = int64Bytes v.toUInt64 ++ rest := by
  unfold scalarParse int64Parse
  rw [StateT.run_bind, fetch_map]
  constructor
  · intro h
    by_cases hlt : room.length < 8 * 1
    · rw [if_pos hlt] at h
      exact absurd h (by simp)
    · rw [if_neg hlt] at h
      obtain ⟨b0, b1, b2, b3, b4, b5, b6, b7, tail, rfl⟩ : ∃ b0 b1 b2 b3 b4 b5 b6 b7 tail,
          room = b0 :: b1 :: b2 :: b3 :: b4 :: b5 :: b6 :: b7 :: tail := by
        rcases room with
          _ | ⟨b0, _ | ⟨b1, _ | ⟨b2, _ | ⟨b3, _ | ⟨b4, _ | ⟨b5, _ | ⟨b6, _ | ⟨b7, tail⟩⟩⟩⟩⟩⟩⟩⟩
        case cons.cons.cons.cons.cons.cons.cons.cons => exact ⟨b0, b1, b2, b3, b4, b5, b6, b7, tail, rfl⟩
        all_goals simp at hlt
      obtain ⟨rfl, rfl⟩ := Prod.mk.inj (Outcome.done.inj h)
      exact congrArg (· ++ tail) (bytes_int64OfHalves b0 b1 b2 b3 b4 b5 b6 b7).symm
  · rintro rfl
    have hword := int64OfHalves_bytes v.toUInt64
    have hv : v.toUInt64.toInt64 = v := Int64.toInt64_toUInt64 v
    rw [if_neg (by rw [List.length_append, length_int64Bytes]; omega)]
    show Outcome.done ((int64OfHalves _ _).toInt64, rest) = _
    rw [hword, hv]

theorem int64Parse_ne_undefined {room : List UInt8} :
    (scalarParse (int64Parse 1)).run room ≠ .undefined := by
  unfold scalarParse int64Parse
  rw [StateT.run_bind, fetch_map]
  split <;> simp [StateT.run_pure]

/-- One byte. -/
theorem byteParse_eq_done {b : UInt8} {room rest : List UInt8} :
    (scalarParse (int8Parse 1)).run room = .done (b, rest) ↔ room = b :: rest := by
  unfold scalarParse
  rw [StateT.run_bind, Outcome.bind_eq_done]
  constructor
  · rintro ⟨⟨bs, mid⟩, hbs, h⟩
    obtain ⟨rfl, hlen⟩ := int8Parse_eq_done.mp hbs
    obtain ⟨c, rfl⟩ := List.length_eq_one_iff.mp (by omega : bs.length = 1)
    obtain ⟨rfl, rfl⟩ := Prod.mk.inj (Outcome.done.inj h)
    rfl
  · rintro rfl
    exact ⟨([b], rest), int8Parse_eq_done.mpr ⟨rfl, rfl⟩, rfl⟩

theorem int8Parse_eq_undefined {n : Int} {room : List UInt8} :
    (int8Parse n).run room = .undefined ↔ n < 0 := by
  unfold int8Parse
  by_cases hneg : n < 0
  · rw [if_pos hneg]
    exact ⟨fun _ => hneg, fun _ => rfl⟩
  · rw [if_neg hneg]
    exact ⟨fun h => absurd h fetch_ne_undefined, fun h => absurd h hneg⟩

theorem byteParse_ne_undefined {room : List UInt8} :
    (scalarParse (int8Parse 1)).run room ≠ .undefined := by
  unfold scalarParse
  rw [StateT.run_bind]
  intro h
  obtain h | ⟨_, _, h⟩ := Outcome.bind_eq_undefined.mp h
  · exact absurd (int8Parse_eq_undefined.mp h) (by omega)
  · exact absurd h (by simp [StateT.run_pure])

/-- One string: its length can be read off the block again. -/
theorem blockParse_eq_done {block room rest : List UInt8} :
    blockParse.run room = .done (block, rest) ↔
      room = wireBlock block ++ rest ∧ block.length < 2147483648 := by
  unfold blockParse
  rw [StateT.run_bind, Outcome.bind_eq_done]
  constructor
  · rintro ⟨⟨length, mid⟩, hlength, hblock⟩
    obtain ⟨rfl, hlen⟩ := int8Parse_eq_done.mp hblock
    have hlt : (block.length : Int) < 2147483648 := hlen ▸ length.toInt_lt
    have hword : length.toUInt32 = .ofNat block.length := by
      have hofInt : length = Int32.ofInt block.length := by rw [hlen, Int32.ofInt_toInt]
      rw [hofInt]
      rfl
    refine ⟨?_, by omega⟩
    rw [int32Parse_eq_done.mp hlength, hword, wireBlock, List.append_assoc]
  · rintro ⟨rfl, hlt⟩
    refine ⟨(Int32.ofNat block.length, block ++ rest), int32Parse_eq_done.mpr ?_,
      int8Parse_eq_done.mpr ⟨rfl, ?_⟩⟩
    · rw [wireBlock, List.append_assoc]
      rfl
    · exact (Int32.toInt_ofNat_of_lt (by simpa using hlt)).symm

/-- The only way out of what C defines is a negative length. -/
theorem blockParse_eq_undefined {room : List UInt8} : blockParse.run room = .undefined ↔
    ∃ (length : Int32) (rest : List UInt8), length.toInt < 0 ∧
      room = int32Bytes length.toUInt32 ++ rest := by
  unfold blockParse
  rw [StateT.run_bind, Outcome.bind_eq_undefined]
  constructor
  · rintro (h | ⟨⟨length, mid⟩, hlength, hblock⟩)
    · exact absurd h int32Parse_ne_undefined
    · exact ⟨length, mid, int8Parse_eq_undefined.mp hblock, int32Parse_eq_done.mp hlength⟩
  · rintro ⟨length, rest, hneg, rfl⟩
    exact .inr ⟨(length, rest), int32Parse_eq_done.mpr rfl, int8Parse_eq_undefined.mpr hneg⟩

/-! ## Not taking anything back -/

theorem steady_scalar {α : Type} [Inhabited α] {p : Parser (List α)} (h : Steady p) :
    Steady (scalarParse p) := h.bind fun _ => .pure _

theorem steady_int8 (elements : Int) : Steady (int8Parse elements) := by
  unfold int8Parse
  split
  · exact .crash
  · exact .fetch _

theorem steady_int32 (elements : Nat) : Steady (int32Parse elements) := (Steady.fetch _).map _

theorem steady_int64 (elements : Nat) : Steady (int64Parse elements) := (Steady.fetch _).map _

theorem steady_block : Steady blockParse :=
  (steady_scalar (steady_int32 1)).bind fun length => steady_int8 length.toInt

end DlsSdk
