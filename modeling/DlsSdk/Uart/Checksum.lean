import DlsSdk.Library.ShiftRegister
import DlsSdk.Uart.Stage

/-!
# `Uart.Checksum` — the two check sums over any length

`CheckSum8` and `CRC16` walk over their input with a counter of their own. That of `CRC16` is as wide as the
length it is compared with, so the loop ends after every input, and what it computes is a division over GF(2)
(`crc16_divides`). That of `CheckSum8` has 8 bits, so from 256 bytes on the loop never ends
(`checkSum8Loop_never`), and the sum is right exactly below (`checkSum8_iff`).
-/

namespace DlsSdk

open Polynomial

/-- A list of up to 65535 bytes, counted in a `uint16_t`. -/
theorem toNat_ofNat_length {l : List UInt8} (hl : l.length ≤ 65535) :
    (UInt16.ofNat l.length).toNat = l.length :=
  UInt16.toNat_ofNat_of_lt' (show l.length < 65536 by omega)

/-! ## `CheckSum8` -/

/-- **A loop without end.** No number of rounds takes the counter to 256 bytes. -/
theorem checkSum8Loop_never {input : List UInt8} {n : UInt16} (hn : 256 ≤ n.toNat) (fuel : Nat) :
    ∀ sum iX : UInt8, checkSum8Loop input n fuel sum iX = none := by
  induction fuel with
  | zero => intro sum iX; rfl
  | succ fuel ih =>
      intro sum iX
      have hlt : iX.toUInt16 < n := by
        have hi := iX.toNat_lt
        rw [UInt16.lt_iff_toNat_lt, UInt8.toNat_toUInt16]
        omega
      rw [checkSum8Loop, if_pos hlt, ih]

theorem checkSum8_never {input : List UInt8} {n : UInt16} (hn : 256 ≤ n.toNat) (seed : UInt8) :
    checkSum8 seed (some input) n = none := by
  unfold checkSum8
  simp only
  refine checkSum8Loop_never ?_ 257 seed 0
  split
  · decide
  · exact hn

/-- **`CheckSum8` is right exactly up to 255 bytes.** There it ends with the sum of its input, and sums over
    two pieces chain; beyond it does not end. -/
theorem checkSum8_iff (seed : UInt8) :
    (∀ (input : List UInt8) (n : UInt16), n.toNat ≤ input.length →
      (checkSum8 seed (some input) n = some (seed + (input.take (min n.toNat 0xFFFE)).sum) ↔
        n.toNat ≤ 255)) ∧
    ∀ a b : List UInt8, a.length + b.length ≤ 0xFFFE →
      ((∃ sum total, checkSum8 seed (some a) (.ofNat a.length) = some sum ∧
          checkSum8 sum (some b) (.ofNat b.length) = some total ∧
          checkSum8 seed (some (a ++ b)) (.ofNat (a ++ b).length) = some total) ↔
        a.length + b.length ≤ 255) := by
  constructor
  · intro input n hlen
    constructor
    · intro h
      by_contra hbig
      rw [checkSum8_never (by omega)] at h
      exact absurd h (by simp)
    · intro hn
      rw [checkSum8_eq hn hlen, Nat.min_eq_left (by omega)]
  · intro a b htotal
    have hlen : (UInt16.ofNat (a ++ b).length).toNat = a.length + b.length := by
      rw [toNat_ofNat_length (by rw [List.length_append]; omega), List.length_append]
    constructor
    · rintro ⟨sum, total, -, -, h⟩
      by_contra hbig
      rw [checkSum8_never (by omega)] at h
      exact absurd h (by simp)
    · intro hshort
      have hsum : ∀ (s : UInt8) (l : List UInt8), l.length ≤ 255 →
          checkSum8 s (some l) (.ofNat l.length) = some (s + l.sum) := by
        intro s l hl
        have hn := toNat_ofNat_length (l := l) (by omega)
        rw [checkSum8_eq (by omega) (by omega), hn, List.take_length]
      refine ⟨_, _, hsum seed a (by omega), hsum _ b (by omega), ?_⟩
      rw [hsum seed (a ++ b) (by rw [List.length_append]; omega), List.sum_append, UInt8.add_assoc]

/-- The 14 bytes of an image frame of length 10, in two pieces. -/
theorem checkSum8_pieces : ∃ sum total,
    checkSum8 0 (some [0x0B, 1, 2, 3, 4, 5, 6]) 7 = some sum ∧
      checkSum8 sum (some [7, 8, 9, 10, 11, 12, 13]) 7 = some total ∧
      checkSum8 0 (some [0x0B, 1, 2, 3, 4, 5, 6, 7, 8, 9, 10, 11, 12, 13]) 14 = some total :=
  ((checkSum8_iff 0).2 [0x0B, 1, 2, 3, 4, 5, 6] [7, 8, 9, 10, 11, 12, 13] (by decide)).mpr (by decide)

/-- **256 bytes are never summed**, in however many rounds. -/
theorem checkSum8_hangs : (256 : UInt16).toNat ≤ (List.replicate 256 (0 : UInt8)).length ∧
    checkSum8 0 (some (List.replicate 256 0)) 256 = none ∧
    ∀ fuel, checkSum8Loop (List.replicate 256 0) 256 fuel 0 0 = none := by
  refine ⟨?_, checkSum8_never (by decide) 0, fun fuel => checkSum8Loop_never (by decide) fuel 0 0⟩
  rw [List.length_replicate]
  decide

/-! ## `CRC16` -/

/-- The test of the top bit. -/
theorem and_0x8000_iff (crc : UInt16) : crc &&& 0x8000 ≠ 0 ↔ crc.toBitVec.msb = true := by
  have hmask : (0x8000 : UInt16).toBitVec = BitVec.twoPow 16 15 := rfl
  rw [Ne, ← UInt16.toBitVec_inj, UInt16.toBitVec_and, hmask, BitVec.and_twoPow,
    BitVec.msb_eq_getLsbD_last]
  cases crc.toBitVec.getLsbD (16 - 1) with
  | true => decide
  | false => decide

/-- A shift of the inner loop is a shift of the register. -/
theorem crc16Bits_toBitVec (polynomial : UInt16) (bit : Nat) :
    ∀ crc : UInt16, (crc16Bits polynomial bit crc).toBitVec =
      Gf2.steps polynomial.toBitVec bit crc.toBitVec := by
  induction bit with
  | zero => intro crc; rfl
  | succ bit ih =>
      intro crc
      have hshift : (crc <<< 1).toBitVec = crc.toBitVec <<< 1 := rfl
      rw [crc16Bits, ih, Gf2.steps, Gf2.step]
      congr 1
      by_cases hb : crc &&& 0x8000 ≠ 0
      · rw [if_pos hb, if_pos ((and_0x8000_iff crc).mp hb), UInt16.toBitVec_xor, hshift]
      · rw [if_neg hb, if_neg (fun hc => hb ((and_0x8000_iff crc).mpr hc)), hshift]

/-- A round of the outer loop feeds a byte. -/
theorem crc16_feed (polynomial crc : UInt16) (b : UInt8) :
    (crc16Bits polynomial 8 (crc ^^^ (b.toUInt16 <<< 8))).toBitVec =
      Gf2.feed polynomial.toBitVec crc.toBitVec b.toBitVec := by
  have hbyte : (b.toUInt16 <<< 8).toBitVec = b.toBitVec.setWidth 16 <<< (16 - 8) := rfl
  rw [crc16Bits_toBitVec, UInt16.toBitVec_xor, hbyte, Gf2.feed]

/-- The bytes of the input the loop covers, as digits of the dividend. -/
def digits (input : List UInt8) (n : Nat) : List (BitVec 8) := (input.take n).map UInt8.toBitVec

/-- The loop divides by what is left of the input. -/
theorem crc16Loop_eq {polynomial : UInt16} {input : List UInt8} {n : UInt16}
    (hlen : n.toNat ≤ input.length) (k : Nat) :
    ∀ (fuel : Nat) (crc byteCtr : UInt16), byteCtr.toNat + k = n.toNat → k < fuel →
      crc16Loop polynomial input n fuel crc byteCtr =
        some (.ofBitVec (Gf2.divide polynomial.toBitVec crc.toBitVec
          ((digits input n.toNat).drop byteCtr.toNat))) := by
  induction k with
  | zero =>
      intro fuel crc byteCtr hk hfuel
      obtain ⟨fuel, rfl⟩ : ∃ f, fuel = f + 1 := ⟨fuel - 1, by omega⟩
      have hlt : ¬ byteCtr < n := by
        rw [UInt16.lt_iff_toNat_lt]
        omega
      have hdrop : (digits input n.toNat).drop byteCtr.toNat = [] := by
        apply List.drop_eq_nil_of_le
        rw [digits, List.length_map, List.length_take]
        omega
      rw [crc16Loop, if_neg hlt, hdrop]
      rfl
  | succ k ih =>
      intro fuel crc byteCtr hk hfuel
      obtain ⟨fuel, rfl⟩ : ∃ f, fuel = f + 1 := ⟨fuel - 1, by omega⟩
      have hlt : byteCtr < n := by
        rw [UInt16.lt_iff_toNat_lt]
        omega
      -- the counter is below the length, which has as many bits, so it does not wrap
      have hnext : (byteCtr + 1).toNat = byteCtr.toNat + 1 := by
        have hn := n.toNat_lt
        rw [UInt16.toNat_add, show (1 : UInt16).toNat = 1 from rfl]
        omega
      have hcons : (digits input n.toNat).drop byteCtr.toNat =
          (input.getD byteCtr.toNat 0).toBitVec :: (digits input n.toNat).drop (byteCtr.toNat + 1) := by
        have hin := drop_take_eq_cons (i := byteCtr.toNat) (by omega) hlen
        rw [digits, ← List.map_drop, ← List.map_drop, hin, List.map_cons]
      rw [crc16Loop, if_pos hlt, ih fuel _ _ (by omega) (by omega), hnext, hcons, crc16_feed]
      rfl

/-- `CRC16` always ends, with what the register holds. -/
theorem crc16_eq (polynomial seed : UInt16) {input : List UInt8} {n : UInt16}
    (hlen : n.toNat ≤ input.length) :
    crc16 polynomial seed input n =
      some (.ofBitVec (Gf2.divide polynomial.toBitVec seed.toBitVec (digits input n.toNat))) := by
  have hn := n.toNat_lt
  have h0 : (0 : UInt16).toNat + n.toNat = n.toNat := Nat.zero_add _
  exact crc16Loop_eq hlen n.toNat 65536 seed 0 h0 (by omega)

/-- A whole list of bytes. -/
theorem crc16_all (polynomial seed : UInt16) {l : List UInt8} (hl : l.length ≤ 65535) :
    crc16 polynomial seed l (.ofNat l.length) =
      some (.ofBitVec (Gf2.divide polynomial.toBitVec seed.toBitVec (l.map UInt8.toBitVec))) := by
  have hn := toNat_ofNat_length hl
  rw [crc16_eq polynomial seed (by omega), hn, digits, List.take_length]

/-- **`CRC16` divides, and chains.** On any `n` bytes it ends with the remainder of
    `seed(x) * x ^ (8 * n) + input(x) * x ^ 16` by `x ^ 16 + polynomial(x)`; and the value for one piece is the
    seed for the next. -/
theorem crc16_divides (polynomial seed : UInt16) :
    (∀ (input : List UInt8) (n : UInt16), n.toNat ≤ input.length →
      ∃ crc, crc16 polynomial seed input n = some crc ∧
        Gf2.poly crc.toBitVec =
          (Gf2.poly seed.toBitVec * X ^ (8 * n.toNat) + Gf2.message (digits input n.toNat) * X ^ 16) %ₘ
            (X ^ 16 + Gf2.poly polynomial.toBitVec)) ∧
    ∀ a b : List UInt8, a.length + b.length ≤ 65535 →
      ∃ crc total, crc16 polynomial seed a (.ofNat a.length) = some crc ∧
        crc16 polynomial crc b (.ofNat b.length) = some total ∧
        crc16 polynomial seed (a ++ b) (.ofNat (a ++ b).length) = some total := by
  constructor
  · intro input n hlen
    have hdigits : (digits input n.toNat).length = n.toNat := by
      rw [digits, List.length_map, List.length_take, Nat.min_eq_left hlen]
    refine ⟨_, crc16_eq polynomial seed hlen, ?_⟩
    rw [Gf2.poly_divide (by decide), hdigits]
    rfl
  · intro a b htotal
    refine ⟨_, _, crc16_all polynomial seed (by omega), crc16_all polynomial _ (by omega), ?_⟩
    rw [crc16_all polynomial seed (by rw [List.length_append]; omega), List.map_append,
      Gf2.divide_append]

/-- The nine bytes of the usual check, with the polynomial the source recommends. -/
theorem crc16_check : ∃ crc, crc16 0x1021 0 [49, 50, 51, 52, 53, 54, 55, 56, 57] 9 = some crc ∧
    crc = 0x31C3 := by
  obtain ⟨crc, hcrc, -⟩ :=
    (crc16_divides 0x1021 0).1 [49, 50, 51, 52, 53, 54, 55, 56, 57] 9 (by decide)
  have hval : crc16 0x1021 0 [49, 50, 51, 52, 53, 54, 55, 56, 57] 9 = some 0x31C3 := by
    decide +kernel
  exact ⟨crc, hcrc, Option.some.inj (hcrc.symm.trans hval)⟩

end DlsSdk
