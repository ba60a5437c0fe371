import DlsSdk.Json.Parser
import DlsSdk.Json.Grammar

/-!
# `Json.Characters` — what the parser makes of characters

The grammar says what a digit, an escape and the digits of a `\u` stand for, and which value a numeral has; the
parser computes it. Here both are shown to be the same: `foldl_addDigit` for the digits of a number, modulo 2^64,
`foldlM_addExponent` and `foldlM_addDecimal` for what is counted in an `int`, `numberValue_eq` for its value,
`escaped_iff`, `toNumberHex_iff` and `utf8_eq` for the characters of a string.
-/

namespace DlsSdk

namespace Json

/-! ## Classes -/

theorem isDigit_eq (c : Char) : isDigit c = c.isDigit := rfl

theorem isSpace_iff {c : Char} : isSpace c = true ↔ Space c := by
  unfold isSpace Space
  rw [Bool.or_eq_true, Bool.or_eq_true, Bool.or_eq_true, decide_eq_true_iff, decide_eq_true_iff,
    decide_eq_true_iff, decide_eq_true_iff, or_assoc, or_assoc]

theorem ne_of_isDigit {c d : Char} (hc : isDigit c = true) (hd : isDigit d = false) : c ≠ d := by
  rintro rfl
  rw [hc] at hd
  exact absurd hd (by simp)

theorem ne_of_space {c d : Char} (hc : Space c) (hd : ¬ Space d) : c ≠ d := by
  rintro rfl
  exact hd hc

theorem isDigit_of_space {c : Char} (h : Space c) : isDigit c = false := by
  obtain rfl | rfl | rfl | rfl := h <;> rfl

theorem not_space_of_isDigit {c : Char} (h : isDigit c = true) : ¬ Space c := fun hc => by
  rw [isDigit_of_space hc] at h
  cases h

/-! ## Digits -/

/-- The digits of a number make up its value. -/
theorem foldl_addDigit (ds : List Char) (n : Nat) :
    ds.foldl addDigit (UInt64.ofNat n) = UInt64.ofNat (Nat.ofDigitChars 10 ds n) := by
  induction ds generalizing n with
  | nil => rfl
  | cons c ds ih =>
      have hstep : addDigit (UInt64.ofNat n) c = UInt64.ofNat (10 * n + (c.toNat - '0'.toNat)) := by
        rw [UInt64.ofNat_add, UInt64.ofNat_mul, UInt64.mul_comm]
        rfl
      rw [List.foldl_cons, hstep, ih, Nat.ofDigitChars_cons]

theorem foldlM_addDigit (ds : List Char) (n : UInt64) :
    ds.foldlM (fun part ch => some (addDigit part ch)) n = some (ds.foldl addDigit n) := by
  induction ds generalizing n with
  | nil => rfl
  | cons c ds ih => rw [List.foldlM_cons, Option.bind_eq_bind, Option.bind_some, ih, List.foldl_cons]

theorem le_intMax {n : Nat} : n ≤ intMax ↔ n < 2 ^ 31 := Nat.lt_succ_iff.symm

theorem le_ofDigitChars (ds : List Char) (n : Nat) : n ≤ Nat.ofDigitChars 10 ds n := by
  induction ds generalizing n with
  | nil => exact Nat.le_of_eq Nat.ofDigitChars_nil.symm
  | cons c ds ih =>
      rw [Nat.ofDigitChars_cons]
      have hrest := ih (10 * n + (c.toNat - '0'.toNat))
      omega

/-- **The digits of an exponent** make up its value, if it fits. -/
theorem foldlM_addExponent (ds : List Char) {n : Nat} (hn : n ≤ intMax) :
    ds.foldlM addExponent n =
      if Nat.ofDigitChars 10 ds n ≤ intMax then some (Nat.ofDigitChars 10 ds n) else none := by
  induction ds generalizing n with
  | nil => rw [List.foldlM_nil, Nat.ofDigitChars_nil, if_pos hn]; rfl
  | cons c ds ih =>
      have hstep : n * 10 + toNumber c = 10 * n + (c.toNat - '0'.toNat) := by rw [Nat.mul_comm]; rfl
      rw [List.foldlM_cons, Nat.ofDigitChars_cons, addExponent, hstep]
      by_cases hfit : 10 * n + (c.toNat - '0'.toNat) ≤ intMax
      · rw [if_pos hfit, Option.bind_eq_bind, Option.bind_some, ih hfit]
      · -- what does not fit gets no smaller
        have hle := le_ofDigitChars ds (10 * n + (c.toNat - '0'.toNat))
        rw [if_neg hfit, if_neg fun h => hfit (Nat.le_trans hle h)]
        rfl

/-- **The decimals** are counted, if there are not too many. -/
theorem foldlM_addDecimal (ds : List Char) {n : UInt64} {k : Nat} (hk : k ≤ intMax) :
    ds.foldlM addDecimal (n, k) =
      if k + ds.length ≤ intMax then some (ds.foldl addDigit n, k + ds.length) else none := by
  induction ds generalizing n k with
  | nil => rw [List.foldlM_nil, List.length_nil, Nat.add_zero, if_pos hk]; rfl
  | cons c ds ih =>
      rw [List.foldlM_cons, addDecimal, List.length_cons, Nat.add_comm ds.length, ← Nat.add_assoc]
      dsimp only
      by_cases hfit : k < intMax
      · rw [if_pos hfit, Option.bind_eq_bind, Option.bind_some, ih hfit, List.foldl_cons]
      · rw [if_neg hfit, if_neg (by omega)]
        rfl

/-- More than two thousand million take ten digits. -/
theorem length_of_not_fits {ds : List Char} (hds : Digits ds) (h : ¬ decimal ds < 2 ^ 31) : 10 ≤ ds.length := by
  have hbound : ∀ (ds : List Char) (n : Nat), Digits ds →
      Nat.ofDigitChars 10 ds n < (n + 1) * 10 ^ ds.length := by
    intro ds
    induction ds with
    | nil =>
        intro n _
        rw [Nat.ofDigitChars_nil, List.length_nil]
        omega
    | cons c ds ih =>
        intro n hds
        obtain ⟨hc, hds⟩ := List.forall_mem_cons.mp hds
        have hdigit : c.toNat - '0'.toNat ≤ 9 := by
          have hnine : c.toNat ≤ '9'.toNat := by
            rw [Char.isDigit, Bool.and_eq_true] at hc
            exact of_decide_eq_true hc.2
          exact Nat.sub_le_of_le_add hnine
        have hrest := ih (10 * n + (c.toNat - '0'.toNat)) hds
        rw [Nat.ofDigitChars_cons, List.length_cons, Nat.pow_succ']
        calc Nat.ofDigitChars 10 ds (10 * n + (c.toNat - '0'.toNat))
            < (10 * n + (c.toNat - '0'.toNat) + 1) * 10 ^ ds.length := hrest
          _ ≤ ((n + 1) * 10) * 10 ^ ds.length := Nat.mul_le_mul_right _ (by omega)
          _ = (n + 1) * (10 * 10 ^ ds.length) := Nat.mul_assoc ..
  have hlt : decimal ds < 10 ^ ds.length := by
    have hzero := hbound ds 0 hds
    rw [Nat.zero_add, Nat.one_mul] at hzero
    exact hzero
  refine Nat.le_of_not_lt fun hlen => ?_
  have hpow : 10 ^ ds.length ≤ 10 ^ 9 := Nat.pow_le_pow_right (by decide) (by omega)
  omega

/-! ## The value of a number -/

theorem ofNat_eq_zero_iff (n : Nat) : UInt64.ofNat n = 0 ↔ n % 2 ^ 64 = 0 := by
  rw [← UInt64.toNat_inj, UInt64.toNat_ofNat']
  rfl

/-- The sign is that of the integer modulo 2^64. -/
theorem toInt64_signed (negative : Bool) (n : Nat) :
    (if negative then (-(UInt64.ofNat n)).toInt64 else (UInt64.ofNat n).toInt64) =
      .ofInt (if negative then -(n : Int) else n) := by
  apply Int64.toBitVec_inj.mp
  cases negative with
  | true =>
      rw [if_pos rfl, if_pos rfl, UInt64.toBitVec_toInt64, UInt64.toBitVec_neg, Int64.toBitVec_ofInt,
        BitVec.ofInt_neg, BitVec.ofInt_natCast]
      rfl
  | false =>
      rw [if_neg (by simp), if_neg (by simp), UInt64.toBitVec_toInt64, Int64.toBitVec_ofInt, BitVec.ofInt_natCast]
      rfl

/-- **The value that is computed for a numeral is its value.** -/
theorem numberValue_eq (n : Numeral) :
    numberValue n.negative (UInt64.ofNat (decimal n.int)) (UInt64.ofNat (decimal n.decimals)) n.decimals.length
      (n.exp.any fun e => e.sign = some '-') n.exponent = n.value := by
  have hpos : UInt64.ofNat (decimal n.decimals) > 0 ↔ ¬ decimal n.decimals % 2 ^ 64 = 0 := by
    rw [← ofNat_eq_zero_iff]
    exact UInt64.pos_iff_ne_zero
  unfold numberValue Numeral.value Numeral.integer Numeral.double
  rw [toInt64_signed]
  by_cases hint : decimal n.decimals % 2 ^ 64 = 0 ∧ n.exponent = 0
  · rw [if_pos hint, if_pos ⟨(ofNat_eq_zero_iff _).mpr hint.1, hint.2⟩]
  · rw [if_neg hint, if_neg fun h => hint ⟨(ofNat_eq_zero_iff _).mp h.1, h.2⟩]
    simp only [hpos, Nat.pos_iff_ne_zero, ite_not]

/-! ## The characters of a string -/

/-- A character behind a backslash stands for the one in the table. -/
theorem escaped_iff {e c : Char} : escaped e = some c ↔ (e, c) ∈ escapes := by
  constructor
  · intro h
    unfold escaped at h
    split at h
    all_goals first
      | (obtain rfl := Option.some.inj h; decide)
      | cases h
  · intro h
    simp only [escapes, List.mem_cons, Prod.mk.injEq, List.not_mem_nil, or_false] at h
    obtain ⟨rfl, rfl⟩ | ⟨rfl, rfl⟩ | ⟨rfl, rfl⟩ | ⟨rfl, rfl⟩ | ⟨rfl, rfl⟩ | ⟨rfl, rfl⟩ | ⟨rfl, rfl⟩ |
      ⟨rfl, rfl⟩ := h
    all_goals rfl

theorem toNat_lt_of_toNumberHex {c : Char} {n : Nat} (h : toNumberHex c = some n) : c.toNat < 128 := by
  have hle : ∀ d : Char, c ≤ d → d.toNat < 128 → c.toNat < 128 := fun d hd hlt => Nat.lt_of_le_of_lt hd hlt
  unfold toNumberHex isDigit at h
  split at h
  · next hc => exact hle '9' (of_decide_eq_true (Bool.and_eq_true_iff.mp hc).2) (by decide)
  · split at h
    · next hc => exact hle 'F' hc.2 (by decide)
    · split at h
      · next hc => exact hle 'f' hc.2 (by decide)
      · cases h

theorem hexDigit_of_toNumberHex : ∀ k < 128, ∀ n ∈ toNumberHex (.ofNat k), HexDigit (.ofNat k) n := by decide

theorem toNumberHex_of_hexDigit : ∀ k < 128, ∀ n < 16, HexDigit (.ofNat k) n → toNumberHex (.ofNat k) = some n := by
  decide +kernel

theorem HexDigit.lt {c : Char} {n : Nat} (h : HexDigit c n) : n < 16 :=
  h.elim (fun h => (List.getElem?_eq_some_iff.mp h).1) fun h => (List.getElem?_eq_some_iff.mp h).1

theorem HexDigit.toNat_lt {c : Char} {n : Nat} (h : HexDigit c n) : c.toNat < 128 := by
  have hlower : ['0', '1', '2', '3', '4', '5', '6', '7', '8', '9', 'a', 'b', 'c', 'd', 'e', 'f'].all
    (·.toNat < 128) = true := by decide
  have hupper : ['0', '1', '2', '3', '4', '5', '6', '7', '8', '9', 'A', 'B', 'C', 'D', 'E', 'F'].all
    (·.toNat < 128) = true := by decide
  obtain h | h := h
  · exact of_decide_eq_true (List.all_eq_true.mp hlower c (List.mem_of_getElem? h))
  · exact of_decide_eq_true (List.all_eq_true.mp hupper c (List.mem_of_getElem? h))

/-- A hexadecimal digit is read as its number. -/
theorem toNumberHex_iff {c : Char} {n : Nat} : toNumberHex c = some n ↔ HexDigit c n := by
  constructor
  · intro h
    have hn := hexDigit_of_toNumberHex c.toNat (toNat_lt_of_toNumberHex h) n
    rw [Char.ofNat_toNat] at hn
    exact hn h
  · intro h
    have hn := toNumberHex_of_hexDigit c.toNat h.toNat_lt n h.lt
    rw [Char.ofNat_toNat] at hn
    exact hn h

theorem toNat_ofNat {n : Nat} (h : n.isValidChar) : (Char.ofNat n).toNat = n := by
  rw [Char.ofNat, dif_pos h]
  rfl

theorem ofUInt8_ofNat {n : Nat} (hn : n < 256) : Char.ofUInt8 (.ofNat n) = .ofNat n := by
  apply Char.toNat_inj.mp
  rw [toNat_ofNat (.inl (by omega))]
  exact (UInt8.toNat_ofNat' ..).trans (Nat.mod_eq_of_lt hn)

/-- **What is appended for a code** are its bytes. -/
theorem utf8_eq {code : Nat} (h : code < 65536) : utf8 code = codeBytes code := by
  have hc0 : ∀ n < 0x20, 0xc0 ||| n = n + 0xc0 := by decide
  have he0 : ∀ n < 0x10, 0xe0 ||| n = n + 0xe0 := by decide
  have h80 : ∀ n < 0x40, 0x80 ||| n = n + 0x80 := by decide
  have hand : ∀ n, n &&& 0x3f = n % 0x40 := fun n => Nat.and_two_pow_sub_one_eq_mod n 6
  unfold utf8 codeBytes
  simp only [Nat.shiftRight_eq_div_pow, hand, Nat.reducePow]
  by_cases hv : code.isValidChar
  · have hval : (Char.ofNat code).val.toNat = code := toNat_ofNat hv
    rw [if_pos hv]
    unfold String.utf8EncodeChar
    rw [hval]
    dsimp only
    by_cases h7 : code < 0x80
    · rw [if_pos h7, if_pos (by omega), List.map_singleton, ofUInt8_ofNat (by omega)]
    · by_cases h11 : code < 0x800
      · have hmod : code / 64 % 0x20 = code / 64 := Nat.mod_eq_of_lt (by omega)
        rw [if_neg h7, if_pos h11, if_neg (by omega), if_pos (by omega), List.map_cons, List.map_singleton,
          ofUInt8_ofNat (by omega), ofUInt8_ofNat (by omega), hc0 _ (by omega), h80 _ (by omega), hmod]
      · have hmod : code / 4096 % 0x10 = code / 4096 := Nat.mod_eq_of_lt (by omega)
        rw [if_neg h7, if_neg h11, if_neg (by omega), if_neg (by omega), if_pos (by omega), List.map_cons,
          List.map_cons, List.map_singleton, ofUInt8_ofNat (by omega), ofUInt8_ofNat (by omega),
          ofUInt8_ofNat (by omega), he0 _ (by omega), h80 _ (by omega), h80 _ (by omega), hmod]
  · have hsurrogate : ¬ code < 0x800 := fun hlt => hv (.inl (by omega))
    have hbig : ¬ code < 0x80 := by omega
    rw [if_neg hv, if_neg hbig, if_neg hsurrogate, he0 _ (by omega), h80 _ (by omega), h80 _ (by omega),
      Nat.add_comm 0xe0, Nat.add_comm 0x80, Nat.add_comm 0x80]

end Json

end DlsSdk
