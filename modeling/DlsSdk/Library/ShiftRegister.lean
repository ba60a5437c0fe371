import Mathlib

/-!
# `Library.ShiftRegister` — division of polynomials over GF(2) by a shift register

A word of `w` bits is a polynomial over GF(2), bit `i` the coefficient of `X ^ i` (`poly`). A register of
`w` bits divides by `X ^ w + poly p`: one shift multiplies by `X` and reduces (`poly_step`), and a word that
is xored into its upper end before `v` shifts is one more digit of the dividend (`poly_feed`).

`poly_divide` says what the register holds after a whole message, digits most significant first, from any
seed; `divide_append` that a message may be fed in pieces.
-/

namespace Gf2

open Polynomial

variable {v w : Nat}

/-! ## Words as polynomials -/

/-- The polynomial of a word. -/
noncomputable def poly (b : BitVec w) : (ZMod 2)[X] :=
  ∑ i ∈ Finset.range w, if b.getLsbD i then X ^ i else 0

theorem poly_coeff (b : BitVec w) (i : Nat) :
    (poly b).coeff i = if b.getLsbD i then 1 else 0 := by
  have hterm : ∀ j, (if b.getLsbD j then (X : (ZMod 2)[X]) ^ j else 0).coeff i =
      if i = j then (if b.getLsbD i then 1 else 0) else 0 := by
    intro j
    by_cases hij : i = j
    · subst hij
      by_cases hb : b.getLsbD i <;> simp [hb]
    · by_cases hb : b.getLsbD j <;> simp [hb, hij, coeff_X_pow]
  rw [poly, finsetSum_coeff, Finset.sum_congr rfl fun j _ => hterm j, Finset.sum_ite_eq]
  by_cases hi : i ∈ Finset.range w
  · rw [if_pos hi]
  · -- past its end a word has no bits
    rw [if_neg hi, BitVec.getLsbD_of_ge b i (by simpa using hi)]
    rfl

theorem poly_degree_lt (b : BitVec w) : (poly b).degree < w := by
  rw [degree_lt_iff_coeff_zero]
  intro i hi
  rw [poly_coeff, BitVec.getLsbD_of_ge b i hi]
  rfl

/-- Xor adds. -/
theorem poly_xor (a b : BitVec w) : poly (a ^^^ b) = poly a + poly b := by
  ext i
  rw [coeff_add, poly_coeff, poly_coeff, poly_coeff, BitVec.getLsbD_xor]
  cases a.getLsbD i <;> cases b.getLsbD i <;> decide

/-- The bit that a shift moves out of the word. -/
theorem carry_coeff (b : BitVec w) (i : Nat) :
    (if b.msb then (X : (ZMod 2)[X]) ^ w else 0).coeff (i + 1) =
      if i + 1 = w ∧ b.getLsbD i then 1 else 0 := by
  rw [BitVec.msb_eq_getLsbD_last]
  by_cases hi : i + 1 = w
  · obtain rfl := hi
    rw [Nat.add_sub_cancel]
    by_cases hb : b.getLsbD i
    · rw [if_pos hb, if_pos ⟨rfl, hb⟩, coeff_X_pow_self]
    · rw [if_neg hb, if_neg (fun hc => hb hc.2), coeff_zero]
  · have hno : ¬ (i + 1 = w ∧ b.getLsbD i = true) := fun hc => hi hc.1
    rw [if_neg hno]
    by_cases hb : b.getLsbD (w - 1)
    · rw [if_pos hb, coeff_X_pow, if_neg hi]
    · rw [if_neg hb, coeff_zero]

/-- A shift multiplies by `X`, the bit that leaves the word apart. -/
theorem poly_shiftLeft_one (b : BitVec w) :
    poly (b <<< 1) + (if b.msb then X ^ w else 0) = X * poly b := by
  ext i
  cases i with
  | zero =>
      have hcarry : (if b.msb then (X : (ZMod 2)[X]) ^ w else 0).coeff 0 = 0 := by
        by_cases hb : b.msb
        · -- a word with a top bit is not empty
          have hw : 0 ≠ w := by
            rintro rfl
            simp [BitVec.msb_eq_getLsbD_last] at hb
          rw [if_pos hb, coeff_X_pow, if_neg hw]
        · rw [if_neg hb, coeff_zero]
      rw [coeff_add, hcarry, mul_coeff_zero, coeff_X_zero, zero_mul, poly_coeff,
        BitVec.getLsbD_shiftLeft]
      simp
  | succ i =>
      rw [coeff_add, carry_coeff, coeff_X_mul, poly_coeff, poly_coeff, BitVec.getLsbD_shiftLeft]
      obtain hi | hi | hi := lt_trichotomy (i + 1) w
      · simp [hi, hi.ne]
      · simp [hi]
      · have hout : b.getLsbD i = false := BitVec.getLsbD_of_ge b i (by omega)
        simp [hout]

/-- Room at the upper end of a word multiplies by a power of `X`. -/
theorem poly_shiftLeft_setWidth (hv : v ≤ w) (b : BitVec v) :
    poly (b.setWidth w <<< (w - v)) = poly b * X ^ (w - v) := by
  ext i
  rw [poly_coeff, BitVec.getLsbD_shiftLeft, BitVec.getLsbD_setWidth]
  by_cases hi : i < w - v
  · have hlow : ¬ w - v ≤ i := by omega
    rw [coeff_mul_X_pow', if_neg hlow]
    simp [hi]
  · obtain ⟨j, rfl⟩ : ∃ j, i = j + (w - v) := ⟨i - (w - v), by omega⟩
    rw [coeff_mul_X_pow, poly_coeff, Nat.add_sub_cancel]
    by_cases hj : j < v
    · have hin : j + (w - v) < w := by omega
      simp [hin, show j < w by omega]
    · have hout : b.getLsbD j = false := BitVec.getLsbD_of_ge b j (by omega)
      simp [hout]

/-! ## The modulus -/

/-- The divisor of a register with the feedback word `p`. -/
noncomputable def modulus (p : BitVec w) : (ZMod 2)[X] := X ^ w + poly p

theorem modulus_monic (p : BitVec w) : (modulus p).Monic := monic_X_pow_add (poly_degree_lt p)

theorem degree_modulus (p : BitVec w) : (modulus p).degree = w := by
  have hlead : (poly p).degree < ((X : (ZMod 2)[X]) ^ w).degree := by
    rw [degree_X_pow]
    exact poly_degree_lt p
  rw [modulus, degree_add_eq_left_of_degree_lt hlead, degree_X_pow]

/-- A word is its own remainder. -/
theorem poly_mod (p r : BitVec w) : poly r %ₘ modulus p = poly r := by
  rw [modByMonic_eq_self_iff (modulus_monic p), degree_modulus]
  exact poly_degree_lt r

/-- A factor and a summand may come before or after a reduction. -/
theorem mod_mul_add {m : (ZMod 2)[X]} (hm : m.Monic) (a c d : (ZMod 2)[X]) :
    ((a %ₘ m) * c + d) %ₘ m = (a * c + d) %ₘ m := by
  apply modByMonic_eq_of_dvd_sub hm
  refine ⟨-(a /ₘ m * c), ?_⟩
  rw [modByMonic_eq_sub_mul_div a m]
  ring

/-! ## The register -/

/-- One shift: the bit that leaves the register feeds `p` back. -/
def step (p r : BitVec w) : BitVec w := if r.msb then (r <<< 1) ^^^ p else r <<< 1

def steps (p : BitVec w) : Nat → BitVec w → BitVec w
  | 0, r => r
  | n + 1, r => steps p n (step p r)

/-- One digit of the dividend, at the upper end. -/
def feed (p r : BitVec w) (b : BitVec v) : BitVec w := steps p v (r ^^^ (b.setWidth w <<< (w - v)))

/-- A whole dividend, most significant digit first. -/
def divide (p seed : BitVec w) (bs : List (BitVec v)) : BitVec w := bs.foldl (feed p) seed

/-- A message may be fed in pieces. -/
theorem divide_append (p seed : BitVec w) (as bs : List (BitVec v)) :
    divide p seed (as ++ bs) = divide p (divide p seed as) bs := List.foldl_append

/-- **One shift multiplies by `X`** and reduces. -/
theorem poly_step (p r : BitVec w) : poly (step p r) = (poly r * X) %ₘ modulus p := by
  have hshift := poly_shiftLeft_one r
  refine ((div_modByMonic_unique (if r.msb then 1 else 0) (poly (step p r)) (modulus_monic p)
    ⟨?_, ?_⟩).2).symm
  · rw [mul_comm (poly r), ← hshift]
    unfold step modulus
    by_cases hr : r.msb
    · -- fed back twice, `p` cancels
      have hp : poly p + poly p = 0 := CharTwo.add_self_eq_zero _
      rw [if_pos hr, if_pos hr, if_pos hr, poly_xor]
      linear_combination hp
    · rw [if_neg hr, if_neg hr, if_neg hr, mul_zero]
  · rw [degree_modulus]
    exact poly_degree_lt _

theorem poly_steps (p : BitVec w) (n : Nat) :
    ∀ r : BitVec w, poly (steps p n r) = (poly r * X ^ n) %ₘ modulus p := by
  induction n with
  | zero =>
      intro r
      rw [pow_zero, mul_one, poly_mod]
      rfl
  | succ n ih =>
      intro r
      have hmod := mod_mul_add (modulus_monic p) (poly r * X) (X ^ n) 0
      rw [add_zero, add_zero] at hmod
      rw [steps, ih, poly_step, hmod, mul_assoc, ← pow_succ']

/-- **A digit fed** is a digit of the dividend: `v` places up for what is in the register, the digit itself
    above the register. -/
theorem poly_feed (hv : v ≤ w) (p r : BitVec w) (b : BitVec v) :
    poly (feed p r b) = (poly r * X ^ v + poly b * X ^ w) %ₘ modulus p := by
  have hpow : (X : (ZMod 2)[X]) ^ (w - v) * X ^ v = X ^ w := by
    rw [← pow_add, Nat.sub_add_cancel hv]
  rw [feed, poly_steps, poly_xor, poly_shiftLeft_setWidth hv, add_mul, mul_assoc, hpow]

/-- The polynomial of a message of `v`-bit digits, most significant first. -/
noncomputable def message : List (BitVec v) → (ZMod 2)[X]
  | [] => 0
  | b :: bs => poly b * X ^ (v * bs.length) + message bs

/-- **The register divides**: after a message it holds the remainder of the seed and the message behind it,
    both moved up by what is still to come. -/
theorem poly_divide (hv : v ≤ w) (p : BitVec w) (bs : List (BitVec v)) :
    ∀ seed : BitVec w, poly (divide p seed bs) =
      (poly seed * X ^ (v * bs.length) + message bs * X ^ w) %ₘ modulus p := by
  induction bs with
  | nil =>
      intro seed
      rw [List.length_nil, mul_zero, pow_zero, mul_one, message, zero_mul, add_zero, poly_mod]
      rfl
  | cons b bs ih =>
      intro seed
      have hpow : (X : (ZMod 2)[X]) ^ (v * (b :: bs).length) = X ^ v * X ^ (v * bs.length) := by
        rw [← pow_add, List.length_cons]
        congr 1
        ring
      have hstep : divide p seed (b :: bs) = divide p (feed p seed b) bs := rfl
      rw [hstep, ih, poly_feed hv, mod_mul_add (modulus_monic p), hpow, message]
      congr 1
      ring

end Gf2
