import Mathlib.Data.BitVec

/-!
# `Library.BitField` — fields of a flag word

A field is a mask, its value in a word `x` is `x &&& m`. Two fields are `Apart` if their masks share no bit;
setting bits of one (`x ||| v`) or clearing it (`x &&& ~~~n`) is then invisible in the other, and these are the
rules by which a value is followed through a sequence of such assignments.
-/

namespace BitField

variable {w : Nat} {x v m n : BitVec w}

/-- No bit in common. -/
def Apart (m n : BitVec w) : Prop := m &&& n = 0#w

instance : Decidable (Apart m n) := inferInstanceAs (Decidable (_ = _))

theorem Apart.symm (h : Apart m n) : Apart n m := (BitVec.and_comm n m).trans h

/-- A value within a field is apart from what the field is apart from. -/
theorem Apart.of_within (h : Apart m n) (hv : v &&& m = v) : Apart v n := by
  unfold Apart at h ⊢
  rw [← hv, BitVec.and_assoc, h, BitVec.and_zero]

theorem Apart.or (hm : Apart m x) (hn : Apart n x) : Apart (m ||| n) x := by
  unfold Apart at hm hn ⊢
  rw [BitVec.and_or_distrib_right, hm, hn, BitVec.or_zero]

/-- Bits set elsewhere are not seen. -/
theorem read_or (h : Apart v m) : (x ||| v) &&& m = x &&& m := by
  rw [BitVec.and_or_distrib_right, h, BitVec.or_zero]

/-- Bits set here are added. -/
theorem read_or_within (h : v &&& m = v) : (x ||| v) &&& m = (x &&& m) ||| v := by
  rw [BitVec.and_or_distrib_right, h]

/-- A full field stays full. -/
theorem full_or (h : x &&& m = m) : (x ||| v) &&& m = m := by
  rw [BitVec.and_or_distrib_right, h]
  apply BitVec.eq_of_getLsbD_eq
  intro i _
  rw [BitVec.getLsbD_or, BitVec.getLsbD_and]
  cases m.getLsbD i <;> simp

/-- A field is full once all its bits are set. -/
theorem or_full (h : v &&& m = m) : (x ||| v) &&& m = m := by
  rw [BitVec.or_comm]
  exact full_or h

/-- A field cleared elsewhere is not seen. -/
theorem read_clear (h : Apart n m) : (x &&& ~~~n) &&& m = x &&& m := by
  have hout : ~~~n &&& m = m := by
    apply BitVec.eq_of_getLsbD_eq
    intro i hi
    have hbit : (n &&& m).getLsbD i = (0#w).getLsbD i := congrArg (fun b => b.getLsbD i) h
    rw [BitVec.getLsbD_and, BitVec.getLsbD_zero] at hbit
    rw [BitVec.getLsbD_and, BitVec.getLsbD_not, decide_eq_true hi]
    cases hn : n.getLsbD i <;> cases hm : m.getLsbD i <;> rw [hn, hm] at hbit
    · rfl
    · rfl
    · rfl
    · exact absurd hbit (by decide)
  rw [BitVec.and_assoc, hout]

/-- A field cleared here is empty. -/
theorem read_clear_self : (x &&& ~~~m) &&& m = 0#w := by
  have hout : ~~~m &&& m = 0#w := by
    rw [BitVec.and_comm]
    exact BitVec.and_not_self m
  rw [BitVec.and_assoc, hout, BitVec.and_zero]

end BitField
