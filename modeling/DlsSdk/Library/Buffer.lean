import Mathlib.Data.List.GetD

/-!
# `Library.Buffer` — fixed buffers that are filled from the front, and block copies into them

* `Holds v l z` — the buffer `v` starts with the list `l` and has the filler `z` behind it, as after a
  `memset` and one store per element of `l`; reads of it are reads of `l` with `z` as the default;
* `blit v pos l` — a block copy; inside the buffer it replaces a segment (`blit_toList`), and what lies
  behind the end of the buffer is not part of it.
-/

namespace Buffer

variable {α : Type} {n : Nat}

/-- The buffer holds `l` at its front, and `z` everywhere behind it. -/
def Holds (v : Vector α n) (l : List α) (z : α) : Prop :=
  l.length ≤ n ∧ v.toList = l ++ List.replicate (n - l.length) z

theorem Holds.length_le {v : Vector α n} {l : List α} {z : α} (h : Holds v l z) : l.length ≤ n := h.1

/-- A cleared buffer holds nothing. -/
theorem Holds.clear (z : α) : Holds (Vector.replicate n z) [] z := by
  refine ⟨Nat.zero_le n, ?_⟩
  rw [Vector.toList_replicate, List.nil_append, List.length_nil, Nat.sub_zero]

/-- Storing at the first free place appends. -/
theorem Holds.push {v : Vector α n} {l : List α} {z : α} (h : Holds v l z) (hl : l.length < n) (x : α) :
    Holds (v.setIfInBounds l.length x) (l ++ [x]) z := by
  obtain ⟨_, hv⟩ := h
  refine ⟨by rw [List.length_append, List.length_singleton]; omega, ?_⟩
  have hrep : n - l.length = (n - (l ++ [x]).length) + 1 := by
    rw [List.length_append, List.length_singleton]
    omega
  rw [Vector.toList_setIfInBounds, hv, hrep, List.replicate_succ,
    List.set_append_right _ _ (Nat.le_refl _), Nat.sub_self, List.set_cons_zero, List.append_assoc,
    List.singleton_append]

/-- Reading a place of the buffer. -/
theorem Holds.get {v : Vector α n} {l : List α} {z : α} (h : Holds v l z) {i : Nat} (hi : i < n) :
    v[i] = l.getD i z := by
  obtain ⟨hle, hv⟩ := h
  have hlen : i < v.toList.length := by
    rw [Vector.length_toList]
    exact hi
  have hget : v[i] = v.toList[i] := by rw [Vector.getElem_toList]
  rw [hget]
  simp only [hv]
  by_cases hil : i < l.length
  · rw [List.getElem_append_left hil, List.getD_eq_getElem _ _ hil]
  · rw [List.getElem_append_right (by omega), List.getElem_replicate,
      List.getD_eq_default _ _ (by omega)]

/-- Reading off the part that is held. -/
theorem Holds.take {v : Vector α n} {l : List α} {z : α} (h : Holds v l z) :
    v.toList.take l.length = l := by
  rw [h.2, List.take_left']
  rfl

/-! ## Block copies -/

/-- `l` copied to the place `pos` and the following ones, as far as the buffer reaches. -/
def blit (v : Vector α n) (pos : Nat) (l : List α) : Vector α n :=
  Vector.ofFn fun i => if pos ≤ i.val then l.getD (i.val - pos) v[i] else v[i]

/-- **Inside the buffer a block copy replaces a segment.** -/
theorem blit_toList {v : Vector α n} {pos : Nat} {l : List α} (h : pos + l.length ≤ n) :
    (blit v pos l).toList = v.toList.take pos ++ l ++ v.toList.drop (pos + l.length) := by
  apply List.ext_getElem
  · simp only [Vector.length_toList, List.length_append, List.length_take, List.length_drop]
    omega
  · intro i h1 h2
    have hi : i < n := by
      rw [Vector.length_toList] at h1
      exact h1
    rw [Vector.getElem_toList]
    simp only [blit, Vector.getElem_ofFn, List.append_assoc]
    by_cases hp : pos ≤ i
    · rw [if_pos hp, List.getElem_append_right (by rw [List.length_take, Vector.length_toList]; omega)]
      simp only [List.length_take, Vector.length_toList, show min pos n = pos by omega]
      by_cases hl : i - pos < l.length
      · rw [List.getD_eq_getElem _ _ hl, List.getElem_append_left hl]
      · -- behind the segment
        rw [List.getD_eq_default _ _ (by omega), List.getElem_append_right (by omega),
          List.getElem_drop, Vector.getElem_toList]
        have hidx : pos + l.length + (i - pos - l.length) = i := by omega
        simp only [hidx]
        rfl
    · -- before the segment
      have ht : i < (v.toList.take pos).length := by
        rw [List.length_take, Vector.length_toList]
        omega
      rw [if_neg hp, List.getElem_append_left ht, List.getElem_take, Vector.getElem_toList]
      rfl

end Buffer
