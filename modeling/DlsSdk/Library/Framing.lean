import Mathlib.Data.List.Basic

/-!
# `Library.Framing` — a stream of self-delimiting frames

A stream of symbols in which the first symbol `x` of a frame says how many follow it (`more x`). `split`
cuts the stream the way a specification does: at the front, one whole frame at a time. `push` is what a
machine does that gets the symbols one by one: it collects them until the frame is complete.

* `split_snoc` — one more symbol at the end of the stream is one `push`;
* `split_flatten` — the frames and the unfinished rest are the stream: nothing is lost, merged or split;
* `split_flatten_of_complete` — whole frames put one behind the other are found again.
-/

namespace Framing

variable {α : Type} (more : α → Nat)

/-- The symbols are one whole frame. -/
def Complete : List α → Prop
  | [] => False
  | x :: xs => xs.length = more x

instance : (s : List α) → Decidable (Complete more s)
  | [] => inferInstanceAs (Decidable False)
  | _ :: _ => inferInstanceAs (Decidable (_ = _))

/-- No complete frame is the beginning of another one. -/
theorem Complete.prefix_free {more : α → Nat} {f g s s' : List α} (hf : Complete more f)
    (hg : Complete more g) (h : f ++ s = g ++ s') : f = g ∧ s = s' := by
  cases f with
  | nil => exact hf.elim
  | cons x xs =>
      cases g with
      | nil => exact hg.elim
      | cons y ys =>
          obtain ⟨rfl, htail⟩ := List.cons.inj h
          have hx : xs.length = more x := hf
          have hy : ys.length = more x := hg
          obtain ⟨rfl, rfl⟩ := List.append_inj htail (hx.trans hy.symm)
          exact ⟨rfl, rfl⟩

/-- **Reference splitting**: the complete frames of the stream, in order, and the unfinished rest. -/
def split : List α → List (List α) × List α
  | [] => ([], [])
  | x :: xs =>
      if more x ≤ xs.length then
        let s := split (xs.drop (more x))
        ((x :: xs.take (more x)) :: s.1, s.2)
      else ([], x :: xs)
termination_by s => s.length
decreasing_by
  simp only [List.length_drop, List.length_cons]
  omega

/-- One more symbol for the frame that is being collected. -/
def push (s : List (List α) × List α) (x : α) : List (List α) × List α :=
  if Complete more (s.2 ++ [x]) then (s.1 ++ [s.2 ++ [x]], []) else (s.1, s.2 ++ [x])

variable {more}

theorem split_nil : split more [] = ([], []) := by rw [split]

theorem split_cons_of_le {x : α} {xs : List α} (h : more x ≤ xs.length) :
    split more (x :: xs) = ((x :: xs.take (more x)) :: (split more (xs.drop (more x))).1,
      (split more (xs.drop (more x))).2) := by
  rw [split, if_pos h]

theorem split_cons_of_lt {x : α} {xs : List α} (h : xs.length < more x) :
    split more (x :: xs) = ([], x :: xs) := by
  rw [split, if_neg (by omega)]

/-- Pushing onto a later frame does not touch the frames before it. -/
theorem push_cons (f : List α) (s : List (List α) × List α) (x : α) :
    push more (f :: s.1, s.2) x = (f :: (push more s x).1, (push more s x).2) := by
  unfold push
  by_cases h : Complete more (s.2 ++ [x])
  · rw [if_pos h, if_pos h, List.cons_append]
  · rw [if_neg h, if_neg h]

/-- **One symbol at a time is as good as one frame at a time.** -/
theorem split_snoc (s : List α) (x : α) : split more (s ++ [x]) = push more (split more s) x := by
  induction s using split.induct more with
  | case1 =>
      rw [List.nil_append, split_nil]
      by_cases h : more x ≤ 0
      · have hc : Complete more ([] ++ [x]) := show 0 = more x by omega
        rw [split_cons_of_le h, push, if_pos hc, List.take_nil, List.drop_nil, split_nil]
        rfl
      · have hc : ¬ Complete more ([] ++ [x]) := show ¬ 0 = more x by omega
        rw [split_cons_of_lt (Nat.lt_of_not_le h), push, if_neg hc]
        rfl
  | case2 y ys h ih =>
      -- the first frame is complete without the symbol, which goes to what follows it
      have h' : more y ≤ (ys ++ [x]).length := by
        rw [List.length_append]
        omega
      rw [List.cons_append, split_cons_of_le h', split_cons_of_le h, push_cons,
        List.take_append_of_le_length h, List.drop_append_of_le_length h, ih]
  | case3 y ys h =>
      -- the rest is one unfinished frame, and the symbol may complete it
      have hlt : ys.length < more y := by omega
      rw [List.cons_append, split_cons_of_lt hlt, push]
      by_cases hc : Complete more ((y :: ys) ++ [x])
      · have hlen : (ys ++ [x]).length = more y := hc
        rw [if_pos hc, split_cons_of_le (Nat.le_of_eq hlen.symm), ← hlen, List.take_length,
          List.drop_length, split_nil]
        rfl
      · have hlen : (ys ++ [x]).length < more y := by
          have hne : (ys ++ [x]).length ≠ more y := hc
          rw [List.length_append, List.length_singleton] at hne ⊢
          omega
        rw [if_neg hc, split_cons_of_lt hlen]
        rfl

/-- The frames and the rest, put together again, are the stream. -/
theorem split_flatten (s : List α) : (split more s).1.flatten ++ (split more s).2 = s := by
  induction s using split.induct more with
  | case1 => rw [split_nil]; rfl
  | case2 x xs h ih =>
      rw [split_cons_of_le h, List.flatten_cons, List.append_assoc, ih, List.cons_append,
        List.take_append_drop]
  | case3 x xs h => rw [split_cons_of_lt (by omega)]; rfl

/-- The rest is unfinished. -/
theorem split_rest (s : List α) : ∀ x xs, (split more s).2 = x :: xs → xs.length < more x := by
  induction s using split.induct more with
  | case1 =>
      intro x xs h
      rw [split_nil] at h
      exact absurd h (by simp)
  | case2 y ys hle ih =>
      intro x xs h
      rw [split_cons_of_le hle] at h
      exact ih x xs h
  | case3 y ys hlt =>
      intro x xs h
      rw [split_cons_of_lt (by omega)] at h
      obtain ⟨rfl, rfl⟩ := List.cons.inj h
      omega

/-- The frames are complete. -/
theorem split_complete (s : List α) : ∀ f ∈ (split more s).1, Complete more f := by
  induction s using split.induct more with
  | case1 =>
      intro f hf
      rw [split_nil] at hf
      exact absurd hf List.not_mem_nil
  | case2 x xs hle ih =>
      intro f hf
      rw [split_cons_of_le hle] at hf
      rcases List.mem_cons.mp hf with rfl | hmem
      · exact List.length_take_of_le hle
      · exact ih f hmem
  | case3 x xs hlt =>
      intro f hf
      rw [split_cons_of_lt (by omega)] at hf
      exact absurd hf List.not_mem_nil

/-- Only the lengths that the first symbols of the frames announce matter. -/
theorem split_congr {more' : α → Nat} (s : List α)
    (h : ∀ f ∈ (split more s).1 ++ [(split more s).2], ∀ x ∈ f.head?, more' x = more x) :
    split more' s = split more s := by
  induction s using split.induct more with
  | case1 => rw [split_nil, split_nil]
  | case2 x xs hle ih =>
      rw [split_cons_of_le hle] at h ⊢
      have hx : more' x = more x := h _ (List.mem_append_left _ List.mem_cons_self) x rfl
      have hrest : split more' (xs.drop (more x)) = split more (xs.drop (more x)) := by
        apply ih
        intro f hf
        rcases List.mem_append.mp hf with hm | hm
        · exact h f (List.mem_append_left _ (List.mem_cons_of_mem _ hm))
        · exact h f (List.mem_append_right _ hm)
      rw [split_cons_of_le (by rw [hx]; exact hle), hx, hrest]
  | case3 x xs hlt =>
      have hlt' : xs.length < more x := Nat.lt_of_not_le hlt
      rw [split_cons_of_lt hlt'] at h ⊢
      have hx : more' x = more x := h _ (List.mem_append_right _ (List.mem_singleton_self _)) x rfl
      exact split_cons_of_lt (by rw [hx]; exact hlt')

/-- **Round trip**: frames put one behind the other are found again. -/
theorem split_flatten_of_complete {fs : List (List α)} (h : ∀ f ∈ fs, Complete more f) :
    split more fs.flatten = (fs, []) := by
  induction fs with
  | nil => exact split_nil
  | cons f fs ih =>
      have hf : Complete more f := h f List.mem_cons_self
      have hfs := ih (fun g hg => h g (List.mem_cons_of_mem _ hg))
      cases f with
      | nil => exact hf.elim
      | cons x xs =>
          have hlen : xs.length = more x := hf
          have hle : more x ≤ (xs ++ fs.flatten).length := by
            rw [List.length_append]
            omega
          rw [List.flatten_cons, List.cons_append, split_cons_of_le hle, ← hlen, List.take_left',
            List.drop_left', hfs] <;> rfl

end Framing
