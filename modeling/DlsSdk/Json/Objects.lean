import DlsSdk.Json.Parser
import DlsSdk.Json.Grammar

/-!
# `Json.Objects` — the map that an object is read into

`parse_object` enters the members in their order, each with `emplace` and an assignment. What that leaves is the
map of the members (`mapOf_entered`), and there is no other (`MapOf.unique`): in the order of the keys, and with
the last value of each.
-/

namespace DlsSdk

namespace Json

variable {key : String} {v : Value} {ms pairs pairs' : List (String × Value)}

/-! ## The order of the keys -/

theorem keyLt_iff {a b : String} : keyLt a b = true ↔ a.toList < b.toList := decide_eq_true_iff

/-- Of two keys neither before the other, there is one. -/
theorem eq_of_not_keyLt {a b : String} (h : ¬ keyLt a b = true) (h' : ¬ keyLt b a = true) : a = b := by
  rw [keyLt_iff] at h h'
  exact String.toList_inj.mp (List.le_antisymm h' h)

theorem ne_of_lt {a b : String} (h : a.toList < b.toList) : a ≠ b := by
  rintro rfl
  exact List.lt_irrefl _ h

theorem sorted_nil : Sorted [] := List.Pairwise.nil

theorem sorted_cons {p : String × Value} :
    Sorted (p :: pairs) ↔ (∀ q ∈ pairs, p.1.toList < q.1.toList) ∧ Sorted pairs := List.pairwise_cons

/-- There is nothing before the first key. -/
theorem lookup_below (h : ∀ p ∈ pairs, key.toList < p.1.toList) : pairs.lookup key = none := by
  induction pairs with
  | nil => rfl
  | cons p pairs ih =>
      obtain ⟨hp, hpairs⟩ := List.forall_mem_cons.mp h
      rw [List.lookup_cons, beq_eq_false_iff_ne.mpr (ne_of_lt hp)]
      exact ih hpairs

/-- The first key is not behind any key of a map that has the same values. -/
theorem Sorted.first_le {p q : String × Value} (hp : Sorted (p :: pairs))
    (heq : (p :: pairs).lookup q.1 = (q :: pairs').lookup q.1) : ¬ q.1.toList < p.1.toList := by
  intro hlt
  have hnone : (p :: pairs).lookup q.1 = none := by
    refine lookup_below (List.forall_mem_cons.mpr ⟨hlt, fun r hr => ?_⟩)
    exact List.lt_trans hlt ((sorted_cons.mp hp).1 r hr)
  rw [hnone, List.lookup_cons_self] at heq
  cases heq

/-- **Two maps with the same values are the same.** -/
theorem Sorted.ext (h : Sorted pairs) (h' : Sorted pairs')
    (heq : ∀ key, pairs.lookup key = pairs'.lookup key) : pairs = pairs' := by
  induction pairs generalizing pairs' with
  | nil =>
      cases pairs' with
      | nil => rfl
      | cons q pairs' =>
          have hq := heq q.1
          rw [List.lookup_nil, List.lookup_cons_self] at hq
          cases hq
  | cons p pairs ih =>
      cases pairs' with
      | nil =>
          have hp := heq p.1
          rw [List.lookup_nil, List.lookup_cons_self] at hp
          cases hp
      | cons q pairs' =>
          obtain ⟨hp, hpairs⟩ := sorted_cons.mp h
          obtain ⟨hq, hpairs'⟩ := sorted_cons.mp h'
          have hkey : p.1 = q.1 :=
            String.toList_inj.mp (List.le_antisymm (h.first_le (heq q.1)) (h'.first_le (heq p.1).symm))
          obtain ⟨k, v⟩ := p
          obtain ⟨k', v'⟩ := q
          obtain rfl : k = k' := hkey
          have hvalue := heq k
          rw [List.lookup_cons_self, List.lookup_cons_self] at hvalue
          rw [Option.some.inj hvalue, ih hpairs hpairs' fun key => ?_]
          by_cases hk : key = k
          · rw [hk, lookup_below hp, lookup_below hq]
          · have hrest := heq key
            rw [List.lookup_cons, List.lookup_cons, beq_eq_false_iff_ne.mpr hk] at hrest
            exact hrest

/-! ## One member -/

/-- A member is entered, or its value replaces another one. -/
theorem mem_emplace {p : String × Value} (h : p ∈ emplace key v pairs) : p = (key, v) ∨ p ∈ pairs := by
  induction pairs with
  | nil => exact .inl (List.mem_singleton.mp h)
  | cons q pairs ih =>
      rw [emplace] at h
      split at h
      · exact (List.mem_cons.mp h)
      · split at h
        · obtain rfl | h := List.mem_cons.mp h
          · exact .inr List.mem_cons_self
          · exact (ih h).imp_right (List.mem_cons_of_mem q)
        · exact (List.mem_cons.mp h).imp_right (List.mem_cons_of_mem q)

theorem emplace_ne_nil : emplace key v pairs ≠ [] := by
  cases pairs with
  | nil => exact List.cons_ne_nil _ _
  | cons p pairs =>
      rw [emplace]
      split
      · exact List.cons_ne_nil _ _
      · split <;> exact List.cons_ne_nil _ _

/-- The order is kept. -/
theorem sorted_emplace (h : Sorted pairs) : Sorted (emplace key v pairs) := by
  induction pairs with
  | nil => exact List.pairwise_singleton _ _
  | cons q pairs ih =>
      obtain ⟨hq, hpairs⟩ := sorted_cons.mp h
      rw [emplace]
      split
      · next hkey =>
          refine sorted_cons.mpr ⟨fun p hp => ?_, h⟩
          obtain rfl | hp := List.mem_cons.mp hp
          · exact keyLt_iff.mp hkey
          · exact List.lt_trans (keyLt_iff.mp hkey) (hq p hp)
      · next hkey =>
          split
          · next hkey' =>
              refine sorted_cons.mpr ⟨fun p hp => ?_, ih hpairs⟩
              obtain rfl | hp := mem_emplace hp
              · exact keyLt_iff.mp hkey'
              · exact hq p hp
          · next hkey' =>
              obtain rfl : key = q.1 := eq_of_not_keyLt hkey hkey'
              exact sorted_cons.mpr ⟨hq, hpairs⟩

/-- **What is entered is found**, and the other keys are as before. -/
theorem lookup_emplace (h : Sorted pairs) (k : String) :
    (emplace key v pairs).lookup k = if k = key then some v else pairs.lookup k := by
  induction pairs with
  | nil =>
      by_cases hk : k = key
      · simp [emplace, hk]
      · rw [emplace, if_neg hk, List.lookup_cons, beq_eq_false_iff_ne.mpr hk]
  | cons p pairs ih =>
      obtain ⟨hp, hpairs⟩ := sorted_cons.mp h
      by_cases hk : k = key
      · subst hk
        rw [emplace, if_pos rfl]
        split
        · exact List.lookup_cons_self
        · split
          · next hlt =>
              -- the pair in front has a smaller key
              have hne : (k == p.1) = false := beq_eq_false_iff_ne.mpr (ne_of_lt (keyLt_iff.mp hlt)).symm
              rw [List.lookup_cons, hne, ih hpairs, if_pos rfl]
          · exact List.lookup_cons_self
      · have hne : (k == key) = false := beq_eq_false_iff_ne.mpr hk
        rw [emplace, if_neg hk]
        split
        · rw [List.lookup_cons, hne]
        · split
          · rw [List.lookup_cons, List.lookup_cons, ih hpairs, if_neg hk]
          · next hlt hgt =>
              obtain rfl : key = p.1 := eq_of_not_keyLt hlt hgt
              rw [List.lookup_cons, List.lookup_cons, hne]

/-! ## All of them -/

/-- The members of an object, entered into a map one after the other. -/
def entered (ms pairs : List (String × Value)) : List (String × Value) :=
  ms.foldl (fun elements p => emplace p.1 p.2 elements) pairs

theorem entered_cons (p : String × Value) (ms pairs : List (String × Value)) :
    entered (p :: ms) pairs = entered ms (emplace p.1 p.2 pairs) := rfl

theorem sorted_entered (h : Sorted pairs) : Sorted (entered ms pairs) := by
  induction ms generalizing pairs with
  | nil => exact h
  | cons p ms ih => exact ih (sorted_emplace h)

/-- Of the members with one key the last one is found. -/
theorem lookup_entered (h : Sorted pairs) (k : String) :
    (entered ms pairs).lookup k = (ms.reverse.lookup k).or (pairs.lookup k) := by
  induction ms generalizing pairs with
  | nil => rfl
  | cons p ms ih =>
      have hsorted : Sorted (emplace p.1 p.2 pairs) := sorted_emplace h
      rw [entered_cons, ih hsorted, lookup_emplace h, List.reverse_cons, List.lookup_append, Option.or_assoc]
      by_cases hk : k = p.1
      · rw [if_pos hk, hk, List.lookup_cons_self]
        rfl
      · rw [if_neg hk, List.lookup_cons, beq_eq_false_iff_ne.mpr hk]
        rfl

/-- **What the loop enters is the map of the members.** -/
theorem mapOf_entered (ms : List (String × Value)) : MapOf ms (entered ms []) where
  sorted := sorted_entered sorted_nil
  last key := by rw [lookup_entered sorted_nil, List.lookup_nil, Option.or_none]

theorem MapOf.unique (h : MapOf ms pairs) (h' : MapOf ms pairs') : pairs = pairs' :=
  h.sorted.ext h'.sorted fun key => by rw [h.last, h'.last]

theorem MapOf.eq_entered (h : MapOf ms pairs) : entered ms [] = pairs := (mapOf_entered ms).unique h

/-- A map read backwards has the same values. -/
theorem lookup_reverse (h : Sorted pairs) (k : String) : pairs.reverse.lookup k = pairs.lookup k := by
  induction pairs with
  | nil => rfl
  | cons p pairs ih =>
      obtain ⟨hp, hpairs⟩ := sorted_cons.mp h
      rw [List.reverse_cons, List.lookup_append, ih hpairs, List.lookup_cons]
      by_cases hk : k = p.1
      · rw [hk, lookup_below hp, List.lookup_cons_self, beq_self_eq_true]
        rfl
      · rw [List.lookup_cons, beq_eq_false_iff_ne.mpr hk]
        exact Option.or_none

/-- A map is the map of its own pairs. -/
theorem Sorted.mapOf (h : Sorted pairs) : MapOf pairs pairs := ⟨h, fun key => (lookup_reverse h key).symm⟩

end Json

end DlsSdk
