import Mathlib.Data.List.TakeWhile

/-!
# `Library.ByteString` — strings of bytes

A C string is a sequence of bytes. Here a byte is the character of the same number, so every list of bytes
is a string (`ofBytes`), and the strings of bytes (`Narrow`) are those whose characters are below 256.
A `CString` holds no NUL besides; `cstr` is what C reads at the start of a block of memory.
-/

namespace ByteString

/-- The bytes of a string. -/
def bytes (s : String) : List UInt8 := s.toList.map Char.toUInt8

/-- The string of some bytes. -/
def ofBytes (l : List UInt8) : String := String.ofList (l.map Char.ofUInt8)

/-- Every character is a byte. -/
def Narrow (s : String) : Prop := ∀ c ∈ s.toList, c.toNat < 256

instance : DecidablePred Narrow := fun s => List.decidableBAll (fun c : Char => c.toNat < 256) s.toList

theorem toUInt8_ofUInt8 (b : UInt8) : (Char.ofUInt8 b).toUInt8 = b :=
  UInt8.toUInt8_toUInt32 b

theorem toNat_ofUInt8 (b : UInt8) : (Char.ofUInt8 b).toNat = b.toNat := UInt8.toNat_toUInt32 b

theorem toNat_toUInt8 {c : Char} (hc : c.toNat < 256) : c.toUInt8.toNat = c.toNat :=
  (UInt32.toNat_toUInt8 c.val).trans (Nat.mod_eq_of_lt hc)

theorem ofUInt8_toUInt8 {c : Char} (hc : c.toNat < 256) : Char.ofUInt8 c.toUInt8 = c := by
  apply Char.toNat_inj.mp
  rw [toNat_ofUInt8, toNat_toUInt8 hc]

@[simp] theorem toList_ofBytes (l : List UInt8) : (ofBytes l).toList = l.map Char.ofUInt8 :=
  String.toList_ofList

@[simp] theorem bytes_ofBytes (l : List UInt8) : bytes (ofBytes l) = l := by
  rw [bytes, toList_ofBytes, List.map_map]
  exact List.map_id'' toUInt8_ofUInt8 l

theorem narrow_ofBytes (l : List UInt8) : Narrow (ofBytes l) := by
  intro c hc
  rw [toList_ofBytes] at hc
  obtain ⟨b, -, rfl⟩ := List.mem_map.mp hc
  rw [toNat_ofUInt8]
  exact b.toNat_lt

theorem ofBytes_bytes {s : String} (hs : Narrow s) : ofBytes (bytes s) = s := by
  rw [ofBytes, bytes, List.map_map]
  have hmap : s.toList.map (Char.ofUInt8 ∘ Char.toUInt8) = s.toList :=
    (List.map_congr_left fun c hc => ofUInt8_toUInt8 (hs c hc)).trans (List.map_id _)
  rw [hmap, String.ofList_toList]

@[simp] theorem length_bytes (s : String) : (bytes s).length = s.toList.length := List.length_map _

/-! ## C strings -/

/-- A string of bytes without NUL. -/
structure CString (s : String) : Prop where
  narrow : Narrow s
  noNul : 0 ∉ bytes s

instance : DecidablePred CString := fun s =>
  decidable_of_iff (Narrow s ∧ 0 ∉ bytes s) ⟨fun h => ⟨h.1, h.2⟩, fun h => ⟨h.1, h.2⟩⟩

/-- The string at the start of a block of memory; without a NUL the read leaves the block. -/
def cstr (block : List UInt8) : Option String :=
  if 0 ∈ block then some (ofBytes (block.takeWhile (· != 0))) else none

/-- A NUL ends the string, if none before it does. -/
theorem cstr_append_zero (l junk : List UInt8) :
    cstr (l ++ 0 :: junk) = some (ofBytes (l.takeWhile (· != 0))) := by
  rw [cstr, if_pos (by simp), List.takeWhile_append]
  split
  · rename_i hall
    rw [List.takeWhile_cons_of_neg (by decide), List.append_nil]
    exact congrArg (fun l => some (ofBytes l)) ((List.takeWhile_prefix _).eq_of_length hall).symm
  · rfl

theorem CString.takeWhile_bytes {s : String} (hs : CString s) :
    (bytes s).takeWhile (· != 0) = bytes s := by
  rw [List.takeWhile_eq_self_iff]
  intro b hb
  rw [bne_iff_ne]
  rintro rfl
  exact hs.noNul hb

theorem cstr_terminated {s : String} (hs : CString s) (junk : List UInt8) :
    cstr (bytes s ++ 0 :: junk) = some s := by
  rw [cstr_append_zero, hs.takeWhile_bytes, ofBytes_bytes hs.narrow]

/-- What is read holds no NUL. -/
theorem cstring_takeWhile (l : List UInt8) : CString (ofBytes (l.takeWhile (· != 0))) where
  narrow := narrow_ofBytes _
  noNul h := by
    rw [bytes_ofBytes] at h
    have hne := List.mem_takeWhile_imp h
    simp at hne

/-- What is read is a C string, and its NUL is behind it. -/
theorem cstr_eq_some {block : List UInt8} {s : String} :
    cstr block = some s ↔ CString s ∧ ∃ junk, block = bytes s ++ 0 :: junk := by
  constructor
  · intro h
    by_cases hmem : 0 ∈ block
    · rw [cstr, if_pos hmem] at h
      obtain rfl := Option.some.inj h
      have hs := cstring_takeWhile block
      have hno := hs.noNul
      refine ⟨hs, ?_⟩
      rw [bytes_ofBytes] at hno ⊢
      -- the NUL is where `takeWhile` stops
      have hsplit := List.takeWhile_append_dropWhile (p := (· != 0)) (l := block)
      cases hdrop : block.dropWhile (· != 0) with
      | nil =>
          rw [hdrop, List.append_nil] at hsplit
          rw [hsplit] at hno
          exact absurd hmem hno
      | cons b junk =>
          have hb := List.head_dropWhile_not (· != 0) (by rw [hdrop]; simp : block.dropWhile (· != 0) ≠ [])
          simp only [hdrop, List.head_cons, bne_eq_false_iff_eq] at hb
          rw [hdrop, hb] at hsplit
          exact ⟨junk, hsplit.symm⟩
    · rw [cstr, if_neg hmem] at h
      exact absurd h (by simp)
  · rintro ⟨hs, junk, rfl⟩
    exact cstr_terminated hs junk

theorem cstr_eq_none {block : List UInt8} : cstr block = none ↔ 0 ∉ block := by
  unfold cstr
  by_cases h : 0 ∈ block <;> simp [h]

end ByteString
