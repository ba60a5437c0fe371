import DlsSdk.Json.Accepts
import DlsSdk.Json.Stringifier

/-!
# `Json.RoundTrip` — what is written is read back

`parse_stringify`: in every layout without the flags for NaN and infinity, what is written of a value is a text of
ECMA-404, and `parse` reads the value back. Doubles are the exception: NaN and infinity are written as `null`, and
of the others what is written is a numeral with the digits that the stream has left of them, and one without point
and exponent is an integer when it comes back. `stringify_canonical`: of values without doubles, the text written is
a normal form. `readAll_stringify`: values written one after another are read one after another.

A `std::map` holds its pairs in the order of their keys (`Ordered`), and so do the values that `parse` returns
(`parse_ordered`).
-/

namespace DlsSdk

namespace Json

/-! ## Integers -/

theorem digits_toDigits (n : Nat) : Digits (Nat.toDigits 10 n) := by
  intro c hc
  have hdig := Nat.isDigit_of_mem_toDigits (by decide) (by decide) hc
  exact hdig

/-- There is no leading zero. -/
theorem toDigits_head (n : Nat) :
    Nat.toDigits 10 n = ['0'] ∨ ∃ d ds, Nat.toDigits 10 n = d :: ds ∧ d ≠ '0' := by
  by_cases hzero : n = 0
  · exact .inl (hzero ▸ Nat.toDigits_zero 10)
  · right
    induction n using Nat.strongRecOn with
    | ind n ih =>
        by_cases hlt : n < 10
        · exact ⟨_, [], Nat.toDigits_of_lt_base hlt, fun h => hzero (Nat.digitChar_eq_zero.mp h)⟩
        · obtain ⟨d, ds, hds, hd⟩ := ih (n / 10) (by omega) (by omega)
          rw [Nat.toDigits_of_base_le (by decide) (by omega), hds]
          exact ⟨d, _, rfl, hd⟩

/-- The numeral of an integer. -/
def integerNumeral (i : Int64) : Numeral where
  negative := i < 0
  int := Nat.toDigits 10 i.toInt.natAbs
  frac := none
  exp := none

theorem integerNumeral_valid (i : Int64) : (integerNumeral i).Valid where
  int := toDigits_head _
  digits := digits_toDigits _
  frac := fun _ h => by cases h
  exp := fun _ h => by cases h

theorem stringifyInteger_eq (i : Int64) : stringifyInteger i = (integerNumeral i).text := by
  unfold stringifyInteger integerNumeral Numeral.text
  by_cases hneg : i < 0
  · simp [hneg, fracText, expText]
  · simp [hneg, fracText, expText]

theorem integerNumeral_fits (i : Int64) : (integerNumeral i).Fits := ⟨Nat.two_pow_pos 31, Nat.two_pow_pos 31⟩

theorem integerNumeral_value (i : Int64) : (integerNumeral i).value = .integer i := by
  have hvalue : (integerNumeral i).value = .integer (.ofInt (integerNumeral i).integer) := rfl
  have hint : (integerNumeral i).integer = i.toInt := by
    unfold Numeral.integer integerNumeral
    dsimp only
    rw [decimal, Nat.ofDigitChars_ten_toDigits]
    by_cases hneg : i < 0
    · have hlt : i.toInt < 0 := Int64.lt_iff_toInt_lt.mp hneg
      rw [if_pos (decide_eq_true hneg)]
      omega
    · have hle : 0 ≤ i.toInt := Int.not_lt.mp fun h => hneg (Int64.lt_iff_toInt_lt.mpr h)
      rw [if_neg (by rw [decide_eq_true_iff]; exact hneg)]
      omega
  rw [hvalue, hint, Int64.ofInt_toInt]

/-! ## Strings -/

/-- The digits of a control character. -/
theorem hexDigit_control : ∀ n < 32, HexDigit (hex ((n >>> 4) &&& 0xf)) (n / 16) ∧
    HexDigit (hex (n &&& 0xf)) (n % 16) := by decide

/-- **What is written for a character is read as it.** -/
theorem stringText_escape {buffer body : List Char} (h : StringText buffer body) (c : Char) :
    StringText (c :: buffer) (escape c ++ body) := by
  unfold escape
  split
  · next hc =>
      subst hc
      exact .escape (by decide) h
  split
  · next hc =>
      subst hc
      exact .escape (by decide) h
  split
  · next hc =>
      subst hc
      exact .escape (by decide) h
  split
  · next hc =>
      subst hc
      exact .escape (by decide) h
  split
  · next hc =>
      subst hc
      exact .escape (by decide) h
  split
  · next hc =>
      subst hc
      exact .escape (by decide) h
  split
  · next hc =>
      subst hc
      exact .escape (by decide) h
  split
  · next hc =>
      have hlt : c.toNat < 32 := hc
      obtain ⟨h1, h0⟩ := hexDigit_control c.toNat hlt
      have hzero : HexDigit '0' 0 := by decide
      have htext := StringText.unicode hzero hzero h1 h0 h
      have hcode : 0 * 4096 + 0 * 256 + c.toNat / 16 * 16 + c.toNat % 16 = c.toNat := by omega
      have hbytes : codeBytes c.toNat = [c] := by
        rw [← utf8_eq (by omega), utf8, if_pos (by omega), Char.ofNat_toNat]
      rw [hcode, hbytes] at htext
      exact htext
  · next hq hb _ _ _ _ _ hc => exact .char hc hq hb h

theorem stringText_flatMap (s : List Char) : StringText s (s.flatMap escape) := by
  induction s with
  | nil => exact .nil
  | cons c s ih => exact stringText_escape ih c

/-! ## Objects -/

mutual

/-- Every object in the value is in order. -/
def Ordered : Value → Prop
  | .array items => OrderedItems items
  | .object pairs => Sorted pairs ∧ OrderedPairs pairs
  | _ => True

def OrderedItems : List Value → Prop
  | [] => True
  | v :: items => Ordered v ∧ OrderedItems items

def OrderedPairs : List (String × Value) → Prop
  | [] => True
  | (_, v) :: pairs => Ordered v ∧ OrderedPairs pairs

end

theorem orderedPairs_emplace {key : String} {v : Value} {pairs : List (String × Value)} (hv : Ordered v)
    (h : OrderedPairs pairs) : OrderedPairs (emplace key v pairs) := by
  induction pairs with
  | nil => exact ⟨hv, trivial⟩
  | cons q pairs ih =>
      rw [emplace]
      split
      · exact ⟨hv, h⟩
      · split
        · exact ⟨h.1, ih h.2⟩
        · exact ⟨hv, h.2⟩

theorem orderedPairs_entered {ms pairs : List (String × Value)} (hms : OrderedPairs ms) (h : OrderedPairs pairs) :
    OrderedPairs (entered ms pairs) := by
  induction ms generalizing pairs with
  | nil => exact h
  | cons p ms ih => exact ih hms.2 (orderedPairs_emplace hms.1 h)

/-- What is read is in order. -/
def PartOrdered : Part → Prop
  | .value v => Ordered v
  | .elements vs => OrderedItems vs
  | .members ms => OrderedPairs ms

theorem Text.ordered {bounded : Bool} {part : Part} {t : List Char} (h : Text bounded part t) :
    PartOrdered part := by
  induction h with
  | null | boolTrue | boolFalse | string | noElements => trivial
  | number n =>
      show Ordered n.value
      unfold Numeral.value
      split <;> trivial
  | array _ ih => exact ih
  | noMembers => exact ⟨sorted_nil, trivial⟩
  | object _ hp ih =>
      refine ⟨hp.sorted, ?_⟩
      rw [← hp.eq_entered]
      exact orderedPairs_entered ih trivial
  | element _ _ _ ih => exact ⟨ih, trivial⟩
  | elements _ _ _ _ ih ihs => exact ⟨ih, ihs⟩
  | member _ _ _ _ _ _ ih => exact ⟨ih, trivial⟩
  | members _ _ _ _ _ _ _ ih ihs => exact ⟨ih, ihs⟩

/-- **What `parse` returns is in order.** -/
theorem parse_ordered {conf : String} {v : Value} (h : parse conf = .ok v) : Ordered v := by
  obtain ⟨w, t, w', -, ht, -, -⟩ := jsonText_of_parse h
  exact ht.ordered

/-! ## What is read back -/

mutual

/-- A value as it comes back: NaN and infinity as `null`, another double as what its numeral is read as. -/
def readBack (numeral : Float → Numeral) : Value → Value
  | .number x => if x.isNaN then .null else if ¬ x.isFinite then .null else (numeral x).value
  | .array items => .array (readBackItems numeral items)
  | .object pairs => .object (readBackPairs numeral pairs)
  | v => v

def readBackItems (numeral : Float → Numeral) : List Value → List Value
  | [] => []
  | v :: items => readBack numeral v :: readBackItems numeral items

def readBackPairs (numeral : Float → Numeral) : List (String × Value) → List (String × Value)
  | [] => []
  | (key, v) :: pairs => (key, readBack numeral v) :: readBackPairs numeral pairs

end

variable {numeral : Float → Numeral} {L : Layout} {indent : List Char}

/-- The keys stay, and so does their order. -/
theorem sorted_readBack {pairs : List (String × Value)} (h : Sorted pairs) :
    Sorted (readBackPairs numeral pairs) := by
  have hkeys : ∀ pairs, (readBackPairs numeral pairs).map Prod.fst = pairs.map Prod.fst := by
    intro pairs
    induction pairs with
    | nil => rfl
    | cons p pairs ih => exact congrArg (p.1 :: ·) ih
  have hmap : ∀ pairs : List (String × Value),
      Sorted pairs ↔ (pairs.map Prod.fst).Pairwise fun a b => a.toList < b.toList := fun pairs =>
    (List.pairwise_map (f := Prod.fst) (R := fun a b : String => a.toList < b.toList)).symm
  rw [hmap, hkeys, ← hmap]
  exact h

/-- The layout writes ECMA-404. -/
structure Layout.Ecma (L : Layout) : Prop where
  infinity : L.infinityNumber = false
  nan : L.notANumber = false

theorem ws_breakLine (h : Ws indent) : Ws (L.breakLine indent) := by
  unfold Layout.breakLine Layout.getNewline
  split
  · exact ws_nil
  · split
    · exact (ws_nil.cons (by decide)).cons (by decide) |>.append h
    · exact (ws_nil.cons (by decide)).append h

theorem ws_getIndent : Ws L.getIndent := by
  unfold Layout.getIndent
  split
  · intro c hc
    rw [List.eq_of_mem_replicate hc]
    decide
  · split
    · intro c hc
      rw [List.eq_of_mem_replicate hc]
      decide
    · exact ws_nil

/-- The colon has white space behind it, if any. -/
theorem colon_eq : ∃ w, Ws w ∧ L.colon = ':' :: w := by
  unfold Layout.colon
  split
  · exact ⟨[], ws_nil, rfl⟩
  · exact ⟨[' '], ws_nil.cons (by decide), rfl⟩

/-- What the stream writes of a finite double is a numeral of the grammar, with an exponent that fits. -/
def Writes (numeral : Float → Numeral) : Prop :=
  ∀ x : Float, x.isNaN = false → x.isFinite = true → (numeral x).Valid ∧ (numeral x).Fits

theorem text_number (hL : L.Ecma) (hn : Writes numeral) (x : Float) :
    Text true (.value (readBack numeral (.number x))) (stringifyNumber numeral L x) := by
  unfold readBack stringifyNumber
  by_cases hnan : x.isNaN = true
  · rw [if_pos hnan, if_pos hnan, if_pos (by rw [hL.nan]; simp)]
    exact .null
  · rw [if_neg hnan, if_neg hnan]
    by_cases hfinite : x.isFinite = true
    · rw [if_neg (not_not_intro hfinite), if_neg (not_not_intro hfinite)]
      obtain ⟨hvalid, hfits⟩ := hn x (Bool.eq_false_iff.mpr hnan) hfinite
      exact .number _ hvalid fun _ => hfits
    · rw [if_pos hfinite, if_pos hfinite, if_pos (by rw [hL.infinity]; simp)]
      exact .null

/-- A string with its quotes. -/
theorem stringifyString_eq (s : String) : stringifyString s = '"' :: (s.toList.flatMap escape ++ ['"']) := rfl

theorem text_string (s : String) : Text true (.value (.string s)) (stringifyString s) := by
  have htext : Text true (.value (.string (.ofList s.toList))) _ := .string (stringText_flatMap s.toList)
  rw [String.ofList_toList] at htext
  exact htext

mutual

/-- **What is written of a value is a text, of what is read back.** -/
theorem text_value (hL : L.Ecma) (hn : Writes numeral) : ∀ (v : Value) (indent : List Char), Ws indent →
    Ordered v → Text true (.value (readBack numeral v)) (stringifyValue numeral L indent v)
  | .null, _, _, _ => .null
  | .boolean true, _, _, _ => .boolTrue
  | .boolean false, _, _, _ => .boolFalse
  | .number x, _, _, _ => text_number hL hn x
  | .integer i, _, _, _ => by
      have htext : Text true (.value (integerNumeral i).value) (integerNumeral i).text :=
        .number _ (integerNumeral_valid i) fun _ => integerNumeral_fits i
      rw [integerNumeral_value, ← stringifyInteger_eq] at htext
      exact htext
  | .string s, _, _, _ => text_string s
  | .array [], _, _, _ => .noElements ws_nil
  | .array (item :: items), indent, hw, ho => by
      obtain ⟨ts, hts, htext⟩ := text_items hL hn (item :: items) (indent ++ L.getIndent) (L.breakLine indent)
        '[' (hw.append ws_getIndent) (ws_breakLine hw) (List.cons_ne_nil _ _) ho
      rw [stringifyValue, ← List.append_assoc, hts]
      exact .array htext
  | .object [], _, _, _ => .noMembers ws_nil
  | .object (pair :: pairs), indent, hw, ho => by
      obtain ⟨ts, hts, htext⟩ := text_pairs hL hn (pair :: pairs) (indent ++ L.getIndent) (L.breakLine indent)
        '{' (hw.append ws_getIndent) (ws_breakLine hw) (List.cons_ne_nil _ _) ho.2
      have hsorted : Sorted (readBackPairs numeral (pair :: pairs)) := sorted_readBack ho.1
      rw [stringifyValue, ← List.append_assoc, hts]
      exact .object htext hsorted.mapOf

theorem text_items (hL : L.Ecma) (hn : Writes numeral) : ∀ (items : List Value) (indent w : List Char)
    (delim : Char), Ws indent → Ws w → items ≠ [] → OrderedItems items →
    ∃ ts, stringifyItems numeral L indent delim items ++ w = delim :: ts ∧
      Text true (.elements (readBackItems numeral items)) ts
  | [], _, _, _, _, _, hne, _ => absurd rfl hne
  | [item], indent, w, delim, hi, hw, _, ho => by
      have hitem := text_value hL hn item indent hi ho.1
      refine ⟨_, ?_, .element (ws_breakLine (L := L) hi) hitem hw⟩
      simp only [stringifyItems, List.append_nil, List.cons_append, List.append_assoc]
  | item :: item' :: items, indent, w, delim, hi, hw, _, ho => by
      have hitem := text_value hL hn item indent hi ho.1
      obtain ⟨ts, hts, htext⟩ := text_items hL hn (item' :: items) indent w ',' hi hw
        (List.cons_ne_nil _ _) ho.2
      refine ⟨_, ?_, .elements (ws_breakLine (L := L) hi) hitem ws_nil htext⟩
      rw [stringifyItems, List.cons_append, List.append_assoc, List.append_assoc, hts, List.nil_append]

theorem text_pairs (hL : L.Ecma) (hn : Writes numeral) : ∀ (pairs : List (String × Value))
    (indent w : List Char) (delim : Char), Ws indent → Ws w → pairs ≠ [] → OrderedPairs pairs →
    ∃ ts, stringifyPairs numeral L indent delim pairs ++ w = delim :: ts ∧
      Text true (.members (readBackPairs numeral pairs)) ts
  | [], _, _, _, _, _, hne, _ => absurd rfl hne
  | [(key, v)], indent, w, delim, hi, hw, _, ho => by
      have hv := text_value hL hn v indent hi ho.1
      obtain ⟨w2, hw2, hcolon⟩ := colon_eq (L := L)
      have hmember := Text.member (ws_breakLine (L := L) hi) (stringText_flatMap key.toList) ws_nil hw2 hv hw
      rw [String.ofList_toList] at hmember
      refine ⟨_, ?_, hmember⟩
      simp only [stringifyPairs, stringifyString_eq, hcolon, List.append_nil, List.nil_append, List.cons_append,
        List.append_assoc]
  | (key, v) :: pair' :: pairs, indent, w, delim, hi, hw, _, ho => by
      have hv := text_value hL hn v indent hi ho.1
      obtain ⟨w2, hw2, hcolon⟩ := colon_eq (L := L)
      obtain ⟨ts, hts, htext⟩ := text_pairs hL hn (pair' :: pairs) indent w ',' hi hw
        (List.cons_ne_nil _ _) ho.2
      have hmembers := Text.members (ws_breakLine (L := L) hi) (stringText_flatMap key.toList) ws_nil hw2 hv
        ws_nil htext
      rw [String.ofList_toList] at hmembers
      refine ⟨_, ?_, hmembers⟩
      rw [stringifyPairs, stringifyString_eq, hcolon]
      simp only [List.nil_append, List.cons_append, List.append_assoc, hts]

end

theorem jsonText_stringify (hL : L.Ecma) (hn : Writes numeral) {v : Value} (ho : Ordered v) :
    JsonText (readBack numeral v) (stringify numeral L v).toList := by
  refine ⟨[], _, [], ws_nil, text_value hL hn v [] ws_nil ho, ws_nil, ?_⟩
  rw [List.append_nil, List.nil_append, stringify, String.toList_ofList]

/-- **What `stringify` writes of a value, `parse` reads back.** -/
theorem parse_stringify (hL : L.Ecma) (hn : Writes numeral) {v : Value} (ho : Ordered v) :
    parse (stringify numeral L v) = .ok (readBack numeral v) :=
  (jsonText_stringify hL hn ho).parse

/-- The numeral of 1.5, as the stream writes it, and one for every other double. -/
def numeralHalves (x : Float) : Numeral :=
  if x == 1.5 then ⟨false, ['1'], some ['5'], none⟩ else ⟨false, ['0'], none, none⟩

theorem writes_halves : Writes numeralHalves := by
  intro x _ _
  have hdigits : ∀ c ∈ ['0', '1', '5'], c.isDigit = true := List.all_eq_true.mp (by decide)
  have hdigit : ∀ c ∈ ['0', '1', '5'], Digits [c] := fun c hc d hd => List.mem_singleton.mp hd ▸ hdigits c hc
  unfold numeralHalves
  split
  · refine ⟨⟨.inr ⟨'1', [], rfl, by decide⟩, hdigit '1' (by decide), fun ds hds => ?_, fun _ h => (by cases h)⟩,
      ⟨(by decide : 1 < 2 ^ 31), Nat.two_pow_pos 31⟩⟩
    obtain rfl := Option.some.inj hds
    exact ⟨List.cons_ne_nil _ _, hdigit '5' (by decide)⟩
  · exact ⟨⟨.inl rfl, hdigit '0' (by decide), fun _ h => (by cases h), fun _ h => (by cases h)⟩,
      ⟨Nat.two_pow_pos 31, Nat.two_pow_pos 31⟩⟩

/-- A nested value, with a double. -/
theorem parse_stringify_nested :
    parse (stringify numeralHalves { indent := 2 }
      (.object [("a", .array [.integer (-5), .number 1.5, .string "\n"]), ("b", .object [])])) =
        .ok (readBack numeralHalves
          (.object [("a", .array [.integer (-5), .number 1.5, .string "\n"]), ("b", .object [])])) := by
  refine parse_stringify ⟨rfl, rfl⟩ writes_halves ⟨?_, ⟨trivial, trivial, trivial, trivial⟩, ?_, trivial⟩
  · exact List.pairwise_pair.mpr (by decide)
  · exact ⟨sorted_nil, trivial⟩

/-! ## Values without doubles -/

mutual

/-- There is no double in the value. -/
def Exact : Value → Prop
  | .number _ => False
  | .array items => ExactItems items
  | .object pairs => ExactPairs pairs
  | _ => True

def ExactItems : List Value → Prop
  | [] => True
  | v :: items => Exact v ∧ ExactItems items

def ExactPairs : List (String × Value) → Prop
  | [] => True
  | (_, v) :: pairs => Exact v ∧ ExactPairs pairs

end

mutual

theorem readBack_exact : ∀ {v : Value}, Exact v → readBack numeral v = v
  | .null, _ => rfl
  | .boolean _, _ => rfl
  | .integer _, _ => rfl
  | .string _, _ => rfl
  | .array _, h => congrArg Value.array (readBackItems_exact h)
  | .object _, h => congrArg Value.object (readBackPairs_exact h)

theorem readBackItems_exact : ∀ {items : List Value}, ExactItems items → readBackItems numeral items = items
  | [], _ => rfl
  | _ :: _, h => by rw [readBackItems, readBack_exact h.1, readBackItems_exact h.2]

theorem readBackPairs_exact : ∀ {pairs : List (String × Value)}, ExactPairs pairs →
    readBackPairs numeral pairs = pairs
  | [], _ => rfl
  | (_, _) :: _, h => by rw [readBackPairs, readBack_exact h.1, readBackPairs_exact h.2]

end

theorem parse_exact (hL : L.Ecma) (hn : Writes numeral) {v : Value} (ho : Ordered v) (hv : Exact v) :
    parse (stringify numeral L v) = .ok v := by
  have hback := (jsonText_stringify hL hn ho).parse
  rw [readBack_exact hv] at hback
  exact hback

/-- **Writing is canonical.** Two texts that are read as values without doubles are read as the same value exactly
    if these are written alike, and what is written is read as the value again. -/
theorem stringify_canonical (hL : L.Ecma) (hn : Writes numeral) {conf conf' : String} {v v' : Value}
    (h : parse conf = .ok v) (h' : parse conf' = .ok v') (hv : Exact v) (hv' : Exact v') :
    parse (stringify numeral L v) = .ok v ∧
      (stringify numeral L v = stringify numeral L v' ↔ v = v') := by
  have hback := parse_exact hL hn (parse_ordered h) hv
  have hback' := parse_exact hL hn (parse_ordered h') hv'
  refine ⟨hback, fun heq => ?_, fun heq => heq ▸ rfl⟩
  rw [heq, hback'] at hback
  exact (Except.ok.inj hback).symm

/-- Two arrays, one indented by tabs, the other one not. -/
theorem stringify_canonical_arrays :
    parse (stringify numeralHalves { indent := 2 } (.array [.integer 1])) = .ok (.array [.integer 1]) ∧
      (stringify numeralHalves { indent := 2 } (.array [.integer 1]) =
        stringify numeralHalves { indent := 2 } (.array [.string "a"]) ↔
          Value.array [.integer 1] = .array [.string "a"]) := by
  have hone : parse (stringify numeralHalves { indent := -1 } (.array [.integer 1])) =
      .ok (.array [.integer 1]) :=
    parse_exact ⟨rfl, rfl⟩ writes_halves ⟨trivial, trivial⟩ ⟨trivial, trivial⟩
  have ha : parse (stringify numeralHalves {} (.array [.string "a"])) = .ok (.array [.string "a"]) :=
    parse_exact ⟨rfl, rfl⟩ writes_halves ⟨trivial, trivial⟩ ⟨trivial, trivial⟩
  exact stringify_canonical ⟨rfl, rfl⟩ writes_halves hone ha ⟨trivial, trivial⟩ ⟨trivial, trivial⟩

/-! ## Streams -/

/-- `istream >> v`, as many times: the values, and what is left. -/
def readAll (F : Flags) : Nat → List Char → Except Stop (List Value × List Char)
  | 0, s => .ok ([], s)
  | n + 1, s => do
      let (v, s) ← doParse F s
      let (vs, s) ← readAll F n s
      return (v :: vs, s)

/-- White space ends a number. -/
theorem apart_space {w s : List Char} (hw : Ws w) (hne : w ≠ []) : Apart (w ++ s) := by
  cases w with
  | nil => exact absurd rfl hne
  | cons c w => exact fun d hd => apart_append hw apart_nil d hd

/-- A value is read off the front of a stream, and what is behind it stays there. -/
theorem doParse_front {F : Flags} (hF : F.finished = false) {v : Value} {w t rest : List Char} (hw : Ws w)
    (ht : Text true (.value v) t) (hapart : Apart rest) : doParse F (w ++ (t ++ rest)) = .ok (v, rest) := by
  have hfuel : 2 * t.length ≤ enough (w ++ (t ++ rest)) := by
    unfold enough
    rw [List.length_append, List.length_append]
    omega
  have hread := ht.read (F := F) _ "value" w rest hfuel hw hapart
  unfold doParse
  rw [hread.ok rfl, ok_bind]
  dsimp only
  rw [hF]
  rfl

/-- **Values written one after another**, with some white space behind each of them, are read one by one. -/
theorem readAll_stringify {F : Flags} (hF : F.finished = false) (hL : L.Ecma) (hn : Writes numeral)
    {sep : List Char} (hsep : Ws sep) (hne : sep ≠ []) {vs : List Value} (ho : OrderedItems vs)
    {w : List Char} (hw : Ws w) (rest : List Char) :
    ∃ w', Ws w' ∧
      readAll F vs.length (w ++ vs.flatMap (fun v => (stringify numeral L v).toList ++ sep) ++ rest) =
        .ok (readBackItems numeral vs, w' ++ rest) := by
  induction vs generalizing w with
  | nil => exact ⟨w, hw, by rw [List.flatMap_nil, List.append_nil]; rfl⟩
  | cons v vs ih =>
      obtain ⟨w', hw', hrest⟩ := ih ho.2 hsep
      refine ⟨w', hw', ?_⟩
      have hapart := apart_space (s := vs.flatMap (fun v => (stringify numeral L v).toList ++ sep) ++ rest) hsep hne
      have hfront := doParse_front hF hw (text_value hL hn v [] ws_nil ho.1) hapart
      have hsplit : w ++ (v :: vs).flatMap (fun v => (stringify numeral L v).toList ++ sep) ++ rest =
          w ++ (stringifyValue numeral L [] v ++
            (sep ++ (vs.flatMap (fun v => (stringify numeral L v).toList ++ sep) ++ rest))) := by
        simp only [List.flatMap_cons, stringify, String.toList_ofList, List.append_assoc]
      rw [hsplit, List.length_cons, readAll, hfront, ok_bind]
      dsimp only
      rw [← List.append_assoc, hrest, ok_bind]
      rfl

/-- Three lines, and something else behind them. -/
theorem readAll_stringify_lines : ∃ w', Ws w' ∧
    readAll {} 3 ([] ++ [.integer 12, .array [], .number 1.5].flatMap
      (fun v => (stringify numeralHalves {} v).toList ++ ['\n']) ++ ['x']) =
        .ok (readBackItems numeralHalves [.integer 12, .array [], .number 1.5], w' ++ ['x']) := by
  have ho : OrderedItems [.integer 12, .array [], .number 1.5] := ⟨trivial, trivial, trivial, trivial⟩
  exact readAll_stringify rfl ⟨rfl, rfl⟩ writes_halves (ws_nil.cons (by decide)) (List.cons_ne_nil _ _) ho ws_nil
    ['x']

end Json

end DlsSdk
