import DlsSdk.Json.Objects
import DlsSdk.Json.Tokens

/-!
# `Json.Accepts` — the parser and the grammar

`parse_iff`: `parse` accepts the bounded texts of ECMA-404 and no others, with their values. One direction is an
induction on the derivation and holds under every flag, so that whatever `parse` accepts, `parse5` reads alike
(`doParse_of_parse`); a text that is not bounded is read as well, or the parser overflows. The other direction is an
induction on the calls.

The loops of `parse_array` and `parse_object` skip the white space before a value as they look for the bracket,
and put the character behind it back; `lead` is what they find before an element.
-/

namespace DlsSdk

namespace Json

variable {F : Flags} {bounded : Bool} {s rest w t : List Char} {ctx : String} {v : Value}

/-! ## The first and the last character -/

/-- A numeral begins with a digit or a minus. -/
theorem Numeral.Valid.head {n : Numeral} (hn : n.Valid) :
    ∃ c t', n.text = c :: t' ∧ (isDigit c = true ∨ c = '-') := by
  unfold Numeral.text
  cases n.negative with
  | true => exact ⟨'-', _, rfl, .inr rfl⟩
  | false =>
      obtain ⟨d, ds, hint, hdig⟩ := hn.int_cons
      refine ⟨d, ds ++ (fracText n.frac ++ expText n.exp), ?_, .inl hdig⟩
      rw [hint]
      rfl

/-- A value begins with a character that no bracket or space is. -/
theorem Text.head (h : Text bounded (.value v) t) :
    ∃ c t', t = c :: t' ∧ Solid c ∧ c ≠ ']' ∧ c ≠ '}' := by
  cases h with
  | null => exact ⟨'n', _, rfl, by decide⟩
  | boolTrue => exact ⟨'t', _, rfl, by decide⟩
  | boolFalse => exact ⟨'f', _, rfl, by decide⟩
  | number n hn =>
      obtain ⟨c, t', ht, hc⟩ := hn.head
      obtain hdig | rfl := hc
      · exact ⟨c, t', ht, ⟨not_space_of_isDigit hdig, ne_of_isDigit hdig rfl⟩, ne_of_isDigit hdig rfl,
          ne_of_isDigit hdig rfl⟩
      · exact ⟨'-', t', ht, by decide⟩
  | string => exact ⟨'"', _, rfl, by decide⟩
  | noElements => exact ⟨'[', _, rfl, by decide⟩
  | array => exact ⟨'[', _, rfl, by decide⟩
  | noMembers => exact ⟨'{', _, rfl, by decide⟩
  | object => exact ⟨'{', _, rfl, by decide⟩

theorem Text.length_pos (h : Text bounded (.value v) t) : 0 < t.length := by
  obtain ⟨c, t', rfl, -⟩ := h.head
  exact Nat.succ_pos _

theorem apart_nil : Apart [] := fun _ h => by cases h

/-- White space and what is no part of a number end a number. -/
theorem apart_append (hw : Ws w) (h : Apart s) : Apart (w ++ s) := by
  cases w with
  | nil => exact h
  | cons c w =>
      intro d hd
      obtain rfl := Option.some.inj hd
      have hc : Space c := hw c List.mem_cons_self
      refine ⟨isDigit_of_space hc, ?_, ?_, ?_, ?_, ?_⟩
      all_goals exact ne_of_space hc (by decide)

theorem apart_comma : Apart (',' :: s) := fun c hc => by
  obtain rfl := Option.some.inj hc
  decide

theorem apart_bracket : Apart (']' :: s) := fun c hc => by
  obtain rfl := Option.some.inj hc
  decide

theorem apart_brace : Apart ('}' :: s) := fun c hc => by
  obtain rfl := Option.some.inj hc
  decide

/-! ## Between the elements -/

/-- What is before an element: nothing, or a comma behind some white space. -/
def lead (empty : Bool) (w : List Char) : List Char := if empty then [] else w ++ [',']

theorem lead_true : lead true w = [] := rfl

theorem lead_false : lead false w = w ++ [','] := rfl

/-- The bracket closes. -/
theorem nextElement_close {close : Char} (hclose : Solid close) (hw : Ws w) (empty : Bool) :
    nextElement F close ctx empty (w ++ close :: s) = .ok (true, s) := by
  unfold nextElement
  rw [skipSpaces_solid hw hclose, ok_bind]
  dsimp only
  rw [if_pos rfl]
  rfl

/-- **An element follows**, white space before it or not. -/
theorem nextElement_lead {close c : Char} {w' : List Char} {empty : Bool} (hclose : close ≠ ',') (hc : Solid c)
    (hne : c ≠ close) (hw' : Ws w') (hw : Ws w) :
    ∃ w'', Ws w'' ∧
      nextElement F close ctx empty (lead empty w' ++ (w ++ c :: s)) = .ok (false, w'' ++ c :: s) := by
  unfold nextElement
  have hne' : some c ≠ some close := fun h => hne (Option.some.inj h)
  cases empty with
  | true =>
      refine ⟨[], ws_nil, ?_⟩
      rw [lead_true, List.nil_append, skipSpaces_solid hw hc, ok_bind]
      dsimp only
      rw [if_neg hne', if_pos rfl]
      rfl
  | false =>
      have hcomma : some ',' ≠ some close := fun h => hclose (Option.some.inj h).symm
      rw [lead_false, List.append_assoc, List.singleton_append, skipSpaces_solid hw' (by decide), ok_bind]
      dsimp only
      rw [if_neg hcomma, if_neg (by simp), if_neg (by simp)]
      cases F.trailingComma with
      | true =>
          refine ⟨[], ws_nil, ?_⟩
          rw [if_pos rfl, skipSpaces_solid hw hc, ok_bind]
          dsimp only
          rw [if_neg hne']
          rfl
      | false => exact ⟨w, hw, rfl⟩

/-- Without trailing commas this is all that is accepted. -/
theorem nextElement_sound {b : Bool} {close : Char} {empty closed : Bool}
    (h : nextElement (.plain b) close ctx empty s = .ok (closed, rest)) :
    (closed = true ∧ ∃ w, Ws w ∧ s = w ++ close :: rest) ∨
      (closed = false ∧ ∃ w' w, Ws w' ∧ Ws w ∧ s = lead empty w' ++ (w ++ rest)) := by
  unfold nextElement at h
  obtain ⟨⟨ch, s'⟩, hskip, hnext⟩ := bind_ok.mp h
  obtain ⟨w, hw, rfl, -⟩ := skipSpaces_sound hskip
  dsimp only at hnext
  by_cases hclose : ch = some close
  · rw [if_pos hclose] at hnext
    obtain ⟨rfl, rfl⟩ := Prod.mk.inj (Except.ok.inj hnext)
    exact .inl ⟨rfl, w, hw, by rw [hclose]; rfl⟩
  · rw [if_neg hclose] at hnext
    cases empty with
    | true =>
        obtain ⟨rfl, rfl⟩ := Prod.mk.inj (Except.ok.inj hnext)
        exact .inr ⟨rfl, [], w, ws_nil, hw, rfl⟩
    | false =>
        rw [if_neg (by simp)] at hnext
        by_cases hcomma : ch = some ','
        · rw [if_neg fun hne => hne hcomma, if_neg (by simp [Flags.plain])] at hnext
          obtain ⟨rfl, rfl⟩ := Prod.mk.inj (Except.ok.inj hnext)
          refine .inr ⟨rfl, w, [], hw, ws_nil, ?_⟩
          rw [hcomma, lead_false, List.append_assoc]
          rfl
        · rw [if_pos hcomma] at hnext
          cases hnext

/-! ## What is in the grammar is read -/

/-- A text is read to its end: a value behind any white space; the rest of an array or an object behind the
    elements it has, to the bracket. Or the parser overflows, if the text is not bounded. -/
def Read (F : Flags) (bounded : Bool) : Part → List Char → Prop
  | .value v, t => ∀ fuel ctx w rest, 2 * t.length ≤ fuel → Ws w → Apart rest →
      Reads (bounded = true) (parseValue F fuel ctx (w ++ (t ++ rest))) (v, rest)
  | .elements vs, t => ∀ fuel acc w rest, 2 * t.length + 1 ≤ fuel → Ws w →
      Reads (bounded = true) (parseArray F fuel acc (lead acc.isEmpty w ++ (t ++ ']' :: rest)))
        (.array (acc ++ vs), rest)
  | .members ms, t => ∀ fuel pairs w rest, 2 * t.length + 1 ≤ fuel → Ws w →
      Reads (bounded = true) (parseObject F fuel pairs (lead pairs.isEmpty w ++ (t ++ '}' :: rest)))
        (.object (entered ms pairs), rest)

/-- A value is behind white space, and there is a call for it. -/
theorem read_value {c : Char} {t' : List Char} (hc : Solid c)
    (h : ∀ fuel rest, 2 * t'.length + 1 ≤ fuel → Apart rest → ∀ ctx,
      Reads (bounded = true) (parseValue F (fuel + 1) ctx (c :: (t' ++ rest))) (v, rest)) :
    Read F bounded (.value v) (c :: t') := by
  intro fuel ctx w rest hfuel hw hrest
  rw [List.length_cons] at hfuel
  obtain ⟨fuel, rfl⟩ : ∃ n, fuel = n + 1 := ⟨fuel - 1, by omega⟩
  have hv := h fuel rest (by omega) hrest ctx
  have hskip := skipSpaces_solid (F := F) ws_nil hc (t' ++ rest)
  rw [List.nil_append] at hskip
  rw [parseValue, hskip, ok_bind] at hv
  rw [List.cons_append, parseValue, skipSpaces_solid hw hc, ok_bind]
  exact hv

/-- What begins like a number is one. -/
theorem parseValue_number {fuel : Nat} {c : Char} (hc : isDigit c = true ∨ c = '-') (hw : Ws w) :
    parseValue F (fuel + 1) ctx (w ++ c :: s) = parseNumber F (some c) s := by
  have hsolid : Solid c := by
    obtain hdig | rfl := hc
    · exact ⟨not_space_of_isDigit hdig, ne_of_isDigit hdig rfl⟩
    · decide
  rw [parseValue, skipSpaces_solid hw hsolid, ok_bind]
  dsimp only
  split
  case h_8 c' _ _ _ _ _ _ _ heq =>
      obtain rfl := Option.some.inj heq
      rw [if_pos (hc.imp_right .inl)]
  case h_9 heq => cases heq
  all_goals
    rename_i heq
    obtain rfl := Option.some.inj heq
    exact absurd hc (by decide)

/-- The bracket closes an array, behind the white space of its last element. -/
theorem parseArray_close {fuel : Nat} {acc : List Value} (hw : Ws w) :
    parseArray F (fuel + 1) acc (w ++ ']' :: rest) = .ok (.array acc, rest) := by
  rw [parseArray, nextElement_close (by decide) hw, ok_bind]
  rfl

theorem parseObject_close {fuel : Nat} {pairs : List (String × Value)} (hw : Ws w) :
    parseObject F (fuel + 1) pairs (w ++ '}' :: rest) = .ok (.object pairs, rest) := by
  rw [parseObject, nextElement_close (by decide) hw, ok_bind]
  rfl

/-- One element, and what the loop goes on with. -/
theorem parseArray_element {fuel : Nat} {acc : List Value} {w' : List Char} {r : Value × List Char}
    (ht : Text bounded (.value v) t) (hread : Read F bounded (.value v) t) (hfuel : 2 * t.length ≤ fuel)
    (hw' : Ws w') (hw : Ws w) (hs : Apart s) (hrest : Reads (bounded = true) (parseArray F fuel (acc ++ [v]) s) r) :
    Reads (bounded = true) (parseArray F (fuel + 1) acc (lead acc.isEmpty w' ++ (w ++ (t ++ s)))) r := by
  obtain ⟨c, t', rfl, hc, hne, -⟩ := ht.head
  obtain ⟨w'', hw'', hnext⟩ : ∃ w'', Ws w'' ∧
      nextElement F ']' "array" acc.isEmpty (lead acc.isEmpty w' ++ (w ++ c :: (t' ++ s))) =
        .ok (false, w'' ++ c :: (t' ++ s)) := nextElement_lead (by decide) hc hne hw' hw
  have hvalue := hread fuel "array" w'' s hfuel hw'' hs
  rw [List.cons_append, parseArray, hnext, ok_bind]
  dsimp only
  rw [if_neg (by simp)]
  exact hvalue.bind hrest

/-- One member, and what the loop goes on with. -/
theorem parseObject_member {fuel : Nat} {pairs : List (String × Value)} {w' k w1 w2 buffer : List Char}
    {r : Value × List Char} (hk : StringText buffer k) (hread : Read F bounded (.value v) t)
    (hfuel : 2 * t.length ≤ fuel) (hw' : Ws w') (hw : Ws w) (hw1 : Ws w1) (hw2 : Ws w2) (hs : Apart s)
    (hrest : Reads (bounded = true) (parseObject F fuel (emplace (.ofList buffer) v pairs) s) r) :
    Reads (bounded = true) (parseObject F (fuel + 1) pairs
      (lead pairs.isEmpty w' ++ (w ++ '"' :: (k ++ '"' :: (w1 ++ ':' :: (w2 ++ (t ++ s))))))) r := by
  obtain ⟨w'', hw'', hnext⟩ : ∃ w'', Ws w'' ∧ nextElement F '}' "object" pairs.isEmpty
      (lead pairs.isEmpty w' ++ (w ++ '"' :: (k ++ '"' :: (w1 ++ ':' :: (w2 ++ (t ++ s)))))) =
        .ok (false, w'' ++ '"' :: (k ++ '"' :: (w1 ++ ':' :: (w2 ++ (t ++ s))))) :=
    nextElement_lead (by decide) (by decide) (by decide) hw' hw
  have hvalue := hread fuel "object" w2 s hfuel hw2 hs
  rw [parseObject, hnext, ok_bind]
  dsimp only
  rw [if_neg (by simp), parseKey_text hw'' hk, ok_bind]
  dsimp only
  rw [skipSpaces_solid hw1 (by decide), ok_bind]
  dsimp only
  rw [if_neg (by simp)]
  exact hvalue.bind hrest

/-! ### One constructor of the grammar each -/

theorem read_literal {c : Char} {l : List Char} {context : String} (hc : Solid c)
    (h : ∀ fuel ctx s, parseValue F (fuel + 1) ctx (c :: s) = equals context l s >>= fun s => .ok (v, s)) :
    Read F bounded (.value v) (c :: l) := by
  refine read_value hc fun fuel rest _ _ ctx => .inl ?_
  rw [h, equals_text, ok_bind]

theorem read_number {n : Numeral} (hn : n.Valid) (hb : bounded = true → n.Fits) :
    Read F bounded (.value n.value) n.text := by
  intro fuel ctx w rest hfuel hw hrest
  obtain ⟨c, t', ht, hc⟩ := hn.head
  rw [ht, List.length_cons] at hfuel
  obtain ⟨fuel, rfl⟩ : ∃ n, fuel = n + 1 := ⟨fuel - 1, by omega⟩
  have hread := parseNumber_text (F := F) hn hrest
  rw [ht, List.cons_append, get_cons] at hread
  rw [ht, List.cons_append, parseValue_number hc hw]
  exact hread.imp hb

theorem read_string {buffer body : List Char} (h : StringText buffer body) :
    Read F bounded (.value (.string (.ofList buffer))) ('"' :: (body ++ ['"'])) := by
  refine read_value (by decide) fun fuel rest _ _ ctx => .inl ?_
  show parseString F (some '"') "string" ((body ++ ['"']) ++ rest) >>= _ = _
  rw [List.append_assoc, List.singleton_append, parseString_text h]
  rfl

theorem read_noElements (hw : Ws w) : Read F bounded (.value (.array [])) ('[' :: (w ++ [']'])) := by
  refine read_value (by decide) fun fuel rest hfuel _ ctx => .inl ?_
  obtain ⟨fuel, rfl⟩ : ∃ n, fuel = n + 1 := ⟨fuel - 1, by omega⟩
  show parseArray F (fuel + 1) [] ((w ++ [']']) ++ rest) = _
  rw [List.append_assoc, List.singleton_append, parseArray_close hw]

theorem read_array {vs : List Value} (h : Read F bounded (.elements vs) t) :
    Read F bounded (.value (.array vs)) ('[' :: (t ++ [']'])) := by
  refine read_value (by decide) fun fuel rest hfuel _ ctx => ?_
  rw [List.length_append, List.length_singleton] at hfuel
  show Reads _ (parseArray F fuel [] ((t ++ [']']) ++ rest)) _
  rw [List.append_assoc, List.singleton_append]
  exact h fuel [] [] rest (by omega) ws_nil

theorem read_noMembers (hw : Ws w) : Read F bounded (.value (.object [])) ('{' :: (w ++ ['}'])) := by
  refine read_value (by decide) fun fuel rest hfuel _ ctx => .inl ?_
  obtain ⟨fuel, rfl⟩ : ∃ n, fuel = n + 1 := ⟨fuel - 1, by omega⟩
  show parseObject F (fuel + 1) [] ((w ++ ['}']) ++ rest) = _
  rw [List.append_assoc, List.singleton_append, parseObject_close hw]

theorem read_object {ms pairs : List (String × Value)} (hp : MapOf ms pairs) (h : Read F bounded (.members ms) t) :
    Read F bounded (.value (.object pairs)) ('{' :: (t ++ ['}'])) := by
  refine read_value (by decide) fun fuel rest hfuel _ ctx => ?_
  rw [List.length_append, List.length_singleton] at hfuel
  show Reads _ (parseObject F fuel [] ((t ++ ['}']) ++ rest)) _
  rw [List.append_assoc, List.singleton_append, ← hp.eq_entered]
  exact h fuel [] [] rest (by omega) ws_nil

/-- The last element: a call for it, and one for the bracket. -/
theorem read_element {w' : List Char} (hw : Ws w) (hv : Text bounded (.value v) t) (hw' : Ws w')
    (h : Read F bounded (.value v) t) : Read F bounded (.elements [v]) (w ++ (t ++ w')) := by
  intro fuel acc w0 rest hfuel hw0
  rw [List.length_append, List.length_append] at hfuel
  have hpos : 0 < t.length := hv.length_pos
  obtain ⟨fuel, rfl⟩ : ∃ n, fuel = n + 2 := ⟨fuel - 2, by omega⟩
  rw [List.append_assoc, List.append_assoc]
  exact parseArray_element hv h (by omega) hw0 hw (apart_append hw' apart_bracket) (.inl (parseArray_close hw'))

theorem read_elements {w' ts : List Char} {vs : List Value} (hw : Ws w) (hv : Text bounded (.value v) t)
    (hw' : Ws w') (h : Read F bounded (.value v) t) (hs : Read F bounded (.elements vs) ts) :
    Read F bounded (.elements (v :: vs)) (w ++ (t ++ (w' ++ ',' :: ts))) := by
  intro fuel acc w0 rest hfuel hw0
  simp only [List.length_append, List.length_cons] at hfuel
  obtain ⟨fuel, rfl⟩ : ∃ n, fuel = n + 1 := ⟨fuel - 1, by omega⟩
  have hnext := hs fuel (acc ++ [v]) w' rest (by omega) hw'
  have hempty : (acc ++ [v]).isEmpty = false := by simp
  rw [hempty, lead_false, List.append_assoc, List.append_assoc, List.singleton_append,
    List.singleton_append] at hnext
  rw [List.append_assoc, List.append_assoc, List.append_assoc, List.cons_append]
  exact parseArray_element hv h (by omega) hw0 hw (apart_append hw' apart_comma) hnext

theorem read_member {k w1 w2 w' buffer : List Char} (hw : Ws w) (hk : StringText buffer k) (hw1 : Ws w1)
    (hw2 : Ws w2) (hw' : Ws w') (h : Read F bounded (.value v) t) :
    Read F bounded (.members [(.ofList buffer, v)])
      (w ++ '"' :: (k ++ '"' :: (w1 ++ ':' :: (w2 ++ (t ++ w'))))) := by
  intro fuel pairs w0 rest hfuel hw0
  simp only [List.length_append, List.length_cons] at hfuel
  obtain ⟨fuel, rfl⟩ : ∃ n, fuel = n + 2 := ⟨fuel - 2, by omega⟩
  simp only [List.append_assoc, List.cons_append]
  exact parseObject_member hk h (by omega) hw0 hw hw1 hw2 (apart_append hw' apart_brace)
    (.inl (parseObject_close hw'))

theorem read_members {k w1 w2 w' buffer ts : List Char} {ms : List (String × Value)} (hw : Ws w)
    (hk : StringText buffer k) (hw1 : Ws w1) (hw2 : Ws w2) (hw' : Ws w') (h : Read F bounded (.value v) t)
    (hs : Read F bounded (.members ms) ts) :
    Read F bounded (.members ((.ofList buffer, v) :: ms))
      (w ++ '"' :: (k ++ '"' :: (w1 ++ ':' :: (w2 ++ (t ++ (w' ++ ',' :: ts)))))) := by
  intro fuel pairs w0 rest hfuel hw0
  simp only [List.length_append, List.length_cons] at hfuel
  obtain ⟨fuel, rfl⟩ : ∃ n, fuel = n + 1 := ⟨fuel - 1, by omega⟩
  have hnext := hs fuel (emplace (.ofList buffer) v pairs) w' rest (by omega) hw'
  have hempty : (emplace (.ofList buffer) v pairs).isEmpty = false :=
    List.isEmpty_eq_false_iff.mpr emplace_ne_nil
  rw [hempty, lead_false, List.append_assoc, List.singleton_append] at hnext
  simp only [List.append_assoc, List.cons_append]
  exact parseObject_member hk h (by omega) hw0 hw hw1 hw2 (apart_append hw' apart_comma) hnext

/-- **A text of the grammar is read to its end, under every flag.** -/
theorem Text.read {part : Part} (h : Text bounded part t) : Read F bounded part t := by
  induction h with
  | null => exact read_literal (by decide) fun _ _ _ => rfl
  | boolTrue => exact read_literal (by decide) fun _ _ _ => rfl
  | boolFalse => exact read_literal (by decide) fun _ _ _ => rfl
  | number n hn hb => exact read_number hn hb
  | string h => exact read_string h
  | noElements hw => exact read_noElements hw
  | array h ih => exact read_array ih
  | noMembers hw => exact read_noMembers hw
  | object h hp ih => exact read_object hp ih
  | element hw hv hw' ih => exact read_element hw hv hw' ih
  | elements hw hv hw' hvs ih ihs => exact read_elements hw hv hw' ih ihs
  | member hw hk hw1 hw2 hv hw' ih => exact read_member hw hk hw1 hw2 hw' ih
  | members hw hk hw1 hw2 hv hw' hms ih ihs => exact read_members hw hk hw1 hw2 hw' ih ihs

/-! ## What is read is in the grammar -/

/-- What was read is the text of a value behind white space; of the rest of an array or an object behind the
    elements it has. -/
structure Sound (b : Bool) (fuel : Nat) : Prop where
  value : ∀ {ctx s v rest}, parseValue (.plain b) fuel ctx s = .ok (v, rest) →
    ∃ w t, Ws w ∧ Text true (.value v) t ∧ s = w ++ (t ++ rest)
  array : ∀ {acc s v rest}, parseArray (.plain b) fuel acc s = .ok (v, rest) →
    (∃ w, Ws w ∧ v = .array acc ∧ s = w ++ ']' :: rest) ∨
    ∃ w vs t, Ws w ∧ Text true (.elements vs) t ∧ v = .array (acc ++ vs) ∧
      s = lead acc.isEmpty w ++ (t ++ ']' :: rest)
  object : ∀ {pairs s v rest}, parseObject (.plain b) fuel pairs s = .ok (v, rest) →
    (∃ w, Ws w ∧ v = .object pairs ∧ s = w ++ '}' :: rest) ∨
    ∃ w ms t, Ws w ∧ Text true (.members ms) t ∧ v = .object (entered ms pairs) ∧
      s = lead pairs.isEmpty w ++ (t ++ '}' :: rest)

theorem sound_array {b : Bool} {fuel : Nat} (ih : Sound b fuel) {acc : List Value}
    (h : parseArray (.plain b) (fuel + 1) acc s = .ok (v, rest)) :
    (∃ w, Ws w ∧ v = .array acc ∧ s = w ++ ']' :: rest) ∨
    ∃ w vs t, Ws w ∧ Text true (.elements vs) t ∧ v = .array (acc ++ vs) ∧
      s = lead acc.isEmpty w ++ (t ++ ']' :: rest) := by
  rw [parseArray] at h
  obtain ⟨⟨closed, s1⟩, hnext, hloop⟩ := bind_ok.mp h
  dsimp only at hloop
  obtain ⟨rfl, w, hw, rfl⟩ | ⟨rfl, w', w, hw', hw, rfl⟩ := nextElement_sound hnext
  · obtain ⟨rfl, rfl⟩ := Prod.mk.inj (Except.ok.inj hloop)
    exact .inl ⟨w, hw, rfl, rfl⟩
  · rw [if_neg (by simp)] at hloop
    obtain ⟨⟨v1, s2⟩, hvalue, hrest⟩ := bind_ok.mp hloop
    obtain ⟨w1, t, hw1, ht, rfl⟩ := ih.value hvalue
    dsimp only at hrest
    right
    obtain ⟨w2, hw2, rfl, rfl⟩ | ⟨w2, vs, ts, hw2, hts, rfl, rfl⟩ := ih.array hrest
    · refine ⟨w', [v1], (w ++ w1) ++ (t ++ w2), hw', .element (hw.append hw1) ht hw2, rfl, ?_⟩
      simp only [List.append_assoc]
    · have hempty : (acc ++ [v1]).isEmpty = false := by simp
      refine ⟨w', v1 :: vs, (w ++ w1) ++ (t ++ (w2 ++ ',' :: ts)), hw', .elements (hw.append hw1) ht hw2 hts,
        ?_, ?_⟩
      · rw [List.append_assoc, List.singleton_append]
      · rw [hempty, lead_false]
        simp only [List.append_assoc, List.cons_append, List.nil_append]

theorem sound_object {b : Bool} {fuel : Nat} (ih : Sound b fuel) {pairs : List (String × Value)}
    (h : parseObject (.plain b) (fuel + 1) pairs s = .ok (v, rest)) :
    (∃ w, Ws w ∧ v = .object pairs ∧ s = w ++ '}' :: rest) ∨
    ∃ w ms t, Ws w ∧ Text true (.members ms) t ∧ v = .object (entered ms pairs) ∧
      s = lead pairs.isEmpty w ++ (t ++ '}' :: rest) := by
  rw [parseObject] at h
  obtain ⟨⟨closed, s1⟩, hnext, hloop⟩ := bind_ok.mp h
  dsimp only at hloop
  obtain ⟨rfl, w, hw, rfl⟩ | ⟨rfl, w', w, hw', hw, rfl⟩ := nextElement_sound hnext
  · obtain ⟨rfl, rfl⟩ := Prod.mk.inj (Except.ok.inj hloop)
    exact .inl ⟨w, hw, rfl, rfl⟩
  · rw [if_neg (by simp)] at hloop
    obtain ⟨⟨buffer, s2⟩, hkey, hcolon⟩ := bind_ok.mp hloop
    obtain ⟨wk, k, hwk, hk, rfl⟩ := parseKey_sound hkey
    obtain ⟨⟨ch, s3⟩, hskip, hmember⟩ := bind_ok.mp hcolon
    obtain ⟨w1, hw1, rfl, -⟩ := skipSpaces_sound hskip
    dsimp only at hmember
    by_cases hch : ch = some ':'
    · rw [if_neg fun hne => hne hch] at hmember
      obtain rfl := hch
      obtain ⟨⟨v1, s4⟩, hvalue, hrest⟩ := bind_ok.mp hmember
      obtain ⟨w2, t, hw2, ht, rfl⟩ := ih.value hvalue
      dsimp only at hrest
      right
      obtain ⟨w3, hw3, rfl, rfl⟩ | ⟨w3, ms, ts, hw3, hts, rfl, rfl⟩ := ih.object hrest
      · refine ⟨w', [(.ofList buffer, v1)], _, hw', .member (hw.append hwk) hk hw1 hw2 ht hw3, rfl, ?_⟩
        simp only [List.append_assoc, List.cons_append, unget_some]
      · have hempty : (emplace (.ofList buffer) v1 pairs).isEmpty = false :=
          List.isEmpty_eq_false_iff.mpr emplace_ne_nil
        refine ⟨w', (.ofList buffer, v1) :: ms, _, hw', .members (hw.append hwk) hk hw1 hw2 ht hw3 hts, rfl, ?_⟩
        rw [hempty, lead_false]
        simp only [List.append_assoc, List.cons_append, unget_some, List.nil_append]
    · rw [if_pos hch] at hmember
      cases hmember

theorem literal_sound {l : List Char} {context : String} {v' : Value}
    (h : (equals context l s >>= fun s => Except.ok (v', s)) = .ok (v, rest)) : v' = v ∧ s = l ++ rest := by
  obtain ⟨s', hequals, hret⟩ := bind_ok.mp h
  obtain ⟨rfl, rfl⟩ := Prod.mk.inj (Except.ok.inj hret)
  exact ⟨rfl, equals_sound hequals⟩

theorem sound_value {b : Bool} {fuel : Nat} (ih : Sound b fuel)
    (h : parseValue (.plain b) (fuel + 1) ctx s = .ok (v, rest)) :
    ∃ w t, Ws w ∧ Text true (.value v) t ∧ s = w ++ (t ++ rest) := by
  rw [parseValue] at h
  obtain ⟨⟨ch, s1⟩, hskip, hvalue⟩ := bind_ok.mp h
  obtain ⟨w, hw, rfl, -⟩ := skipSpaces_sound hskip
  refine ⟨w, ?_⟩
  dsimp only at hvalue
  split at hvalue
  case h_1 =>
      obtain ⟨w', hw', rfl, rfl⟩ | ⟨w', ms, ts, hw', hts, rfl, rfl⟩ := ih.object hvalue
      · exact ⟨'{' :: (w' ++ ['}']), hw, .noMembers hw', by simp⟩
      · exact ⟨'{' :: (ts ++ ['}']), hw, .object hts (mapOf_entered ms), by simp [lead_true]⟩
  case h_2 =>
      obtain ⟨w', hw', rfl, rfl⟩ | ⟨w', vs, ts, hw', hts, rfl, rfl⟩ := ih.array hvalue
      · exact ⟨'[' :: (w' ++ [']']), hw, .noElements hw', by simp⟩
      · exact ⟨'[' :: (ts ++ [']']), hw, .array hts, by simp [lead_true]⟩
  case h_3 =>
      obtain ⟨⟨buffer, s2⟩, hstring, hret⟩ := bind_ok.mp hvalue
      obtain ⟨rfl, rfl⟩ := Prod.mk.inj (Except.ok.inj hret)
      obtain ⟨-, body, hbody, rfl⟩ := parseString_sound hstring
      exact ⟨'"' :: (body ++ ['"']), hw, .string hbody, by simp⟩
  case h_4 =>
      -- a single quote is refused by `parse_string`
      obtain ⟨⟨buffer, s2⟩, hstring, -⟩ := bind_ok.mp hvalue
      exact absurd (parseString_sound hstring).1 (by decide)
  case h_5 =>
      obtain ⟨rfl, rfl⟩ := literal_sound hvalue
      exact ⟨_, hw, .null, rfl⟩
  case h_6 =>
      obtain ⟨rfl, rfl⟩ := literal_sound hvalue
      exact ⟨_, hw, .boolTrue, rfl⟩
  case h_7 =>
      obtain ⟨rfl, rfl⟩ := literal_sound hvalue
      exact ⟨_, hw, .boolFalse, rfl⟩
  case h_8 _ c _ _ _ _ _ _ _ =>
      split at hvalue
      · obtain ⟨n, hn, hfits, htext, rfl⟩ := parseNumber_sound (s := c :: s1) hvalue
        exact ⟨n.text, hw, .number n hn fun _ => hfits, by rw [unget_some, htext]⟩
      · cases hvalue
  case h_9 => cases hvalue

theorem sound (b : Bool) (fuel : Nat) : Sound b fuel := by
  induction fuel with
  | zero =>
      constructor
      · intro _ _ _ _ h
        cases h
      · intro _ _ _ _ h
        cases h
      · intro _ _ _ _ h
        cases h
  | succ fuel ih => exact ⟨sound_value ih, sound_array ih, sound_object ih⟩

/-! ## Whole texts -/

theorem doParse_plain (h : doParse (.plain true) s = .ok (v, rest)) : JsonText v s ∧ rest = [] := by
  unfold doParse at h
  obtain ⟨⟨v', s1⟩, hvalue, hend⟩ := bind_ok.mp h
  obtain ⟨w, t, hw, ht, rfl⟩ := (sound true _).value hvalue
  have hfinished : (Flags.plain true).finished = true := rfl
  dsimp only at hend
  rw [if_pos hfinished] at hend
  obtain ⟨⟨ch, s2⟩, hskip, hret⟩ := bind_ok.mp hend
  dsimp only at hret
  by_cases hch : ch = none
  · rw [if_neg fun hne => hne hch] at hret
    obtain ⟨rfl, rfl⟩ := Prod.mk.inj (Except.ok.inj hret)
    obtain ⟨w', hw', rfl, hnil⟩ := skipSpaces_sound hskip
    rw [hch, unget_none, hnil hch, List.append_nil]
    exact ⟨⟨w, t, w', hw, ht, hw', rfl⟩, rfl⟩
  · rw [if_pos hch] at hret
    cases hret

/-- A text is read under every flag, or the parser overflows; what is left of it is white space, and nothing if the
    parser is asked to finish. -/
theorem Document.read (h : Document bounded v s) (F : Flags) :
    ∃ rest, Ws rest ∧ Reads (bounded = true) (doParse F s) (v, rest) ∧ (F.finished = true → rest = []) := by
  obtain ⟨w, t, w', hw, ht, hw', rfl⟩ := h
  have hfuel : 2 * t.length ≤ enough (w ++ (t ++ w')) := by
    unfold enough
    rw [List.length_append, List.length_append]
    omega
  have hapart : Apart w' := by
    rw [← List.append_nil w']
    exact apart_append hw' apart_nil
  have hread := ht.read (F := F) _ "value" w w' hfuel hw hapart
  unfold doParse
  cases hfinished : F.finished with
  | true =>
      refine ⟨[], ws_nil, hread.bind (.inl ?_), fun _ => rfl⟩
      dsimp only
      rw [if_pos rfl, skipSpaces_end hw', ok_bind]
      rfl
  | false => exact ⟨w', hw', hread.bind (.inl rfl), fun h => by cases h⟩

theorem JsonText.read (h : JsonText v s) (F : Flags) :
    ∃ rest, Ws rest ∧ doParse F s = .ok (v, rest) ∧ (F.finished = true → rest = []) := by
  obtain ⟨rest, hrest, hparse, hfinished⟩ := Document.read h F
  exact ⟨rest, hrest, hparse.ok rfl, hfinished⟩

theorem jsonText_of_parse {conf : String} (h : parse conf = .ok v) : JsonText v conf.toList := by
  unfold parse at h
  cases hparse : doParse .ecma404 conf.toList with
  | error stop =>
      rw [hparse] at h
      cases h
  | ok r =>
      rw [hparse] at h
      obtain rfl := Except.ok.inj h
      exact (doParse_plain hparse).1

theorem JsonText.parse {conf : String} (h : JsonText v conf.toList) : parse conf = .ok v := by
  obtain ⟨rest, -, hparse, -⟩ := h.read .ecma404
  unfold Json.parse
  rw [hparse]
  rfl

/-- **`parse` accepts the bounded texts of ECMA-404, with their values, and no others.** -/
theorem parse_iff (conf : String) (v : Value) : parse conf = .ok v ↔ JsonText v conf.toList :=
  ⟨jsonText_of_parse, JsonText.parse⟩

/-- **Whatever `parse` accepts, every other flavour reads alike**, and so does `parse5`. -/
theorem doParse_of_parse {conf : String} (h : parse conf = .ok v) :
    parse5 conf = .ok v ∧ ∀ F : Flags, ∃ rest, Ws rest ∧ doParse F conf.toList = .ok (v, rest) ∧
      (F.finished = true → rest = []) := by
  have hread := (jsonText_of_parse h).read
  refine ⟨?_, hread⟩
  obtain ⟨rest, -, hparse, -⟩ := hread .json5
  unfold parse5
  rw [hparse]
  rfl

/-- `[ ]`, under the rules of JSON5 and others. -/
theorem doParse_of_parse_empty : parse5 (String.ofList ['[', ' ', ']']) = .ok (.array []) ∧
    ∀ F : Flags, ∃ rest, Ws rest ∧
      doParse F (String.ofList ['[', ' ', ']']).toList = .ok (.array [], rest) ∧
        (F.finished = true → rest = []) :=
  doParse_of_parse (JsonText.parse ⟨[], ['[', ' ', ']'], [], ws_nil, .noElements (ws_nil.cons (by decide)), ws_nil,
    String.toList_ofList⟩)

/-- A text has one value. -/
theorem JsonText.unique {v' : Value} (h : JsonText v s) (h' : JsonText v' s) : v = v' := by
  obtain ⟨rest, -, hparse, -⟩ := h.read .ecma404
  obtain ⟨rest', -, hparse', -⟩ := h'.read .ecma404
  rw [hparse] at hparse'
  exact (Prod.mk.inj (Except.ok.inj hparse')).1

end Json

end DlsSdk
