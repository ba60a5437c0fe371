import DlsSdk.Json.Characters

/-!
# `Json.Tokens` — spaces, literals, numbers and strings

What the functions of `Parser` below `parse_value` do with the tokens of the grammar: a token is read to its end
and its value returned, under every flag (`*_text`), and without the flags what is read is a token (`*_sound`).
A number that is not bounded is not read: there the parser overflows (`Reads`).

A number has no end of its own: it is read as far as characters of a number go. `Apart` says that what follows
is none.
-/

namespace DlsSdk

namespace Json

variable {F : Flags} {s rest w : List Char} {ctx : String}

/-- The flags of ECMA-404, with or without `finished`. -/
def Flags.plain (finished : Bool) : Flags := { finished := finished }

section Bind
variable {α β : Type} {x : Except Stop α} {f : α → Except Stop β} {a : α} {b : β} {fits : Prop}

/-- What ends a sequence without an exception. -/
theorem bind_ok : x >>= f = .ok b ↔ ∃ a, x = .ok a ∧ f a = .ok b := by
  constructor
  · intro h
    cases x with
    | error e => cases h
    | ok a => exact ⟨a, rfl, h⟩
  · rintro ⟨a, rfl, h⟩
    exact h

@[simp] theorem ok_bind (a : α) (f : α → Except Stop β) : (Except.ok a >>= f) = f a := rfl

@[simp] theorem error_bind (e : Stop) (f : α → Except Stop β) : (Except.error e >>= f) = .error e := rfl

/-- `x` ends with `a`, or overflows, which it does not do with what fits. -/
def Reads (fits : Prop) (x : Except Stop α) (a : α) : Prop :=
  x = .ok a ∨ (¬ fits ∧ ∃ ch, x = .error (.undefined ch))

theorem Reads.imp {fits' : Prop} (h : Reads fits x a) (hf : fits' → fits) : Reads fits' x a :=
  h.imp_right fun ⟨hno, hx⟩ => ⟨fun h' => hno (hf h'), hx⟩

theorem Reads.bind (h : Reads fits x a) (hf : Reads fits (f a) b) : Reads fits (x >>= f) b := by
  obtain rfl | ⟨hno, ch, rfl⟩ := h
  · exact hf
  · exact .inr ⟨hno, ch, rfl⟩

theorem Reads.ok (h : Reads fits x a) (hfits : fits) : x = .ok a :=
  h.resolve_right fun hno => hno.1 hfits

end Bind

@[simp] theorem unget_get (s : List Char) : unget (get s).1 (get s).2 = s := by
  cases s <;> rfl

theorem get_fst (s : List Char) : (get s).1 = s.head? := by
  cases s <;> rfl

theorem get_ne {c : Char} (h : ∀ d ∈ s.head?, d ≠ c) : (get s).1 ≠ some c := by
  rw [get_fst]
  intro hc
  exact h c hc rfl

/-! ## White space -/

/-- A character that `skip_spaces` stops at under every flag. -/
def Solid (c : Char) : Prop := ¬ Space c ∧ c ≠ '/'

instance (c : Char) : Decidable (Solid c) := inferInstanceAs (Decidable (_ ∧ _))

theorem skip_ws (hw : Ws w) (s : List Char) : skipSpaces F (w ++ s) = skipSpaces F s := by
  induction w with
  | nil => rfl
  | cons c w ih =>
      obtain ⟨hc, hw⟩ := List.forall_mem_cons.mp hw
      unfold skipSpaces at ih ⊢
      rw [List.cons_append, skip, if_pos (isSpace_iff.mpr hc), ih hw]

/-- **White space is skipped.** -/
theorem skipSpaces_solid (hw : Ws w) {c : Char} (hc : Solid c) (s : List Char) :
    skipSpaces F (w ++ c :: s) = .ok (some c, s) := by
  rw [skip_ws hw, skipSpaces, skip, if_neg fun h => hc.1 (isSpace_iff.mp h), if_neg fun h => hc.2 h.1]

theorem skipSpaces_end (hw : Ws w) : skipSpaces F w = .ok (none, []) := by
  have h := skip_ws (F := F) hw []
  rw [List.append_nil] at h
  rw [h]
  rfl

/-- Without comments nothing else is. -/
theorem skipSpaces_sound {b : Bool} {ch : Option Char}
    (h : skipSpaces (.plain b) s = .ok (ch, rest)) :
    ∃ w, Ws w ∧ s = w ++ unget ch rest ∧ (ch = none → rest = []) := by
  unfold skipSpaces at h
  induction s with
  | nil =>
      obtain ⟨rfl, rfl⟩ := Prod.mk.inj (Except.ok.inj h)
      exact ⟨[], ws_nil, rfl, fun _ => rfl⟩
  | cons c s ih =>
      rw [skip] at h
      by_cases hc : isSpace c = true
      · rw [if_pos hc] at h
        obtain ⟨w, hw, rfl, hend⟩ := ih h
        exact ⟨c :: w, hw.cons (isSpace_iff.mp hc), rfl, hend⟩
      · rw [if_neg hc, if_neg (by simp [Flags.plain])] at h
        obtain ⟨rfl, rfl⟩ := Prod.mk.inj (Except.ok.inj h)
        exact ⟨[], ws_nil, rfl, fun h => by cases h⟩

/-! ## Literals -/

theorem equals_text (l s : List Char) : equals ctx l (l ++ s) = .ok s := by
  induction l with
  | nil => rw [List.nil_append, equals.eq_def]
  | cons c l ih => rw [List.cons_append, equals, if_pos rfl, ih]

theorem equals_sound {l : List Char} (h : equals ctx l s = .ok rest) : s = l ++ rest := by
  fun_induction equals ctx l s with
  | case1 s => exact Except.ok.inj h
  | case2 => cases h
  | case3 sequence ch s ih => rw [ih h, List.cons_append]
  | case4 => cases h

/-! ## Digits -/

/-- What follows does not begin with a digit. -/
def NoDigit (s : List Char) : Prop := ∀ c ∈ s.head?, isDigit c = false

theorem noDigit_of_head {s' : List Char} (h : NoDigit s) (hs : s'.head? = s.head?) : NoDigit s' := by
  unfold NoDigit
  rw [hs]
  exact h

/-- The digits at the front. -/
theorem exists_digits (s : List Char) : ∃ ds rest, Digits ds ∧ NoDigit rest ∧ s = ds ++ rest := by
  induction s with
  | nil => exact ⟨[], [], fun _ h => absurd h List.not_mem_nil, fun _ h => (by cases h), rfl⟩
  | cons c s ih =>
      by_cases hc : isDigit c = true
      · obtain ⟨ds, rest, hds, hrest, rfl⟩ := ih
        exact ⟨c :: ds, rest, List.forall_mem_cons.mpr ⟨hc, hds⟩, hrest, rfl⟩
      · refine ⟨[], c :: s, fun _ h => absurd h List.not_mem_nil, fun d hd => ?_, rfl⟩
        obtain rfl := Option.some.inj hd
        exact Bool.not_eq_true _ ▸ hc

/-- Digits begin with one. -/
theorem head_digits {ds : List Char} (hds : Digits ds) (hne : ds ≠ []) :
    ∃ d ds', ds = d :: ds' ∧ isDigit d = true := by
  obtain ⟨d, ds', rfl⟩ := List.exists_cons_of_ne_nil hne
  exact ⟨d, ds', rfl, hds d List.mem_cons_self⟩

section Loop
variable {α : Type} {step : α → Char → Option α} {a a' : α} {ds : List Char}

theorem digitLoop_stop (h : NoDigit s) : digitLoop step a s = .ok (a, get s) := by
  cases s with
  | nil => rfl
  | cons c s =>
      have hc : isDigit c = false := h c rfl
      rw [digitLoop, if_neg (by rw [hc]; simp)]
      rfl

/-- **Digits are read to their end**, -/
theorem digitLoop_digits (hds : Digits ds) (hstep : ds.foldlM step a = some a') (h : NoDigit rest) :
    digitLoop step a (ds ++ rest) = .ok (a', get rest) := by
  induction ds generalizing a with
  | nil =>
      obtain rfl := Option.some.inj hstep
      exact digitLoop_stop h
  | cons c ds ih =>
      obtain ⟨hc, hds⟩ := List.forall_mem_cons.mp hds
      obtain ⟨b, hb, hrest⟩ := Option.bind_eq_some_iff.mp ((List.foldlM_cons ..).symm.trans hstep)
      have hdigit : isDigit c = true := (isDigit_eq c).trans hc
      rw [List.cons_append, digitLoop, if_pos hdigit, hb]
      exact ih hds hrest

/-- or to the one at which the number overflows, whatever follows. -/
theorem digitLoop_overflow (hds : Digits ds) (hstep : ds.foldlM step a = none) :
    ∃ ch, ∀ s, digitLoop step a (ds ++ s) = .error (.undefined ch) := by
  induction ds generalizing a with
  | nil => cases hstep
  | cons c ds ih =>
      obtain ⟨hc, hds⟩ := List.forall_mem_cons.mp hds
      have hdigit : isDigit c = true := (isDigit_eq c).trans hc
      rw [List.foldlM_cons] at hstep
      cases hb : step a c with
      | none =>
          refine ⟨some c, fun s => ?_⟩
          rw [List.cons_append, digitLoop, if_pos hdigit, hb]
      | some b =>
          rw [hb] at hstep
          obtain ⟨ch, hover⟩ := ih hds hstep
          refine ⟨ch, fun s => ?_⟩
          rw [List.cons_append, digitLoop, if_pos hdigit, hb]
          exact hover s

end Loop

/-! ## Numbers -/

/-- What follows is no continuation of a number. -/
def Apart (s : List Char) : Prop :=
  ∀ c ∈ s.head?, isDigit c = false ∧ c ≠ '.' ∧ c ≠ 'e' ∧ c ≠ 'E' ∧ c ≠ 'x' ∧ c ≠ 'X'

theorem Apart.noDigit (h : Apart s) : NoDigit s := fun c hc => (h c hc).1

/-! ### The exponent -/

/-- The digits of an exponent, of which there is one at least. -/
def expDigits (value : Nat → Value) (s : List Char) : Except Stop (Value × List Char) := do
  let (expPart, ch, rest) ← digitLoop addExponent 0 s
  if (get s).1.any isDigit then return (value expPart, unget ch rest) else throw (.syntaxError ch "number")

section ExpDigits
variable {value : Nat → Value} {ds : List Char}

theorem foldlM_exponent (ds : List Char) :
    ds.foldlM addExponent 0 = if decimal ds < 2 ^ 31 then some (decimal ds) else none := by
  rw [foldlM_addExponent ds (Nat.zero_le _)]
  simp only [le_intMax]
  rfl

theorem expDigits_digits (hne : ds ≠ []) (hds : Digits ds) (hfit : decimal ds < 2 ^ 31) (h : NoDigit rest) :
    expDigits value (ds ++ rest) = .ok (value (decimal ds), rest) := by
  obtain ⟨d, ds', rfl, hd⟩ := head_digits hds hne
  have hany : (get (d :: ds' ++ rest)).1.any isDigit = true := hd
  have hstep := foldlM_exponent (d :: ds')
  rw [if_pos hfit] at hstep
  unfold expDigits
  rw [digitLoop_digits hds hstep h, ok_bind]
  dsimp only
  rw [if_pos hany, unget_get]
  rfl

theorem expDigits_overflow (value : Nat → Value) (hds : Digits ds) (hfit : ¬ decimal ds < 2 ^ 31) :
    ∃ ch, ∀ s, expDigits value (ds ++ s) = .error (.undefined ch) := by
  have hstep := foldlM_exponent ds
  rw [if_neg hfit] at hstep
  obtain ⟨ch, hover⟩ := digitLoop_overflow hds hstep
  refine ⟨ch, fun s => ?_⟩
  unfold expDigits
  rw [hover, error_bind]

theorem expDigits_none (h : NoDigit s) : expDigits value s = .error (.syntaxError (get s).1 "number") := by
  have hany : ¬ (get s).1.any isDigit = true := by
    rw [get_fst, Option.any_eq_true]
    rintro ⟨c, hc, hdig⟩
    rw [h c hc] at hdig
    cases hdig
  unfold expDigits
  rw [digitLoop_stop h, ok_bind]
  dsimp only
  rw [if_neg hany]
  rfl

end ExpDigits

/-- Behind the digits of a number: its exponent, or its end. -/
def expOrEnd (negative : Bool) (intPart fracPart : UInt64) (fracDivs : Nat) (s : List Char) :
    Except Stop (Value × List Char) :=
  if (get s).1 = some 'e' ∨ (get s).1 = some 'E' then parseExp negative intPart fracPart fracDivs (get s).2
  else .ok (numberValue negative intPart fracPart fracDivs false 0, unget (get s).1 (get s).2)

/-- The first character of the digits of an exponent is no sign, if it has none. -/
def Unsigned (sign : Option Char) (s : List Char) : Prop :=
  (∀ c ∈ sign, c = '-' ∨ c = '+') ∧ (sign = none → ∀ c ∈ s.head?, ¬ (c = '-' ∨ c = '+'))

section Exponent
variable {negative : Bool} {intPart fracPart : UInt64} {fracDivs : Nat} {mark : Char} {sign : Option Char}

/-- An exponent is a sign and digits. -/
theorem parseExp_sign (hsign : Unsigned sign s) :
    parseExp negative intPart fracPart fracDivs (sign.toList ++ s) =
      expDigits (numberValue negative intPart fracPart fracDivs (decide (sign = some '-'))) s := by
  unfold parseExp expDigits
  cases sign with
  | some c =>
      have hc : some c = some '-' ∨ some c = some '+' := (hsign.1 c rfl).imp (congrArg some) (congrArg some)
      rw [Option.toList_some, List.singleton_append, get_cons]
      dsimp only
      rw [if_pos hc, unget_get]
  | none =>
      have hminus : (get s).1 ≠ some '-' := get_ne fun c hc hd => hsign.2 rfl c hc (.inl hd)
      have hplus : (get s).1 ≠ some '+' := get_ne fun c hc hd => hsign.2 rfl c hc (.inr hd)
      have hpositive : decide ((get s).1 = some '-') = false := decide_eq_false hminus
      rw [Option.toList_none, List.nil_append]
      dsimp only
      rw [if_neg (not_or.mpr ⟨hminus, hplus⟩), hpositive, unget_get]
      rfl

theorem expOrEnd_mark (hmark : mark = 'e' ∨ mark = 'E') (hsign : Unsigned sign s) :
    expOrEnd negative intPart fracPart fracDivs (mark :: (sign.toList ++ s)) =
      expDigits (numberValue negative intPart fracPart fracDivs (decide (sign = some '-'))) s := by
  have hget : some mark = some 'e' ∨ some mark = some 'E' := hmark.imp (congrArg some) (congrArg some)
  unfold expOrEnd
  rw [get_cons, if_pos hget]
  exact parseExp_sign hsign

theorem expOrEnd_end (h : ∀ c ∈ s.head?, c ≠ 'e' ∧ c ≠ 'E') :
    expOrEnd negative intPart fracPart fracDivs s =
      .ok (numberValue negative intPart fracPart fracDivs false 0, s) := by
  have hlower : (get s).1 ≠ some 'e' := get_ne fun c hc => (h c hc).1
  have hupper : (get s).1 ≠ some 'E' := get_ne fun c hc => (h c hc).2
  unfold expOrEnd
  rw [if_neg (not_or.mpr ⟨hlower, hupper⟩), unget_get]

end Exponent

/-- There is a sign, or none. -/
theorem exists_sign (s : List Char) : ∃ sign s', Unsigned sign s' ∧ s = sign.toList ++ s' := by
  by_cases hsign : ∃ c s', s = c :: s' ∧ (c = '-' ∨ c = '+')
  · obtain ⟨c, s', rfl, hc⟩ := hsign
    exact ⟨some c, s', ⟨fun c' hc' => Option.some.inj hc' ▸ hc, fun h => by cases h⟩, rfl⟩
  · refine ⟨none, s, ⟨fun _ h => (by cases h), fun _ c hc hs => ?_⟩, rfl⟩
    obtain ⟨s', rfl⟩ := List.head?_eq_some_iff.mp hc
    exact hsign ⟨c, s', rfl, hs⟩

/-- There is a mark, with a sign or without, or none. -/
theorem exp_cases (s : List Char) :
    (∃ mark sign s', (mark = 'e' ∨ mark = 'E') ∧ Unsigned sign s' ∧ s = mark :: (sign.toList ++ s')) ∨
      ∀ c ∈ s.head?, c ≠ 'e' ∧ c ≠ 'E' := by
  cases s with
  | nil => exact .inr fun _ h => by cases h
  | cons mark s =>
      by_cases hmark : mark = 'e' ∨ mark = 'E'
      · obtain ⟨sign, s', hsign, rfl⟩ := exists_sign s
        exact .inl ⟨mark, sign, s', hmark, hsign, rfl⟩
      · refine .inr fun c hc => ?_
        obtain rfl := Option.some.inj hc
        exact not_or.mp hmark

/-- Behind digits, whatever follows. -/
theorem unsigned_digits {sign : Option Char} {ds : List Char} (hsign : ∀ c ∈ sign, c = '-' ∨ c = '+')
    (hds : Digits ds) (hne : ds ≠ []) (s : List Char) : Unsigned sign (ds ++ s) := by
  obtain ⟨d, ds', rfl, hd⟩ := head_digits hds hne
  refine ⟨hsign, fun _ c hc hs => ?_⟩
  obtain rfl := Option.some.inj hc
  exact hs.elim (ne_of_isDigit hd rfl) (ne_of_isDigit hd rfl)

/-! ### The fraction -/

section Fraction
variable {negative : Bool} {intPart : UInt64} {ds : List Char}

theorem foldlM_decimals (ds : List Char) : ds.foldlM addDecimal (0, 0) =
    if ds.length < 2 ^ 31 then some (UInt64.ofNat (decimal ds), ds.length) else none := by
  rw [foldlM_addDecimal ds (Nat.zero_le _), Nat.zero_add]
  simp only [le_intMax]
  rw [show ds.foldl addDigit 0 = UInt64.ofNat (decimal ds) from foldl_addDigit ds 0]

/-- A point, with its digits. -/
theorem parseFrac_point (hds : Digits ds) (hlen : ds.length < 2 ^ 31) (h : NoDigit rest) :
    parseFrac F negative intPart (some '.') (ds ++ rest) =
      if ¬ F.trailingDecimalPoint ∧ ds = [] then .error (.syntaxError (get rest).1 "number")
      else expOrEnd negative intPart (UInt64.ofNat (decimal ds)) ds.length rest := by
  have hstep := foldlM_decimals ds
  rw [if_pos hlen] at hstep
  unfold parseFrac
  rw [if_pos rfl, digitLoop_digits hds hstep h, ok_bind]
  dsimp only
  by_cases hne : ¬ F.trailingDecimalPoint ∧ ds = []
  · rw [if_pos hne, if_pos ⟨hne.1, List.length_eq_zero_iff.mpr hne.2⟩]
    rfl
  · rw [if_neg hne, if_neg fun hc => hne ⟨hc.1, List.length_eq_zero_iff.mp hc.2⟩]
    rfl

/-- Too many of them. -/
theorem parseFrac_overflow (F : Flags) (negative : Bool) (intPart : UInt64) (hds : Digits ds)
    (hlen : ¬ ds.length < 2 ^ 31) :
    ∃ ch, ∀ s, parseFrac F negative intPart (some '.') (ds ++ s) = .error (.undefined ch) := by
  have hstep := foldlM_decimals ds
  rw [if_neg hlen] at hstep
  obtain ⟨ch, hover⟩ := digitLoop_overflow hds hstep
  refine ⟨ch, fun s => ?_⟩
  unfold parseFrac
  rw [if_pos rfl, hover, error_bind]

theorem parseFrac_none (h : ∀ c ∈ s.head?, c ≠ '.') :
    parseFrac F negative intPart (get s).1 (get s).2 = expOrEnd negative intPart 0 0 s := by
  unfold parseFrac
  rw [if_neg (get_ne h)]
  rfl

end Fraction

/-! ### The integer part -/

theorem parseUnsigned_zero {negative : Bool} (h : ∀ c ∈ s.head?, c ≠ 'x' ∧ c ≠ 'X') :
    parseUnsigned F negative (some '0') s = parseFrac F negative 0 (get s).1 (get s).2 := by
  have hx : ¬ (F.hexadecimal ∧ ((get s).1 = some 'x' ∨ (get s).1 = some 'X')) := fun hc =>
    hc.2.elim (get_ne fun c hc => (h c hc).1) (get_ne fun c hc => (h c hc).2)
  rw [parseUnsigned]
  dsimp only
  rw [if_neg hx]

theorem parseUnsigned_digits {negative : Bool} {d : Char} {ds : List Char} (hd : isDigit d = true) (hne : d ≠ '0')
    (hds : Digits ds) (h : NoDigit rest) :
    parseUnsigned F negative (some d) (ds ++ rest) =
      parseFrac F negative (UInt64.ofNat (decimal (d :: ds))) (get rest).1 (get rest).2 := by
  have hint : ds.foldl addDigit (UInt64.ofNat (toNumber d)) = UInt64.ofNat (decimal (d :: ds)) := by
    rw [foldl_addDigit, decimal, Nat.ofDigitChars_cons, Nat.mul_zero, Nat.zero_add]
    rfl
  rw [parseUnsigned, if_pos hd, digitLoop_digits hds (foldlM_addDigit ds _) h, ok_bind, hint]
  exact hne

/-- What stands there begins no number. -/
theorem parseUnsigned_none {b negative : Bool} {d : Char} (hd : isDigit d = false) :
    parseUnsigned (.plain b) negative (some d) s = .error (.syntaxError (some d) "number") := by
  rw [parseUnsigned, if_neg (by rw [hd]; simp), if_neg (by simp [Flags.plain]), if_neg (by simp [Flags.plain]),
    if_neg (by simp [Flags.plain])]
  rintro rfl
  cases hd

/-! ### What is in the grammar is read -/

/-- The mark of an exponent begins it. -/
theorem head_expText {exp : Option Exponent} (hexp : ∀ e ∈ exp, e.Valid) (h : Apart rest) :
    ∀ c ∈ (expText exp ++ rest).head?, isDigit c = false ∧ c ≠ '.' ∧ c ≠ 'x' ∧ c ≠ 'X' := by
  cases exp with
  | none => exact fun c hc => ⟨(h c hc).1, (h c hc).2.1, (h c hc).2.2.2.2⟩
  | some e =>
      intro c hc
      obtain rfl := Option.some.inj hc
      obtain hm | hm := (hexp e rfl).mark
      · rw [hm]
        decide
      · rw [hm]
        decide

/-- The end of a number, with an exponent or without. -/
theorem expOrEnd_text {exp : Option Exponent} (hexp : ∀ e ∈ exp, e.Valid) (h : Apart rest) (negative : Bool)
    (intPart fracPart : UInt64) (fracDivs : Nat) :
    Reads (((exp.map fun e => decimal e.digits).getD 0) < 2 ^ 31)
      (expOrEnd negative intPart fracPart fracDivs (expText exp ++ rest))
      (numberValue negative intPart fracPart fracDivs (exp.any fun e => e.sign = some '-')
        ((exp.map fun e => decimal e.digits).getD 0), rest) := by
  cases exp with
  | none => exact .inl (expOrEnd_end fun c hc => ⟨(h c hc).2.2.1, (h c hc).2.2.2.1⟩)
  | some e =>
      have he := hexp e rfl
      rw [expText, Exponent.text, List.cons_append, List.append_assoc,
        expOrEnd_mark he.mark (unsigned_digits he.sign he.digits he.some rest)]
      by_cases hfit : decimal e.digits < 2 ^ 31
      · exact .inl (expDigits_digits he.some he.digits hfit h.noDigit)
      · obtain ⟨ch, hover⟩ := expDigits_overflow
          (numberValue negative intPart fracPart fracDivs (decide (e.sign = some '-'))) he.digits hfit
        exact .inr ⟨hfit, ch, hover rest⟩

/-- **A fraction and an exponent are read to their end.** -/
theorem parseFrac_text {n : Numeral} (hn : n.Valid) (h : Apart rest) (intPart : UInt64) :
    Reads n.Fits
      (parseFrac F n.negative intPart (get (fracText n.frac ++ (expText n.exp ++ rest))).1
        (get (fracText n.frac ++ (expText n.exp ++ rest))).2)
      (numberValue n.negative intPart (UInt64.ofNat (decimal n.decimals)) n.decimals.length
        (n.exp.any fun e => e.sign = some '-') n.exponent, rest) := by
  have hhead := head_expText hn.exp h
  have hexp := fun fracPart fracDivs => expOrEnd_text hn.exp h n.negative intPart fracPart fracDivs
  unfold Numeral.decimals
  cases hfrac : n.frac with
  | none =>
      rw [fracText, List.nil_append, parseFrac_none fun c hc => (hhead c hc).2.1]
      exact (hexp 0 0).imp Numeral.Fits.exponent
  | some ds =>
      obtain ⟨hne, hds⟩ := hn.frac ds hfrac
      rw [fracText, List.cons_append, get_cons]
      by_cases hlen : ds.length < 2 ^ 31
      · rw [parseFrac_point hds hlen fun c hc => (hhead c hc).1, if_neg fun hc => hne hc.2]
        exact (hexp _ _).imp Numeral.Fits.exponent
      · obtain ⟨ch, hover⟩ := parseFrac_overflow F n.negative intPart hds hlen
        refine .inr ⟨fun hfits => hlen ?_, ch, hover _⟩
        have hdecimals := hfits.decimals
        rw [Numeral.decimals, hfrac] at hdecimals
        exact hdecimals

/-- The integer part and what is behind it. -/
theorem parseUnsigned_text {n : Numeral} (hn : n.Valid) (h : Apart rest) :
    Reads n.Fits
      (parseUnsigned F n.negative (get (n.int ++ (fracText n.frac ++ (expText n.exp ++ rest)))).1
        (get (n.int ++ (fracText n.frac ++ (expText n.exp ++ rest)))).2) (n.value, rest) := by
  -- behind the integer part comes no digit and no `x`
  have htail : ∀ c ∈ (fracText n.frac ++ (expText n.exp ++ rest)).head?,
      isDigit c = false ∧ c ≠ 'x' ∧ c ≠ 'X' := by
    cases n.frac with
    | none => exact fun c hc => ⟨(head_expText hn.exp h c hc).1, (head_expText hn.exp h c hc).2.2⟩
    | some ds =>
        intro c hc
        obtain rfl := Option.some.inj hc
        decide
  have hfrac := parseFrac_text (F := F) hn h (UInt64.ofNat (decimal n.int))
  rw [numberValue_eq] at hfrac
  obtain hzero | ⟨d, ds, hint, hd⟩ := hn.int
  · rw [hzero] at hfrac ⊢
    rw [List.singleton_append, get_cons, parseUnsigned_zero fun c hc => (htail c hc).2]
    exact hfrac
  · have hdigits := hn.digits
    rw [hint] at hdigits hfrac ⊢
    obtain ⟨hdig, hds⟩ := List.forall_mem_cons.mp hdigits
    rw [List.cons_append, get_cons, parseUnsigned_digits hdig hd hds fun c hc => (htail c hc).1]
    exact hfrac

/-- The integer part begins with a digit. -/
theorem Numeral.Valid.int_cons {n : Numeral} (hn : n.Valid) :
    ∃ d ds, n.int = d :: ds ∧ isDigit d = true := by
  obtain ⟨d, ds, hint⟩ : ∃ d ds, n.int = d :: ds := by
    obtain hzero | ⟨d, ds, hint, -⟩ := hn.int
    · exact ⟨'0', [], hzero⟩
    · exact ⟨d, ds, hint⟩
  exact ⟨d, ds, hint, hn.digits d (by rw [hint]; exact List.mem_cons_self)⟩

/-- **A number is read to its end.** -/
theorem parseNumber_text {n : Numeral} (hn : n.Valid) (h : Apart rest) :
    Reads n.Fits (parseNumber F (get (n.text ++ rest)).1 (get (n.text ++ rest)).2) (n.value, rest) := by
  have hunsigned := parseUnsigned_text (F := F) hn h
  unfold parseNumber Numeral.text
  rw [List.append_assoc, List.append_assoc, List.append_assoc]
  cases hneg : n.negative with
  | true =>
      rw [hneg] at hunsigned
      rw [if_pos rfl, List.singleton_append, get_cons, if_pos rfl]
      exact hunsigned
  | false =>
      rw [hneg] at hunsigned
      obtain ⟨d, ds, hint, hdig⟩ := hn.int_cons
      have hminus : some d ≠ some '-' := fun hc => ne_of_isDigit hdig rfl (Option.some.inj hc)
      have hplus : some d ≠ some '+' := fun hc => ne_of_isDigit hdig rfl (Option.some.inj hc)
      have hsign : (if false = true then ['-'] else []) = ([] : List Char) := rfl
      rw [hsign, List.nil_append]
      rw [hint, List.cons_append, get_cons] at hunsigned ⊢
      rw [if_neg hminus, if_neg fun hc => hplus hc.2]
      exact hunsigned

/-! ### What is read is in the grammar -/

theorem expOrEnd_sound {negative : Bool} {intPart fracPart : UInt64} {fracDivs : Nat} {v : Value}
    (h : expOrEnd negative intPart fracPart fracDivs s = .ok (v, rest)) :
    ∃ exp : Option Exponent, (∀ e ∈ exp, e.Valid) ∧ (exp.map fun e => decimal e.digits).getD 0 < 2 ^ 31 ∧
      s = expText exp ++ rest ∧
      v = numberValue negative intPart fracPart fracDivs (exp.any fun e => e.sign = some '-')
        ((exp.map fun e => decimal e.digits).getD 0) := by
  obtain ⟨mark, sign, s', hmark, hsign, rfl⟩ | hend := exp_cases s
  · rw [expOrEnd_mark hmark hsign] at h
    obtain ⟨ds, rest', hds, hrest', rfl⟩ := exists_digits s'
    by_cases hne : ds = []
    · rw [hne, List.nil_append, expDigits_none hrest'] at h
      cases h
    by_cases hfit : decimal ds < 2 ^ 31
    · rw [expDigits_digits hne hds hfit hrest'] at h
      obtain ⟨rfl, rfl⟩ := Prod.mk.inj (Except.ok.inj h)
      refine ⟨some ⟨mark, sign, ds⟩, fun e he => Option.some.inj he ▸ ⟨hmark, hsign.1, hne, hds⟩, hfit, ?_, rfl⟩
      rw [expText, Exponent.text, List.cons_append, List.append_assoc]
    · obtain ⟨ch, hover⟩ := expDigits_overflow
        (numberValue negative intPart fracPart fracDivs (decide (sign = some '-'))) hds hfit
      rw [hover] at h
      cases h
  · rw [expOrEnd_end hend] at h
    obtain ⟨rfl, rfl⟩ := Prod.mk.inj (Except.ok.inj h)
    exact ⟨none, fun _ h => (by cases h), by decide, rfl, rfl⟩

/-- What is behind the integer part. -/
theorem parseFrac_sound {b negative : Bool} (int : List Char) {v : Value}
    (h : parseFrac (.plain b) negative (UInt64.ofNat (decimal int)) (get s).1 (get s).2 = .ok (v, rest)) :
    ∃ (frac : Option (List Char)) (exp : Option Exponent), (∀ ds ∈ frac, ds ≠ [] ∧ Digits ds) ∧
      (∀ e ∈ exp, e.Valid) ∧ Numeral.Fits ⟨negative, int, frac, exp⟩ ∧
      s = fracText frac ++ (expText exp ++ rest) ∧ v = Numeral.value ⟨negative, int, frac, exp⟩ := by
  by_cases hpoint : ∃ s', s = '.' :: s'
  · obtain ⟨s', rfl⟩ := hpoint
    obtain ⟨ds, t, hds, ht, rfl⟩ := exists_digits s'
    rw [get_cons] at h
    by_cases hlen : ds.length < 2 ^ 31
    · rw [parseFrac_point hds hlen ht] at h
      by_cases hne : ds = []
      · rw [if_pos ⟨by simp [Flags.plain], hne⟩] at h
        cases h
      · rw [if_neg fun hc => hne hc.2] at h
        obtain ⟨exp, hvalid, hfit, rfl, hv⟩ := expOrEnd_sound h
        refine ⟨some ds, exp, fun ds' h => Option.some.inj h ▸ ⟨hne, hds⟩, hvalid, ⟨hlen, hfit⟩, rfl, ?_⟩
        rw [hv]
        exact numberValue_eq ⟨negative, int, some ds, exp⟩
    · obtain ⟨ch, hover⟩ := parseFrac_overflow (.plain b) negative (UInt64.ofNat (decimal int)) hds hlen
      rw [hover] at h
      cases h
  · have hhead : ∀ c ∈ s.head?, c ≠ '.' := by
      rintro c hc rfl
      exact hpoint (List.head?_eq_some_iff.mp hc)
    rw [parseFrac_none hhead] at h
    obtain ⟨exp, hvalid, hfit, hs, hv⟩ := expOrEnd_sound h
    refine ⟨none, exp, fun _ h => (by cases h), hvalid, ⟨Nat.two_pow_pos 31, hfit⟩, hs, ?_⟩
    rw [hv]
    exact numberValue_eq ⟨negative, int, none, exp⟩

/-- What is behind the sign. -/
theorem parseUnsigned_sound {b negative : Bool} {v : Value}
    (h : parseUnsigned (.plain b) negative (get s).1 (get s).2 = .ok (v, rest)) :
    ∃ n : Numeral, n.Valid ∧ n.Fits ∧ n.negative = negative ∧
      s = n.int ++ (fracText n.frac ++ (expText n.exp ++ rest)) ∧ v = n.value := by
  cases s with
  | nil => cases h
  | cons c s =>
      rw [get_cons] at h
      by_cases hdig : isDigit c = true
      · by_cases hzero : c = '0'
        · subst hzero
          rw [parseUnsigned] at h
          dsimp only at h
          rw [if_neg (by simp [Flags.plain])] at h
          obtain ⟨frac, exp, hfrac, hexp, hfits, rfl, rfl⟩ := parseFrac_sound ['0'] h
          refine ⟨⟨negative, ['0'], frac, exp⟩, ⟨.inl rfl, ?_, hfrac, hexp⟩, hfits, rfl, rfl, rfl⟩
          exact fun d hd => List.mem_singleton.mp hd ▸ rfl
        · obtain ⟨ds, t, hds, ht, rfl⟩ := exists_digits s
          rw [parseUnsigned_digits hdig hzero hds ht] at h
          obtain ⟨frac, exp, hfrac, hexp, hfits, rfl, rfl⟩ := parseFrac_sound _ h
          exact ⟨⟨negative, c :: ds, frac, exp⟩,
            ⟨.inr ⟨c, ds, rfl, hzero⟩, List.forall_mem_cons.mpr ⟨hdig, hds⟩, hfrac, hexp⟩, hfits, rfl, rfl, rfl⟩
      · rw [parseUnsigned_none (Bool.not_eq_true _ ▸ hdig)] at h
        cases h

/-- **What is read as a number is a numeral.** -/
theorem parseNumber_sound {b : Bool} {v : Value}
    (h : parseNumber (.plain b) (get s).1 (get s).2 = .ok (v, rest)) :
    ∃ n : Numeral, n.Valid ∧ n.Fits ∧ s = n.text ++ rest ∧ v = n.value := by
  unfold parseNumber at h
  by_cases hminus : (get s).1 = some '-'
  · rw [if_pos hminus] at h
    cases s with
    | nil => simp [get] at hminus
    | cons c s =>
        obtain rfl := Option.some.inj hminus
        obtain ⟨n, hn, hfits, hneg, hs, hv⟩ := parseUnsigned_sound h
        refine ⟨n, hn, hfits, ?_, hv⟩
        rw [get_cons] at hs
        rw [Numeral.text, hneg, if_pos rfl, List.singleton_append, List.cons_append, List.append_assoc,
          List.append_assoc]
        exact congrArg _ hs
  · rw [if_neg hminus, if_neg (by simp [Flags.plain])] at h
    obtain ⟨n, hn, hfits, hneg, hs, hv⟩ := parseUnsigned_sound h
    refine ⟨n, hn, hfits, ?_, hv⟩
    have hsign : (if false = true then ['-'] else []) = ([] : List Char) := rfl
    rw [Numeral.text, hneg, hsign, List.nil_append, List.append_assoc, List.append_assoc]
    exact hs

/-! ## Strings -/

variable {buffer body pre : List Char}

/-- A character behind a backslash, in every flavour. -/
theorem stringLoop_escaped {quote e c : Char} (he : escaped e = some c) :
    stringLoop F quote ctx .escape pre (e :: s) = stringLoop F quote ctx .char (pre ++ [c]) s := by
  rw [stringLoop.eq_def]
  dsimp only
  rw [he]

theorem stringLoop_u {quote : Char} :
    stringLoop F quote ctx .escape pre ('u' :: s) = stringLoop F quote ctx (.hex 3 0) pre s := by
  rw [stringLoop.eq_def]
  rfl

/-- What is behind a backslash in a flavour of its own. -/
theorem stringLoop_other {quote e : Char} (he : escaped e = none) (hu : e ≠ 'u') :
    stringLoop F quote ctx .escape pre (e :: s) =
      if e = '\'' ∧ F.singleQuote then stringLoop F quote ctx .char (pre ++ [e]) s
      else if e = '\r' ∧ F.multiLineString then match s with
        | '\n' :: s => stringLoop F quote ctx .char pre s
        | s => stringLoop F quote ctx .char pre s
      else if e = '\n' ∧ F.multiLineString then stringLoop F quote ctx .char pre s
      else .error (.syntaxError (some e) ctx) := by
  rw [stringLoop.eq_def]
  dsimp only
  rw [he]
  dsimp only
  exact if_neg hu

/-- Without the flags there is no other. -/
theorem stringLoop_unescaped {b : Bool} {quote e : Char} (he : escaped e = none) (hu : e ≠ 'u') :
    stringLoop (.plain b) quote ctx .escape pre (e :: s) = .error (.syntaxError (some e) ctx) := by
  rw [stringLoop_other he hu, if_neg (by simp [Flags.plain]), if_neg (by simp [Flags.plain]),
    if_neg (by simp [Flags.plain])]

/-- The code of some hexadecimal digits behind others. -/
def hexCode : Nat → List Char → Option Nat
  | code, [] => some code
  | code, ch :: ds => (toNumberHex ch).bind fun n => hexCode (code * 16 + n) ds

theorem hexCode_four {c3 c2 c1 c0 : Char} {n3 n2 n1 n0 : Nat} (h3 : HexDigit c3 n3) (h2 : HexDigit c2 n2)
    (h1 : HexDigit c1 n1) (h0 : HexDigit c0 n0) :
    hexCode 0 [c3, c2, c1, c0] = some (n3 * 4096 + n2 * 256 + n1 * 16 + n0) := by
  simp only [hexCode, toNumberHex_iff.mpr h3, toNumberHex_iff.mpr h2, toNumberHex_iff.mpr h1,
    toNumberHex_iff.mpr h0, Option.bind_some, Option.some.injEq]
  omega

/-- Four digits write a code of 16 bits. -/
theorem code_lt {c3 c2 c1 c0 : Char} {n3 n2 n1 n0 : Nat} (h3 : HexDigit c3 n3) (h2 : HexDigit c2 n2)
    (h1 : HexDigit c1 n1) (h0 : HexDigit c0 n0) : n3 * 4096 + n2 * 256 + n1 * 16 + n0 < 65536 := by
  have hlt3 := h3.lt
  have hlt2 := h2.lt
  have hlt1 := h1.lt
  have hlt0 := h0.lt
  omega

/-- A code is that of four digits. -/
theorem StringText.code {ds buffer body : List Char} {code : Nat} (hl : ds.length = 4)
    (hc : hexCode 0 ds = some code) (h : StringText buffer body) :
    StringText (utf8 code ++ buffer) ('\\' :: 'u' :: (ds ++ body)) := by
  match ds, hl with
  | [c3, c2, c1, c0], _ =>
      simp only [hexCode, Option.bind_eq_some_iff, toNumberHex_iff] at hc
      obtain ⟨n3, h3, n2, h2, n1, h1, n0, h0, hcode⟩ := hc
      have hsum : code = n3 * 4096 + n2 * 256 + n1 * 16 + n0 := by
        have hcode := Option.some.inj hcode
        omega
      rw [hsum, utf8_eq (code_lt h3 h2 h1 h0)]
      exact .unicode h3 h2 h1 h0 h

/-- The digits of `\u`. -/
theorem stringLoop_hex {quote : Char} {ds : List Char} {left code code' : Nat} (hl : ds.length = left + 1)
    (hc : hexCode code ds = some code') :
    stringLoop F quote ctx (.hex left code) pre (ds ++ s) =
      stringLoop F quote ctx .char (pre ++ utf8 code') s := by
  induction ds generalizing left code with
  | nil => cases hl
  | cons d ds ih =>
      rw [hexCode] at hc
      obtain ⟨n, hn, hc⟩ := Option.bind_eq_some_iff.mp hc
      rw [List.cons_append, stringLoop, hn]
      dsimp only
      cases left with
      | zero =>
          obtain rfl : ds = [] := List.length_eq_zero_iff.mp (Nat.succ.inj hl)
          obtain rfl := Option.some.inj hc
          rfl
      | succ left => exact ih (Nat.succ.inj hl) hc

/-- **A string is read to its quote.** -/
theorem stringLoop_text (h : StringText buffer body) :
    stringLoop F '"' ctx .char pre (body ++ '"' :: rest) = .ok (pre ++ buffer, rest) := by
  induction h generalizing pre with
  | nil => rw [List.nil_append, stringLoop, if_pos rfl, List.append_nil]
  | @char c buffer body hc hq hb _ ih =>
      rw [List.cons_append, stringLoop, if_neg hq, if_neg hc, if_neg hb, ih, List.append_assoc,
        List.singleton_append]
  | @escape e c buffer body he _ ih =>
      rw [List.cons_append, List.cons_append, stringLoop, if_neg (by decide), if_neg (by decide), if_pos rfl,
        stringLoop_escaped (escaped_iff.mpr he), ih, List.append_assoc, List.singleton_append]
  | @unicode c3 c2 c1 c0 n3 n2 n1 n0 buffer body h3 h2 h1 h0 _ ih =>
      have hcode := hexCode_four h3 h2 h1 h0
      rw [List.cons_append, List.cons_append, stringLoop, if_neg (by decide), if_neg (by decide), if_pos rfl,
        stringLoop_u]
      have hloop : stringLoop F '"' ctx (.hex 3 0) pre ([c3, c2, c1, c0] ++ (body ++ '"' :: rest)) = _ :=
        stringLoop_hex rfl hcode
      rw [utf8_eq (code_lt h3 h2 h1 h0), ih, List.append_assoc] at hloop
      exact hloop

theorem parseString_text (h : StringText buffer body) :
    parseString F (some '"') ctx (body ++ '"' :: rest) = .ok (buffer, rest) := by
  unfold parseString
  dsimp only
  rw [if_pos (.inl rfl)]
  exact stringLoop_text h

/-- What is to come of a string. -/
def StringMode.Text : StringMode → List Char → List Char → Prop
  | .char, buffer, body => StringText buffer body
  | .escape, buffer, body => StringText buffer ('\\' :: body)
  | .hex left code, buffer, body => ∃ ds code' buffer' body', ds.length = left + 1 ∧
      hexCode code ds = some code' ∧ StringText buffer' body' ∧ buffer = utf8 code' ++ buffer' ∧
      body = ds ++ body'

/-- **What the loop does with a character** without the flags: the quote ends it, the character is refused, or the
    loop goes on in a mode in which what is to come goes on with the text. -/
theorem stringLoop_cons (b : Bool) (ctx : String) (mode : StringMode) (pre : List Char) (c : Char) :
    (mode = .char ∧ c = '"') ∨
      (∀ s, stringLoop (.plain b) '"' ctx mode pre (c :: s) = .error (.syntaxError (some c) ctx)) ∨
      ∃ mode' added,
        (∀ s, stringLoop (.plain b) '"' ctx mode pre (c :: s) =
          stringLoop (.plain b) '"' ctx mode' (pre ++ added) s) ∧
        ∀ buffer body, mode'.Text buffer body → mode.Text (added ++ buffer) (c :: body) := by
  cases mode with
  | char =>
      by_cases hq : c = '"'
      · exact .inl ⟨rfl, hq⟩
      refine .inr ?_
      by_cases hc : c < ' '
      · exact .inl fun s => by rw [stringLoop, if_neg hq, if_pos hc]
      refine .inr ?_
      by_cases hb : c = '\\'
      · refine ⟨.escape, [], fun s => ?_, fun buffer body htext => hb ▸ htext⟩
        rw [stringLoop, if_neg hq, if_neg hc, if_pos hb, List.append_nil]
      · refine ⟨.char, [c], fun s => ?_, fun buffer body htext => .char hc hq hb htext⟩
        rw [stringLoop, if_neg hq, if_neg hc, if_neg hb]
  | escape =>
      refine .inr ?_
      cases he : escaped c with
      | some c' =>
          exact .inr ⟨.char, [c'], fun s => stringLoop_escaped he, fun buffer body htext =>
            .escape (escaped_iff.mp he) htext⟩
      | none =>
          by_cases hu : c = 'u'
          · subst hu
            refine .inr ⟨.hex 3 0, [], fun s => by rw [stringLoop_u, List.append_nil], ?_⟩
            rintro - - ⟨ds, code', buffer', body', hl, hcode, htext, rfl, rfl⟩
            exact htext.code hl hcode
          · exact .inl fun s => stringLoop_unescaped he hu
  | hex left code =>
      refine .inr ?_
      cases hn : toNumberHex c with
      | none => exact .inl fun s => by rw [stringLoop, hn]
      | some n =>
          have hcons : ∀ ds, hexCode code (c :: ds) = hexCode (code * 16 + n) ds := fun ds => by
            rw [hexCode, hn]
            rfl
          refine .inr ?_
          cases left with
          | zero =>
              refine ⟨.char, utf8 (code * 16 + n), fun s => by rw [stringLoop, hn], ?_⟩
              intro buffer body htext
              exact ⟨[c], code * 16 + n, buffer, body, rfl, hcons [], htext, rfl, rfl⟩
          | succ left =>
              refine ⟨.hex left (code * 16 + n), [], fun s => by rw [stringLoop, hn, List.append_nil], ?_⟩
              rintro - - ⟨ds, code', buffer', body', hl, hcode, htext, rfl, rfl⟩
              exact ⟨c :: ds, code', buffer', body', congrArg Nat.succ hl, (hcons ds).trans hcode, htext, rfl, rfl⟩

/-- Without the flags what is read is the text of a string. -/
theorem stringLoop_sound {b : Bool} {mode : StringMode}
    (h : stringLoop (.plain b) '"' ctx mode pre s = .ok (buffer, rest)) :
    ∃ buffer' body, mode.Text buffer' body ∧ s = body ++ '"' :: rest ∧ buffer = pre ++ buffer' := by
  induction s generalizing mode pre with
  | nil => cases mode <;> cases h
  | cons c s ih =>
      obtain ⟨rfl, rfl⟩ | hrefused | ⟨mode', added, hstep, htext⟩ := stringLoop_cons b ctx mode pre c
      · rw [stringLoop, if_pos rfl] at h
        obtain ⟨rfl, rfl⟩ := Prod.mk.inj (Except.ok.inj h)
        exact ⟨[], [], .nil, rfl, (List.append_nil _).symm⟩
      · rw [hrefused] at h
        cases h
      · rw [hstep] at h
        obtain ⟨buffer', body, hbody, rfl, rfl⟩ := ih h
        exact ⟨added ++ buffer', c :: body, htext _ _ hbody, rfl, List.append_assoc ..⟩

theorem parseString_sound {b : Bool} {quote : Option Char}
    (h : parseString (.plain b) quote ctx s = .ok (buffer, rest)) :
    quote = some '"' ∧ ∃ body, StringText buffer body ∧ s = body ++ '"' :: rest := by
  unfold parseString at h
  cases quote with
  | none => cases h
  | some q =>
      dsimp only at h
      by_cases hq : q = '"'
      · subst hq
        rw [if_pos (.inl rfl)] at h
        obtain ⟨buffer', body, htext, hs, rfl⟩ := stringLoop_sound h
        exact ⟨rfl, body, htext, hs⟩
      · rw [if_neg (by simp [Flags.plain, hq])] at h
        cases h

/-! ## Keys -/

/-- **A key is read to its quote**, the spaces before it being skipped. -/
theorem parseKey_text (hw : Ws w) (h : StringText buffer body) :
    parseKey F (w ++ '"' :: (body ++ '"' :: rest)) = .ok (buffer, rest) := by
  have hskip := skipSpaces_solid (F := F) hw (c := '"') (by decide) (body ++ '"' :: rest)
  unfold parseKey
  rw [hskip, ok_bind]
  dsimp only
  rw [if_neg (by simp)]
  exact parseString_text h

theorem parseKey_sound {b : Bool} (h : parseKey (.plain b) s = .ok (buffer, rest)) :
    ∃ w body, Ws w ∧ StringText buffer body ∧ s = w ++ '"' :: (body ++ '"' :: rest) := by
  unfold parseKey at h
  obtain ⟨⟨ch, t⟩, hskip, h⟩ := bind_ok.mp h
  dsimp only at h
  rw [if_neg (by simp [Flags.plain])] at h
  obtain ⟨rfl, body, htext, rfl⟩ := parseString_sound h
  obtain ⟨w, hw, rfl, -⟩ := skipSpaces_sound hskip
  exact ⟨w, body, hw, htext, rfl⟩

end Json

end DlsSdk
