import DlsSdk.Library.Scanner
import DlsSdk.Json.Accepts

/-!
# `Json.Scanning` — the parser as a scanner

Under every flag the functions of `Parser` read the stream with one character of lookahead (`Takes`): what they do
is decided by the characters they take and the one behind, and an error by what is before the character it names
and this character. They all end with a value or a `syntax_error`, or where an integer overflows, for which there
have to be ten digits in a row (`LongRun`): the calls that `do_parse` is given are enough (`doParse_takes`), and
more of them change nothing (`parseValue_more`).

`skip_spaces` returns the character that it has stopped at. Its callers look at it and may put it back, so here it
leaves that character in the stream (`spaces`), and they begin with it; the same goes for digits (`digits`).
-/

namespace DlsSdk

namespace Json

open Scanner

/-! ## How the parser can fail -/

/-- The character that an error names, or at which an integer overflows. -/
def Stop.blame : Stop → Option Char
  | .syntaxError ch _ => ch
  | .undefined ch => ch
  | .outOfFuel => none

/-- Ten digits in a row, decimal or hexadecimal. -/
def LongRun (s : List Char) : Prop := ∃ ds, ds <:+: s ∧ ds.length = 10 ∧ ∀ c ∈ ds, ∃ n, HexDigit c n

theorem LongRun.behind {s : List Char} (h : LongRun s) (p : List Char) : LongRun (p ++ s) := by
  obtain ⟨ds, hds, hlen, hdigit⟩ := h
  exact ⟨ds, hds.trans (List.suffix_append p s).isInfix, hlen, hdigit⟩

theorem longRun_hex {ds : List Char} (hds : ∀ c ∈ ds, ∃ n, HexDigit c n) (hlen : 10 ≤ ds.length)
    (rest : List Char) : LongRun (ds ++ rest) := by
  refine ⟨ds.take 10, ?_, ?_, fun c hc => hds c (List.mem_of_mem_take hc)⟩
  · exact (List.take_prefix 10 ds).isInfix.trans (List.prefix_append ds rest).isInfix
  · rw [List.length_take]
    omega

/-- A decimal digit is a hexadecimal one. -/
theorem longRun_digits {ds : List Char} (hds : Digits ds) (hlen : 10 ≤ ds.length) (rest : List Char) :
    LongRun (ds ++ rest) := by
  refine longRun_hex (fun c hc => ⟨toNumber c, toNumberHex_iff.mp ?_⟩) hlen rest
  have hdigit : isDigit c = true := (isDigit_eq c).trans (hds c hc)
  rw [toNumberHex, if_pos hdigit]

/-- It does not run out of calls. If it is `strict`, it does not overflow without a long run of digits either. -/
def failures (strict : Bool) : Failures Char Stop where
  blame := Stop.blame
  allowed e s := e ≠ .outOfFuel ∧ (strict = true → ∀ ch, e = .undefined ch → LongRun s)
  behind h p := ⟨h.1, fun hstrict ch he => (h.2 hstrict ch he).behind p⟩

/-- `x` reads `s` with one character of lookahead, takes `n` characters or more, and does not run out. -/
abbrev Takes {α : Type} (strict : Bool) (n : Nat) (x : Scan Char Stop α) (s : List Char) : Prop :=
  Ahead (failures strict) n x s

variable {F : Flags} {strict : Bool} {s : List Char} {ctx : String} {α β : Type}

/-- A `syntax_error` is allowed. -/
theorem allowed_syntaxError (strict : Bool) (ch : Option Char) (ctx : String) (s : List Char) :
    (failures strict).allowed (.syntaxError ch ctx) s := ⟨by simp, fun _ _ h => by cases h⟩

/-- A `syntax_error` at the character that was read. -/
theorem takes_refuse (ctx : String) {n : Nat} {x : Scan Char Stop α} {c : Char}
    (hx : ∀ s', x (c :: s') = .error (.syntaxError (some c) ctx)) : Takes strict n x (c :: s) :=
  .refuse hx (allowed_syntaxError ..) fun _ h => (Option.some.inj h).symm

/-- An overflow at the character that was read. -/
theorem takes_overflow {n : Nat} {x : Scan Char Stop α} {c : Char}
    (hx : ∀ s', x (c :: s') = .error (.undefined (some c))) : Takes false n x (c :: s) :=
  .refuse hx ⟨by simp, fun h => by cases h⟩ fun _ h => (Option.some.inj h).symm

/-- A `syntax_error` at the end. -/
theorem takes_eos {n : Nat} {x : Scan Char Stop α} {ctx : String}
    (hx : x [] = .error (.syntaxError none ctx)) : Takes strict n x [] := by
  refine .nil (fun h => ?_) fun h => ?_
  · rw [hx] at h
    cases h
  · rw [hx] at h
    obtain rfl := Except.error.inj h
    exact ⟨allowed_syntaxError .., rfl⟩

/-- A result at the end. -/
theorem takes_end {x : Scan Char Stop α} {a : α} (hx : x [] = .ok (a, [])) : Takes strict 0 x [] := by
  refine .nil (fun h => ?_) fun h => ?_
  · rw [hx] at h
    exact ⟨rfl, (Prod.mk.inj (Except.ok.inj h)).2.symm⟩
  · rw [hx] at h
    cases h

/-- A scanner that returns what it was given. -/
theorem takes_pure {x : Scan Char Stop α} {a : α} (hx : ∀ s', x s' = .ok (a, s')) : Takes strict 0 x s :=
  .pure fun s' _ => hx s'

/-- A function that calls another one and goes on with what that has left. -/
theorem takes_bind {n m : Nat} {x : Scan Char Stop β} {y : Scan Char Stop α}
    {f : α × List Char → Except Stop (β × List Char)} (hx : ∀ s', x s' = y s' >>= f) (hy : Takes strict n y s)
    (hf : ∀ a rest, n + rest.length ≤ s.length → Takes strict m (fun s => f (a, s)) rest) :
    Takes strict (n + m) x s :=
  .congr (fun s' _ => hx s') (Ahead.bind hy fun h => hf _ _ (hy.length h))

/-! ## White space and comments -/

/-- A loop of `skip_spaces`, with what it has stopped at put back. -/
def spacesIn (F : Flags) (mode : SkipMode) : Scan Char Stop Unit := fun s =>
  (skip F mode s).map fun r => ((), unget r.1 r.2)

/-- `skip_spaces`, with what it has stopped at put back. -/
abbrev spaces (F : Flags) : Scan Char Stop Unit := spacesIn F .space

theorem spacesIn_take {mode mode' : SkipMode} {c : Char} (h : ∀ s', skip F mode (c :: s') = skip F mode' s')
    (hs : Takes strict 0 (spacesIn F mode') s) : Takes strict 0 (spacesIn F mode) (c :: s) :=
  .mono (.take (fun s' => by rw [spacesIn, h, spacesIn]) hs) (Nat.zero_le _)

theorem spacesIn_stop {mode : SkipMode} {c : Char} (h : ∀ s', skip F mode (c :: s') = .ok (some c, s')) :
    Takes strict 0 (spacesIn F mode) (c :: s) :=
  .unget fun s' => by
    rw [spacesIn, h]
    rfl

theorem spacesIn_takes (mode : SkipMode) : Takes strict 0 (spacesIn F mode) s := by
  fun_induction skip F mode s with
  | case1 => exact takes_end rfl
  | case2 ch s h ih => exact spacesIn_take (fun s' => by rw [skip, if_pos h]) ih
  | case3 ch s h h' ih => exact spacesIn_take (fun s' => by rw [skip, if_neg h, if_pos h']) ih
  | case4 ch s h h' => exact spacesIn_stop fun s' => by rw [skip, if_neg h, if_neg h']
  | case5 => exact takes_end rfl
  | case6 ch s h ih => exact spacesIn_take (fun s' => by rw [skip, if_pos h]) ih
  | case7 ch s h h' ih => exact spacesIn_take (fun s' => by rw [skip, if_neg h, if_pos h']) ih
  | case8 ch s h h' => exact spacesIn_stop fun s' => by rw [skip, if_neg h, if_neg h']
  | case9 => exact takes_end rfl
  | case10 ch s h ih => exact spacesIn_take (fun s' => by rw [skip, if_pos h]) ih
  | case11 ch s h ih => exact spacesIn_take (fun s' => by rw [skip, if_neg h]) ih
  | case12 => exact takes_eos rfl
  | case13 s ih => exact spacesIn_take (fun s' => by rw [skip, if_pos rfl]) ih
  | case14 ch s h ih => exact spacesIn_take (fun s' => by rw [skip, if_neg h]) ih
  | case15 => exact takes_eos rfl
  | case16 s ih => exact spacesIn_take (fun s' => by rw [skip, if_pos rfl]) ih
  | case17 s h ih => exact spacesIn_take (fun s' => by rw [skip, if_neg h, if_pos rfl]) ih
  | case18 ch s h h' ih => exact spacesIn_take (fun s' => by rw [skip, if_neg h, if_neg h']) ih

theorem skip_none {mode : SkipMode} {rest : List Char} (h : skip F mode s = .ok (none, rest)) :
    rest = [] := by
  fun_induction skip F mode s with
  | case1 | case5 | case9 => exact (Prod.mk.inj (Except.ok.inj h)).2.symm
  | case4 | case8 => cases (Prod.mk.inj (Except.ok.inj h)).1
  | case12 | case15 => cases h
  | case2 _ _ _ ih | case3 _ _ _ _ ih | case6 _ _ _ ih | case7 _ _ _ _ ih | case10 _ _ _ ih
  | case11 _ _ _ ih | case13 _ ih | case14 _ _ _ ih | case16 _ ih | case17 _ _ ih
  | case18 _ _ _ _ ih => exact ih h

/-- What follows `skip_spaces` begins with the character that it has stopped at. -/
theorem skipSpaces_bind (f : Option Char × List Char → Except Stop β) :
    skipSpaces F s >>= f = spaces F s >>= fun r => f (get r.2) := by
  unfold skipSpaces spaces spacesIn
  cases hs : skip F .space s with
  | error e => rfl
  | ok r =>
      obtain ⟨ch, rest⟩ := r
      cases ch with
      | none =>
          obtain rfl := skip_none hs
          rfl
      | some c => rfl

/-- A function that begins with `skip_spaces`. -/
theorem takes_skipSpaces {n : Nat} {x : Scan Char Stop α}
    {f : Option Char × List Char → Except Stop (α × List Char)} (hx : ∀ s', x s' = skipSpaces F s' >>= f)
    (hf : ∀ s', s'.length ≤ s.length → Takes strict n (fun s' => f (get s')) s') : Takes strict n x s := by
  rw [← Nat.zero_add n]
  have hspaces : Takes strict 0 (spaces F) s := spacesIn_takes .space
  refine takes_bind (fun s' => (hx s').trans (skipSpaces_bind f)) hspaces fun _ _ hlen => ?_
  exact hf _ (by omega)

/-! ## Literals -/

theorem equals_takes (l : List Char) :
    Takes strict 0 (fun s => (equals ctx l s).map fun rest => ((), rest)) s := by
  fun_induction equals ctx l s with
  | case1 s => exact takes_pure fun s' => by rw [equals.eq_def]; rfl
  | case2 => exact takes_eos rfl
  | case3 sequence ch s ih =>
      exact .mono (.take (fun s' => by rw [equals, if_pos rfl]) ih) (Nat.zero_le _)
  | case4 expected sequence ch s h =>
      refine takes_refuse ctx fun s' => ?_
      rw [equals, if_neg h]
      rfl

/-- A literal, and what is returned for it. -/
theorem takes_equals (ctx : String) (l : List Char) (a : α) (s : List Char) :
    Takes strict 0 (fun s => equals ctx l s >>= fun rest => .ok (a, rest)) s := by
  have hbind : (fun s => equals ctx l s >>= fun rest => .ok (a, rest)) =
      fun s => (equals ctx l s).map (fun rest => ((), rest)) >>= fun r => .ok (a, r.2) := by
    funext s'
    cases equals ctx l s' <;> rfl
  rw [hbind]
  exact Ahead.bind (f := fun r => .ok (a, r.2)) (equals_takes l) fun _ => takes_pure fun _ => rfl

/-! ## Numbers -/

/-- The loop over the digits, with what it has stopped at put back. -/
def digits (step : β → Char → Option β) (b : β) : Scan Char Stop β := fun s =>
  (digitLoop step b s).map fun r => (r.1, unget r.2.1 r.2.2)

theorem digits_takes {step : β → Char → Option β} {b : β} : Takes false 0 (digits step b) s := by
  induction s generalizing b with
  | nil => exact takes_end rfl
  | cons c s ih =>
      by_cases hc : isDigit c = true
      · cases hstep : step b c with
        | none =>
            refine takes_overflow fun s' => ?_
            rw [digits, digitLoop, if_pos hc, hstep]
            rfl
        | some b' =>
            refine .mono (.take (fun s' => ?_) (ih (b := b'))) (Nat.zero_le _)
            rw [digits, digitLoop, if_pos hc, hstep, digits]
      · refine .unget (a := b) fun s' => ?_
        rw [digits, digitLoop, if_neg hc]
        rfl

theorem digitLoop_none {step : β → Char → Option β} {b b' : β} {rest : List Char}
    (h : digitLoop step b s = .ok (b', none, rest)) : rest = [] := by
  fun_induction digitLoop step b s with
  | case1 => exact (Prod.mk.inj (Prod.mk.inj (Except.ok.inj h)).2).2.symm
  | case2 _ _ _ _ _ _ ih => exact ih h
  | case3 => cases h
  | case4 => cases (Prod.mk.inj (Prod.mk.inj (Except.ok.inj h)).2).1

/-- What follows the digits begins with the character that the loop has stopped at. -/
theorem digitLoop_bind {step : β → Char → Option β} {b : β}
    (f : β × Option Char × List Char → Except Stop α) :
    digitLoop step b s >>= f = digits step b s >>= fun r => f (r.1, get r.2) := by
  unfold digits
  cases hs : digitLoop step b s with
  | error e => rfl
  | ok r =>
      obtain ⟨b', ch, rest⟩ := r
      cases ch with
      | none =>
          obtain rfl := digitLoop_none hs
          rfl
      | some c => rfl

/-- A function that begins with digits. -/
theorem takes_digits {n : Nat} {step : β → Char → Option β} {b : β} {x : Scan Char Stop α}
    {f : β × Option Char × List Char → Except Stop (α × List Char)} (hx : ∀ s', x s' = digitLoop step b s' >>= f)
    (hf : ∀ b s', Takes false n (fun s' => f (b, get s')) s') : Takes false n x s := by
  rw [← Nat.zero_add n]
  exact takes_bind (fun s' => (hx s').trans (digitLoop_bind f)) digits_takes fun b rest _ => hf b rest

theorem expDigits_takes (value : Nat → Value) (s : List Char) : Takes false 0 (expDigits value) s := by
  cases s with
  | nil => exact takes_eos rfl
  | cons c s =>
      by_cases hc : isDigit c = true
      · have hend : Takes false 0 (fun s => digitLoop addExponent 0 s >>= fun r =>
            Except.ok (value r.1, unget r.2.1 r.2.2)) (c :: s) :=
          takes_digits (fun _ => rfl) fun n s' => takes_pure (a := value n) fun s' => by rw [unget_get]
        refine .congr_cons hend fun s' => ?_
        unfold expDigits
        congr 1
        funext r
        exact if_pos hc
      · refine takes_refuse "number" fun s' => expDigits_none fun d hd => ?_
        obtain rfl := Option.some.inj hd
        exact Bool.not_eq_true _ ▸ hc

theorem parseExp_takes {negative : Bool} {intPart fracPart : UInt64} {fracDivs : Nat} :
    Takes false 0 (parseExp negative intPart fracPart fracDivs) s := by
  have hdigits := fun sign => expDigits_takes (numberValue negative intPart fracPart fracDivs sign)
  obtain ⟨sign, s', hsign, rfl⟩ := exists_sign s
  cases sign with
  | some c =>
      refine .mono (.take (fun s' => ?_) (hdigits (decide (some c = some '-')) s')) (Nat.zero_le _)
      exact parseExp_sign ⟨hsign.1, fun h => by cases h⟩
  | none =>
      refine .congr (fun s1 hs1 => ?_) (hdigits (decide (none = some '-')) s')
      have hunsigned : Unsigned none s1 := ⟨hsign.1, fun _ => by rw [hs1]; exact hsign.2 rfl⟩
      exact parseExp_sign hunsigned

/-- The end of a number, with an exponent or without. -/
theorem expOrEnd_takes (negative : Bool) (intPart fracPart : UInt64) (fracDivs : Nat) (s : List Char) :
    Takes false 0 (expOrEnd negative intPart fracPart fracDivs) s := by
  cases s with
  | nil => exact takes_end rfl
  | cons c s =>
      by_cases hc : some c = some 'e' ∨ some c = some 'E'
      · exact .mono (.take (fun s' => by rw [expOrEnd, get_cons, if_pos hc]) parseExp_takes) (Nat.zero_le _)
      · exact .unget fun s' => by rw [expOrEnd, get_cons, if_neg hc, unget_some]

/-- A fraction behind its point. -/
theorem parseFrac_point_takes (F : Flags) (negative : Bool) (intPart : UInt64) (s : List Char) :
    Takes false 0 (parseFrac F negative intPart (some '.')) s := by
  refine takes_digits (fun s' => by rw [parseFrac, if_pos rfl]) fun p s' => ?_
  dsimp only
  by_cases hp : ¬ F.trailingDecimalPoint ∧ p.2 = 0
  · simp only [if_pos hp]
    cases s' with
    | nil => exact takes_eos rfl
    | cons d s => exact takes_refuse "number" fun s' => rfl
  · simp only [if_neg hp]
    exact expOrEnd_takes negative intPart p.1 p.2 s'

theorem parseFrac_takes (F : Flags) (negative : Bool) (intPart : UInt64) (s : List Char) :
    Takes false 0 (fun s => parseFrac F negative intPart (get s).1 (get s).2) s := by
  by_cases hpoint : ∃ s', s = '.' :: s'
  · obtain ⟨s', rfl⟩ := hpoint
    exact .mono (.take (fun _ => rfl) (parseFrac_point_takes F negative intPart s')) (Nat.zero_le _)
  · refine .congr (fun s' hs' => parseFrac_none fun c hc => ?_) (expOrEnd_takes negative intPart 0 0 s)
    rintro rfl
    rw [hs'] at hc
    exact hpoint (List.head?_eq_some_iff.mp hc)

theorem hexValue_takes (negative : Bool) (intPart : UInt64) (s : List Char) :
    Takes false 0 (fun s => hexValue negative intPart (get s).1 (get s).2) s := by
  unfold hexValue
  by_cases hover : negative = true ∧ intPart = 0x8000000000000000
  · simp only [if_pos hover.1, if_pos hover.2]
    cases s with
    | nil =>
        refine .nil (fun h => by cases h) fun h => ?_
        obtain rfl := Except.error.inj h
        exact ⟨⟨by simp, fun h => by cases h⟩, rfl⟩
    | cons c s => exact takes_overflow fun s' => rfl
  · cases negative with
    | false => exact takes_pure fun s' => by rw [if_neg (by simp), unget_get]
    | true =>
        have hne : ¬ intPart = 0x8000000000000000 := fun h => hover ⟨rfl, h⟩
        exact takes_pure fun s' => by rw [if_pos rfl, if_neg hne, unget_get]

theorem hexLoop_takes {negative noDigit : Bool} {intPart : UInt64} :
    Takes false 0 (hexLoop negative noDigit intPart) s := by
  fun_induction hexLoop negative noDigit intPart s with
  | case1 intPart => exact takes_eos (by rw [hexLoop, if_pos rfl])
  | case2 noDigit intPart h =>
      exact .congr_nil (hexValue_takes negative intPart []) (by rw [hexLoop, if_neg h]; rfl)
  | case3 noDigit intPart ch s digit h ih =>
      exact .mono (.take (fun s' => by rw [hexLoop, h]) ih) (Nat.zero_le _)
  | case4 intPart ch s h => exact takes_refuse "number" fun s' => by rw [hexLoop, h]; exact if_pos rfl
  | case5 noDigit intPart ch s h h' =>
      exact .congr_cons (hexValue_takes negative intPart (ch :: s)) fun s' => by rw [hexLoop, h]; exact if_neg h'

theorem parseUnsigned_takes (F : Flags) (negative : Bool) (s : List Char) :
    Takes false 1 (fun s => parseUnsigned F negative (get s).1 (get s).2) s := by
  cases s with
  | nil => exact takes_eos rfl
  | cons c s =>
      by_cases hzero : c = '0'
      · subst hzero
        have hunsigned : ∀ s', parseUnsigned F negative (get ('0' :: s')).1 (get ('0' :: s')).2 =
            if F.hexadecimal ∧ ((get s').1 = some 'x' ∨ (get s').1 = some 'X') then
              hexLoop negative true 0 (get s').2
            else parseFrac F negative 0 (get s').1 (get s').2 := fun _ => rfl
        refine .take hunsigned ?_
        by_cases hx : F.hexadecimal ∧ ((get s).1 = some 'x' ∨ (get s).1 = some 'X')
        · cases s with
          | nil => simp [get] at hx
          | cons d s => exact .mono (.take (fun s' => if_pos hx) hexLoop_takes) (Nat.zero_le _)
        · refine .congr (fun s' hs' => ?_) (parseFrac_takes F negative 0 s)
          rw [get_fst] at hx
          exact if_neg (by rw [get_fst, hs']; exact hx)
      · have hunsigned : ∀ s', parseUnsigned F negative (get (c :: s')).1 (get (c :: s')).2 = _ :=
          fun s' => by rw [get_cons, parseUnsigned]; exact hzero
        by_cases hdig : isDigit c = true
        · have hend : Takes false 0 (fun s => digitLoop (fun part ch => some (addDigit part ch))
              (UInt64.ofNat (toNumber c)) s >>= fun r => parseFrac F negative r.1 r.2.1 r.2.2) s :=
            takes_digits (fun _ => rfl) fun intPart s' => parseFrac_takes F negative intPart s'
          exact .take (fun s' => by rw [hunsigned, if_pos hdig]) hend
        · by_cases hpoint : F.leadingDecimalPoint ∧ c = '.'
          · refine .take (fun s' => ?_) (parseFrac_point_takes F negative 0 s)
            rw [hunsigned, if_neg hdig, if_pos hpoint, hpoint.2]
          · by_cases hinf : F.infinityNumber ∧ c = 'i'
            · refine .take (fun s' => ?_) (takes_equals "number" ['n', 'f', 'i', 'n', 'i', 't', 'y']
                (.number (if negative then -(1.0 / 0.0) else 1.0 / 0.0)) s)
              rw [hunsigned, if_neg hdig, if_neg hpoint, if_pos hinf]
              rfl
            · by_cases hnan : F.notANumber ∧ c = 'N'
              · refine .take (fun s' => ?_) (takes_equals "number" ['a', 'N'] (.number (0.0 / 0.0)) s)
                rw [hunsigned, if_neg hdig, if_neg hpoint, if_neg hinf, if_pos hnan]
                rfl
              · exact takes_refuse "number" fun s' => by
                  rw [hunsigned, if_neg hdig, if_neg hpoint, if_neg hinf, if_neg hnan]

/-- The sign of a number, and what is behind it. -/
theorem parseNumber_cases (F : Flags) (c : Char) :
    (∃ negative, ∀ s, parseNumber F (some c) s = parseUnsigned F negative (get s).1 (get s).2) ∨
      ∀ s, parseNumber F (some c) s = parseUnsigned F false (some c) s := by
  by_cases hminus : some c = some '-'
  · exact .inl ⟨true, fun s => by rw [parseNumber, if_pos hminus]⟩
  · by_cases hplus : F.explicitPlusSign ∧ some c = some '+'
    · exact .inl ⟨false, fun s => by rw [parseNumber, if_neg hminus, if_pos hplus]⟩
    · exact .inr fun s => by rw [parseNumber, if_neg hminus, if_neg hplus]

theorem parseNumber_nil (F : Flags) : parseNumber F none [] = .error (.syntaxError none "number") := by
  rw [parseNumber, if_neg (by simp), if_neg (by simp)]
  rfl

theorem parseNumber_ahead (F : Flags) (s : List Char) :
    Takes false 1 (fun s => parseNumber F (get s).1 (get s).2) s := by
  cases s with
  | nil => exact takes_eos (parseNumber_nil F)
  | cons c s =>
      obtain ⟨negative, hsign⟩ | hnone := parseNumber_cases F c
      · exact .mono (.take hsign (parseUnsigned_takes F negative s)) (Nat.le_succ _)
      · exact .congr_cons (parseUnsigned_takes F false (c :: s)) hnone

/-! ### Where a number overflows -/

theorem expOrEnd_undefined {negative : Bool} {intPart fracPart : UInt64} {fracDivs : Nat} {ch : Option Char}
    (h : expOrEnd negative intPart fracPart fracDivs s = .error (.undefined ch)) : LongRun s := by
  obtain ⟨mark, sign, s', hmark, hsign, rfl⟩ | hend := exp_cases s
  · obtain ⟨ds, rest, hds, hrest, rfl⟩ := exists_digits s'
    rw [expOrEnd_mark hmark hsign] at h
    by_cases hne : ds = []
    · rw [hne, List.nil_append, expDigits_none hrest] at h
      cases h
    by_cases hfit : decimal ds < 2 ^ 31
    · rw [expDigits_digits hne hds hfit hrest] at h
      cases h
    · rw [← List.cons_append]
      exact (longRun_digits hds (length_of_not_fits hds hfit) rest).behind _
  · rw [expOrEnd_end hend] at h
    cases h

theorem parseFrac_undefined {negative : Bool} {intPart : UInt64} {ch : Option Char}
    (h : parseFrac F negative intPart (get s).1 (get s).2 = .error (.undefined ch)) : LongRun s := by
  by_cases hpoint : ∃ s', s = '.' :: s'
  · obtain ⟨s', rfl⟩ := hpoint
    obtain ⟨ds, rest, hds, hrest, rfl⟩ := exists_digits s'
    by_cases hlen : ds.length < 2 ^ 31
    · rw [get_cons, parseFrac_point hds hlen hrest] at h
      by_cases hne : ¬ F.trailingDecimalPoint ∧ ds = []
      · rw [if_pos hne] at h
        cases h
      · rw [if_neg hne] at h
        exact (expOrEnd_undefined h).behind ('.' :: ds)
    · exact (longRun_digits hds (by omega) rest).behind ['.']
  · rw [parseFrac_none fun c hc => ?_] at h
    · exact expOrEnd_undefined h
    · rintro rfl
      exact hpoint (List.head?_eq_some_iff.mp hc)

/-- The negative of the least `long long` has sixteen digits. -/
theorem hexLoop_undefined {negative noDigit : Bool} {intPart : UInt64} {ch : Option Char} {k : Nat}
    (hk : intPart.toNat < 16 ^ k) (h : hexLoop negative noDigit intPart s = .error (.undefined ch)) :
    ∃ ds rest, s = ds ++ rest ∧ (∀ c ∈ ds, ∃ n, HexDigit c n) ∧ 2 ^ 63 < 16 ^ (k + ds.length) := by
  have hvalue : ∀ {intPart : UInt64} {k : Nat} {ch' : Option Char} {s' : List Char}, intPart.toNat < 16 ^ k →
      hexValue negative intPart ch' s' = .error (.undefined ch) → 2 ^ 63 < 16 ^ k := by
    intro intPart k ch' s' hk h
    unfold hexValue at h
    split at h
    · split at h
      · next hint =>
          rw [hint] at hk
          exact hk
      · cases h
    · cases h
  fun_induction hexLoop negative noDigit intPart s generalizing k with
  | case1 => cases h
  | case2 => exact ⟨[], [], rfl, fun _ h => absurd h List.not_mem_nil, hvalue hk h⟩
  | case3 noDigit intPart c s digit hdigit ih =>
      have hhex : HexDigit c digit := toNumberHex_iff.mp hdigit
      have hnext : ((intPart <<< 4) ||| UInt64.ofNat digit).toNat < 16 ^ (k + 1) := by
        have hpow : 16 ^ (k + 1) = 2 ^ (4 * (k + 1)) := by rw [Nat.pow_mul]
        have hbits : 2 ^ 4 ≤ 2 ^ (4 * (k + 1)) := Nat.pow_le_pow_right (by decide) (by omega)
        rw [UInt64.toNat_or, hpow]
        refine Nat.or_lt_two_pow ?_ ?_
        · rw [← hpow, UInt64.toNat_shiftLeft, Nat.pow_succ]
          refine Nat.lt_of_le_of_lt (Nat.mod_le _ _) ?_
          have h16 : intPart.toNat <<< ((4 : UInt64).toNat % 64) = intPart.toNat * 16 := Nat.shiftLeft_eq ..
          rw [h16]
          exact Nat.mul_lt_mul_of_pos_right hk (by decide)
        · rw [UInt64.toNat_ofNat']
          exact Nat.lt_of_le_of_lt (Nat.mod_le _ _) (Nat.lt_of_lt_of_le hhex.lt hbits)
      obtain ⟨ds, rest, rfl, hds, hlen⟩ := ih hnext h
      refine ⟨c :: ds, rest, rfl, List.forall_mem_cons.mpr ⟨⟨digit, hhex⟩, hds⟩, ?_⟩
      rw [List.length_cons, Nat.add_comm ds.length, ← Nat.add_assoc]
      exact hlen
  | case4 => cases h
  | case5 => exact ⟨[], _, rfl, fun _ h => absurd h List.not_mem_nil, hvalue hk h⟩

theorem equals_undefined {l : List Char} {ch : Option Char} {a : α} :
    (equals ctx l s >>= fun rest => Except.ok (a, rest)) ≠ .error (.undefined ch) := by
  fun_induction equals ctx l s with
  | case1 s => exact fun h => by cases h
  | case2 => exact fun h => by cases h
  | case3 sequence ch s ih => exact ih
  | case4 => exact fun h => by cases h

theorem parseUnsigned_undefined {negative : Bool} {ch : Option Char}
    (h : parseUnsigned F negative (get s).1 (get s).2 = .error (.undefined ch)) : LongRun s := by
  cases s with
  | nil => cases h
  | cons c s =>
      rw [get_cons] at h
      by_cases hzero : c = '0'
      · subst hzero
        by_cases hx : F.hexadecimal ∧ ((get s).1 = some 'x' ∨ (get s).1 = some 'X')
        · rw [parseUnsigned] at h
          dsimp only at h
          rw [if_pos hx] at h
          obtain ⟨ds, rest, hs, hds, hlen⟩ := hexLoop_undefined (k := 0) (by decide) h
          cases s with
          | nil => simp [get] at hx
          | cons d s =>
              obtain rfl : s = ds ++ rest := hs
              refine (longRun_hex hds ?_ rest).behind ['0', d]
              refine Nat.le_of_not_lt fun hshort => ?_
              have hpow : 16 ^ (0 + ds.length) ≤ 16 ^ 9 := Nat.pow_le_pow_right (by decide) (by omega)
              omega
        · rw [parseUnsigned] at h
          dsimp only at h
          rw [if_neg hx] at h
          exact (parseFrac_undefined h).behind ['0']
      · by_cases hdig : isDigit c = true
        · obtain ⟨ds, rest, hds, hrest, rfl⟩ := exists_digits s
          rw [parseUnsigned_digits hdig hzero hds hrest] at h
          exact (parseFrac_undefined h).behind (c :: ds)
        · rw [parseUnsigned, if_neg hdig] at h
          · split at h
            · next hpoint =>
                obtain rfl := hpoint.2
                exact parseFrac_undefined h
            · split at h
              · exact absurd h equals_undefined
              · split at h
                · exact absurd h equals_undefined
                · cases h
          · exact hzero

/-- A number that overflows has a long run of digits. -/
theorem parseNumber_undefined {ch : Option Char}
    (h : parseNumber F (get s).1 (get s).2 = .error (.undefined ch)) : LongRun s := by
  cases s with
  | nil =>
      rw [get, parseNumber_nil] at h
      cases h
  | cons c s =>
      rw [get_cons] at h
      obtain ⟨negative, hsign⟩ | hnone := parseNumber_cases F c
      · rw [hsign] at h
        exact (parseUnsigned_undefined h).behind [c]
      · rw [hnone] at h
        exact parseUnsigned_undefined (s := c :: s) h

theorem parseNumber_takes (F : Flags) (s : List Char) :
    Takes true 1 (fun s => parseNumber F (get s).1 (get s).2) s :=
  (parseNumber_ahead F s).allow rfl fun hx hallowed =>
    ⟨hallowed.1, fun _ _ he => parseNumber_undefined (he ▸ hx)⟩

/-! ## Strings -/

theorem stringLoop_refuse {quote : Char} {mode : StringMode} {buffer : List Char} {c : Char}
    (h : ∀ s', stringLoop F quote ctx mode buffer (c :: s') = .error (.syntaxError (some c) ctx)) :
    Takes true 0 (stringLoop F quote ctx mode buffer) (c :: s) := takes_refuse ctx h

theorem stringLoop_take {quote : Char} {mode mode' : StringMode} {buffer buffer' : List Char} {c : Char}
    (h : ∀ s', stringLoop F quote ctx mode buffer (c :: s') = stringLoop F quote ctx mode' buffer' s')
    (hs : Takes true 0 (stringLoop F quote ctx mode' buffer') s) :
    Takes true 0 (stringLoop F quote ctx mode buffer) (c :: s) := .mono (.take h hs) (Nat.zero_le _)

/-- The end of a line behind a backslash, of one character or of two. -/
theorem stringLoop_lineEnd {quote : Char} {buffer : List Char}
    (hs : Takes true 0 (stringLoop F quote ctx .char buffer) s) (hn : ∀ s', s = '\n' :: s' → False) :
    Takes true 0 (fun s => match s with
      | '\n' :: s => stringLoop F quote ctx .char buffer s
      | s => stringLoop F quote ctx .char buffer s) s := by
  refine .congr (fun s' hs' => ?_) hs
  split
  · rename_i s'
    cases s with
    | nil => cases hs'
    | cons c s =>
        obtain rfl := Option.some.inj hs'
        exact absurd rfl (hn s)
  · rfl

theorem stringLoop_takes {quote : Char} {mode : StringMode} {buffer : List Char} :
    Takes true 0 (stringLoop F quote ctx mode buffer) s := by
  fun_induction stringLoop F quote ctx mode buffer s with
  | case1 => exact takes_eos rfl
  | case2 buffer s =>
      have hend : Takes true 0 (fun s => .ok (buffer, s)) s := takes_pure fun _ => rfl
      exact .mono (.take (fun s' => by rw [stringLoop, if_pos rfl]) hend) (Nat.zero_le _)
  | case3 buffer ch s hq hc => exact stringLoop_refuse fun s' => by rw [stringLoop, if_neg hq, if_pos hc]
  | case4 buffer s hq hc ih =>
      exact stringLoop_take (fun s' => by rw [stringLoop, if_neg hq, if_neg hc, if_pos rfl]) ih
  | case5 buffer ch s hq hc hb ih =>
      exact stringLoop_take (fun s' => by rw [stringLoop, if_neg hq, if_neg hc, if_neg hb]) ih
  | case6 buffer ch s ch' he ih => exact stringLoop_take (fun s' => stringLoop_escaped he) ih
  | case7 buffer s _ ih => exact stringLoop_take (fun s' => stringLoop_u) ih
  | case8 buffer ch s he hu hs ih =>
      exact stringLoop_take (fun s' => by rw [stringLoop_other he hu, if_pos hs]) ih
  | case9 buffer ch he hu hs hr s ih =>
      refine .mono (.take (fun s' => by rw [stringLoop_other he hu, if_neg hs, if_pos hr]) ?_) (Nat.zero_le 1)
      exact .mono (.take (fun _ => rfl) ih) (Nat.zero_le 1)
  | case10 buffer ch he hu hs hr s hn ih =>
      refine .mono (.take (fun s' => by rw [stringLoop_other he hu, if_neg hs, if_pos hr]) ?_) (Nat.zero_le 1)
      exact stringLoop_lineEnd ih hn
  | case11 buffer ch s he hu hs hr hn ih =>
      exact stringLoop_take (fun s' => by rw [stringLoop_other he hu, if_neg hs, if_neg hr, if_pos hn]) ih
  | case12 buffer ch s he hu hs hr hn =>
      exact stringLoop_refuse fun s' => by rw [stringLoop_other he hu, if_neg hs, if_neg hr, if_neg hn]
  | case13 left code buffer ch s hn => exact stringLoop_refuse fun s' => by rw [stringLoop, hn]
  | case14 code buffer ch s n hn ih => exact stringLoop_take (fun s' => by rw [stringLoop, hn]) ih
  | case15 code buffer ch s n hn left ih => exact stringLoop_take (fun s' => by rw [stringLoop, hn]) ih

/-- A string with its quote. -/
theorem parseString_takes (F : Flags) (ctx : String) (s : List Char) :
    Takes true 1 (fun s => parseString F (get s).1 ctx (get s).2) s := by
  cases s with
  | nil => exact takes_eos rfl
  | cons c s =>
      by_cases hc : c = '"' ∨ (F.singleQuote ∧ c = '\'')
      · exact .take (fun s' => by rw [get_cons]; exact if_pos hc) stringLoop_takes
      · exact takes_refuse ctx fun s' => by rw [get_cons]; exact if_neg hc

/-! ## Keys -/

theorem identifier_takes {buffer : List Char} : Takes true 0 (identifier ctx buffer) s := by
  fun_induction identifier ctx buffer s with
  | case1 => exact takes_eos rfl
  | case2 buffer ch s h ih => exact .mono (.take (fun s' => by rw [identifier, if_pos h]) ih) (Nat.zero_le _)
  | case3 buffer s h => exact .unget fun s' => by rw [identifier, if_neg h, if_pos rfl]
  | case4 buffer ch s h h' => exact takes_refuse ctx fun s' => by rw [identifier, if_neg h, if_neg h']

theorem parseKey_takes : Takes true 0 (parseKey F) s := by
  refine takes_skipSpaces (parseKey.eq_1 F) fun s1 _ => ?_
  by_cases h : F.unquotedKey ∧ (get s1).1 ≠ some '"' ∧ (get s1).1 ≠ some '\''
  · have hkey : Takes true 0 (identifier "object-key" []) s1 := identifier_takes
    refine .congr (fun s' hs' => ?_) hkey
    rw [get_fst, ← hs', ← get_fst] at h
    exact (if_pos h).trans (congrArg _ (unget_get s'))
  · refine .mono (.congr (fun s' hs' => ?_) (parseString_takes F "object-key" s1)) (Nat.zero_le 1)
    rw [get_fst, ← hs', ← get_fst] at h
    exact if_neg h

/-! ## Values -/

theorem nextElement_takes {close : Char} {empty : Bool} : Takes true 0 (nextElement F close ctx empty) s := by
  refine takes_skipSpaces (nextElement.eq_1 F close ctx empty) fun s1 _ => ?_
  have hmore : ∀ s', Takes true 0 (fun s => Except.ok (false, s)) s' := fun s' => takes_pure fun _ => rfl
  have hclosed : ∀ s', Takes true 0 (fun s => Except.ok (true, s)) s' := fun s' => takes_pure fun _ => rfl
  cases s1 with
  | nil =>
      cases empty with
      | true => exact takes_end rfl
      | false => exact takes_eos rfl
  | cons c s1 =>
      by_cases hclose : some c = some close
      · exact .mono (.take (fun s' => if_pos hclose) (hclosed s1)) (Nat.zero_le _)
      · cases empty with
        | true => exact .unget fun s' => if_neg hclose
        | false =>
            by_cases hcomma : c = ','
            · subst hcomma
              refine .mono (.take (fun s' => if_neg hclose) ?_) (Nat.zero_le 1)
              cases htrailing : F.trailingComma with
              | false => exact hmore s1
              | true =>
                  refine takes_skipSpaces (fun s' => rfl) fun s2 _ => ?_
                  cases s2 with
                  | nil => exact takes_end rfl
                  | cons d s2 =>
                      by_cases hd : some d = some close
                      · exact .mono (.take (fun s' => if_pos hd) (hclosed s2)) (Nat.zero_le _)
                      · exact .unget fun s' => if_neg hd
            · refine takes_refuse ctx fun s' => (if_neg hclose).trans ?_
              exact if_pos fun h => hcomma (Option.some.inj h)

/-- The calls are enough for what is left of the stream. -/
structure Enough (F : Flags) (fuel : Nat) : Prop where
  value : ∀ ctx s, 2 * s.length + 1 ≤ fuel → Takes true 1 (parseValue F fuel ctx) s
  array : ∀ acc s, 2 * s.length + 2 ≤ fuel → Takes true 0 (parseArray F fuel acc) s
  object : ∀ pairs s, 2 * s.length + 2 ≤ fuel → Takes true 0 (parseObject F fuel pairs) s

theorem parseArray_takes {fuel : Nat} (ih : Enough F fuel) (acc : List Value) (s : List Char)
    (hfuel : 2 * s.length + 2 ≤ fuel + 1) : Takes true 0 (parseArray F (fuel + 1) acc) s := by
  have hnext : Takes true 0 (nextElement F ']' "array" acc.isEmpty) s := nextElement_takes
  refine .mono (takes_bind (fun s' => parseArray.eq_2 F acc s' fuel) hnext fun closed s1 h1 => ?_)
    (Nat.zero_le (0 + 0))
  cases closed with
  | true => exact takes_pure fun _ => rfl
  | false =>
      have hvalue := ih.value "array" s1 (by omega)
      refine .mono (takes_bind (fun s' => rfl) hvalue fun v s2 h2 => ?_) (Nat.zero_le (1 + 0))
      exact ih.array _ _ (by omega)

theorem parseObject_takes {fuel : Nat} (ih : Enough F fuel) (pairs : List (String × Value)) (s : List Char)
    (hfuel : 2 * s.length + 2 ≤ fuel + 1) : Takes true 0 (parseObject F (fuel + 1) pairs) s := by
  have hnext : Takes true 0 (nextElement F '}' "object" pairs.isEmpty) s := nextElement_takes
  refine .mono (takes_bind (fun s' => parseObject.eq_2 F pairs s' fuel) hnext fun closed s1 h1 => ?_)
    (Nat.zero_le (0 + 0))
  cases closed with
  | true => exact takes_pure fun _ => rfl
  | false =>
      have hkey : Takes true 0 (parseKey F) s1 := parseKey_takes
      refine .mono (takes_bind (fun s' => rfl) hkey fun key s2 h2 => ?_) (Nat.zero_le (0 + 0))
      refine takes_skipSpaces (fun s' => rfl) fun s3 h3 => ?_
      cases s3 with
      | nil => exact takes_eos rfl
      | cons c s3 =>
          rw [List.length_cons] at h3
          by_cases hc : c = ':'
          · subst hc
            refine .mono (.take (fun s' => rfl) ?_) (Nat.zero_le 1)
            have hvalue := ih.value "object" s3 (by omega)
            refine .mono (takes_bind (fun s' => rfl) hvalue fun v s4 h4 => ?_) (Nat.zero_le (1 + 0))
            exact ih.object _ _ (by omega)
          · exact takes_refuse "object" fun s' => if_pos fun h => hc (Option.some.inj h)

theorem parseValue_takes {fuel : Nat} (ih : Enough F fuel) (ctx : String) (s : List Char)
    (hfuel : 2 * s.length + 1 ≤ fuel + 1) : Takes true 1 (parseValue F (fuel + 1) ctx) s := by
  refine takes_skipSpaces (fun s' => parseValue.eq_2 F ctx s' fuel) fun s1 hs1 => ?_
  cases s1 with
  | nil => exact takes_eos rfl
  | cons c s1 =>
      rw [List.length_cons] at hs1
      have hstring : Takes true 1 (fun s => parseString F (get s).1 "string" (get s).2 >>= fun r =>
          .ok (Value.string (.ofList r.1), r.2)) (c :: s1) :=
        takes_bind (f := fun r => .ok (Value.string (.ofList r.1), r.2)) (fun s' => rfl)
          (parseString_takes F "string" (c :: s1)) fun buffer _ _ =>
            takes_pure (a := Value.string (.ofList buffer)) fun _ => rfl
      -- the case split of the source, on the character that is there
      by_cases h1 : c = '{'
      · subst h1
        exact .take (fun s' => rfl) (ih.object [] s1 (by omega))
      by_cases h2 : c = '['
      · subst h2
        exact .take (fun s' => rfl) (ih.array [] s1 (by omega))
      by_cases h3 : c = '"'
      · subst h3
        exact .congr_cons hstring fun s' => rfl
      by_cases h4 : c = '\''
      · subst h4
        exact .congr_cons hstring fun s' => rfl
      by_cases h5 : c = 'n'
      · subst h5
        exact .take (fun s' => rfl) (takes_equals "null" ['u', 'l', 'l'] Value.null s1)
      by_cases h6 : c = 't'
      · subst h6
        exact .take (fun s' => rfl) (takes_equals "boolean" ['r', 'u', 'e'] (Value.boolean true) s1)
      by_cases h7 : c = 'f'
      · subst h7
        exact .take (fun s' => rfl) (takes_equals "boolean" ['a', 'l', 's', 'e'] (Value.boolean false) s1)
      by_cases hnumber : isDigit c ∨ c = '-' ∨ c = '+' ∨ c = '.' ∨ c = 'i' ∨ c = 'N'
      · refine .congr_cons (parseNumber_takes F (c :: s1)) fun s' => ?_
        simp only [get_cons]
        split <;> simp_all
      · refine takes_refuse ctx fun s' => ?_
        simp only [get_cons]
        split <;> simp_all
        rfl

theorem enough_takes (F : Flags) (fuel : Nat) : Enough F fuel := by
  induction fuel with
  | zero => exact ⟨fun _ _ h => by omega, fun _ _ h => by omega, fun _ _ h => by omega⟩
  | succ fuel ih => exact ⟨parseValue_takes ih, parseArray_takes ih, parseObject_takes ih⟩

/-! ## More calls -/

/-- What ends within some calls ends the same way within more. -/
structure More (F : Flags) (fuel : Nat) : Prop where
  value : ∀ ctx s, parseValue F fuel ctx s ≠ .error .outOfFuel →
    parseValue F (fuel + 1) ctx s = parseValue F fuel ctx s
  array : ∀ acc s, parseArray F fuel acc s ≠ .error .outOfFuel →
    parseArray F (fuel + 1) acc s = parseArray F fuel acc s
  object : ∀ pairs s, parseObject F fuel pairs s ≠ .error .outOfFuel →
    parseObject F (fuel + 1) pairs s = parseObject F fuel pairs s

/-- A sequence that does not run out, of which the parts stay the same. -/
theorem bind_more {x x' : Except Stop α} {f f' : α → Except Stop β} (hx : x ≠ .error .outOfFuel → x' = x)
    (hf : ∀ a, x = .ok a → f a ≠ .error .outOfFuel → f' a = f a)
    (h : x >>= f ≠ .error .outOfFuel) : x' >>= f' = x >>= f := by
  cases x with
  | error e =>
      rw [hx fun he => h (by rw [he]; rfl)]
      rfl
  | ok a =>
      rw [hx (by simp), ok_bind, ok_bind]
      exact hf a rfl h

theorem more (F : Flags) (fuel : Nat) : More F fuel := by
  induction fuel with
  | zero => exact ⟨fun _ _ h => absurd rfl h, fun _ _ h => absurd rfl h, fun _ _ h => absurd rfl h⟩
  | succ fuel ih =>
      refine ⟨fun ctx s h => ?_, fun acc s h => ?_, fun pairs s h => ?_⟩
      · rw [parseValue] at h ⊢
        rw [parseValue]
        refine bind_more (fun _ => rfl) (fun r _ hr => ?_) h
        obtain ⟨ch, s⟩ := r
        dsimp only at hr ⊢
        split
        · exact ih.object [] s hr
        · exact ih.array [] s hr
        all_goals rfl
      · rw [parseArray] at h ⊢
        rw [parseArray]
        refine bind_more (fun _ => rfl) (fun r _ hr => ?_) h
        obtain ⟨closed, s⟩ := r
        cases closed with
        | true => rfl
        | false =>
            exact bind_more (ih.value "array" s) (fun r _ hr => ih.array _ _ hr) hr
      · rw [parseObject] at h ⊢
        rw [parseObject]
        refine bind_more (fun _ => rfl) (fun r _ hr => ?_) h
        obtain ⟨closed, s⟩ := r
        cases closed with
        | true => rfl
        | false =>
            refine bind_more (fun _ => rfl) (fun r _ hr => ?_) hr
            refine bind_more (fun _ => rfl) (fun r' _ hr => ?_) hr
            obtain ⟨ch, s⟩ := r'
            dsimp only at hr ⊢
            split
            · rfl
            · rename_i hch
              rw [if_neg hch] at hr
              exact bind_more (ih.value "object" s) (fun r _ hr => ih.object _ _ hr) hr

theorem parseValue_more {fuel fuel' : Nat} (h : parseValue F fuel ctx s ≠ .error .outOfFuel)
    (hle : fuel ≤ fuel') : parseValue F fuel' ctx s = parseValue F fuel ctx s := by
  induction hle with
  | refl => rfl
  | step _ ih => rw [(more F _).value ctx s (by rw [ih]; exact h), ih]

/-! ## Whole texts -/

/-- The calls that `do_parse` is given are enough. -/
theorem parseValue_enough (F : Flags) (s : List Char) :
    parseValue F (enough s) "value" s ≠ .error .outOfFuel := fun h =>
  (((enough_takes F _).value "value" s (Nat.le_refl _)).error h).1.1 rfl

/-- Any number of calls that is enough does. -/
theorem parseValue_eq {fuel : Nat} (hfuel : parseValue F fuel "value" s ≠ .error .outOfFuel) :
    parseValue F (enough s) "value" s = parseValue F fuel "value" s := by
  obtain hle | hle := Nat.le_total fuel (enough s)
  · exact parseValue_more hfuel hle
  · exact (parseValue_more (parseValue_enough F s) hle).symm

/-- What `do_parse` does with a value. -/
def finish (F : Flags) (r : Value × List Char) : Except Stop (Value × List Char) :=
  if F.finished then
    skipSpaces F r.2 >>= fun r' =>
      if r'.1 ≠ none then .error (.syntaxError r'.1 "value") else .ok (r.1, r'.2)
  else .ok r

theorem finish_takes {v : Value} : Takes true 0 (fun s => finish F (v, s)) s := by
  cases hfinished : F.finished with
  | false => exact takes_pure (a := v) fun s' => by rw [finish, hfinished]; rfl
  | true =>
      have hfinish : ∀ s', finish F (v, s') = skipSpaces F s' >>= fun r' =>
          if r'.1 ≠ none then .error (.syntaxError r'.1 "value") else .ok (v, r'.2) :=
        fun s' => if_pos hfinished
      refine takes_skipSpaces hfinish fun s1 _ => ?_
      cases s1 with
      | nil => exact takes_end rfl
      | cons c s1 => exact takes_refuse "value" fun s' => rfl

theorem doParse_takes (F : Flags) (s : List Char) : Takes true 1 (doParse F) s := by
  have hvalue : Takes true 1 (parseValue F (enough s) "value") s :=
    (enough_takes F _).value "value" s (Nat.le_refl _)
  have hall : Takes true (1 + 0) (fun s' => parseValue F (enough s) "value" s' >>= finish F) s :=
    takes_bind (fun _ => rfl) hvalue fun _ _ _ => finish_takes
  refine hall.settle (· ≠ .outOfFuel) (fun h => h.1) fun s' hs' => ?_
  have hfuel : parseValue F (enough s) "value" s' ≠ .error .outOfFuel := by
    intro hout
    refine hs' .outOfFuel ?_ rfl
    rw [hout]
    rfl
  show parseValue F (enough s') "value" s' >>= finish F = _
  rw [parseValue_eq hfuel]

/-- The parser does not run out of calls. -/
theorem doParse_fuel (F : Flags) (s : List Char) : doParse F s ≠ .error .outOfFuel := fun h =>
  ((doParse_takes F s).error h).1.1 rfl

/-- An error at a character does not depend on what is behind it. -/
theorem doParse_blames {e : Stop} {c : Char} (h : doParse F s = .error e) (hc : e.blame = some c) :
    ∃ p q, s = p ++ c :: q ∧ ∀ q', doParse F (p ++ c :: q') = .error e :=
  ((doParse_takes F s).error h).2 c hc

/-- **The parser ends, on every text and under every flag**, with a value or a `syntax_error`, or by an overflow in
    a long run of digits. What it does is decided by what it has read, and one character more. -/
theorem doParse_ends (F : Flags) (s : List Char) :
    match doParse F s with
    | .ok (v, rest) => ∃ p, p ≠ [] ∧ s = p ++ rest ∧
        ∀ d r r', rest = d :: r → doParse F (p ++ d :: r') = .ok (v, d :: r')
    | .error (.syntaxError (some c) ctx) => ∃ p q, s = p ++ c :: q ∧
        ∀ q', doParse F (p ++ c :: q') = .error (.syntaxError (some c) ctx)
    | .error (.syntaxError none _) => True
    | .error (.undefined ch) => LongRun s ∧
        ∀ c, ch = some c → ∃ p q, s = p ++ c :: q ∧ ∀ q', doParse F (p ++ c :: q') = .error (.undefined ch)
    | .error .outOfFuel => False := by
  cases hparse : doParse F s with
  | ok r =>
      obtain ⟨v, rest⟩ := r
      obtain ⟨p, hp, hlen, hlocal⟩ := (doParse_takes F s).ok hparse
      exact ⟨p, List.length_pos_iff.mp hlen, hp, hlocal⟩
  | error e =>
      cases e with
      | outOfFuel => exact doParse_fuel F s hparse
      | undefined ch =>
          exact ⟨((doParse_takes F s).error hparse).1.2 rfl ch rfl, fun c hc => doParse_blames hparse hc⟩
      | syntaxError ch ctx =>
          cases ch with
          | none => trivial
          | some c => exact doParse_blames hparse rfl

end Json

end DlsSdk
