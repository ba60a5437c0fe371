import DlsSdk.Json.Scanning

/-!
# `Json.Errors` — where a text goes wrong

A `syntax_error` of `parse` names the first character that cannot stand where it does: what is before it can be
completed to a text, and what is before it together with it cannot (`doParse_illegal_iff`). The end is named
exactly for what has been cut off (`doParse_eos_iff`). And an integer overflows exactly where a text that would not
be bounded begins (`doParse_undefined_iff`).

That a text at whose end an error is can be completed is shown function by function, in the language of what the
function reads, and so is that a text begins like what is before an overflow (`Open`). By `doParse_blames` an error
at a character concerns everything that begins with what is before it and the character, and this decides which
character it is: the one behind the longest beginning of a text.
-/

namespace DlsSdk

namespace Json

open Scanner

variable {s rest w t : List Char} {ctx ctx' : String} {v : Value} {b : Bool} {α β : Type}

/-! ## Beginnings -/

/-- A text of the language begins like this. -/
def Begins (G : List Char → Prop) (s : List Char) : Prop := ∃ t, G (s ++ t)

/-- What has been read already. -/
theorem Begins.behind {G G' : List Char → Prop} (h : Begins G s) (p : List Char)
    (hp : ∀ t, G t → ∃ t', G' (p ++ (t ++ t'))) : Begins G' (p ++ s) := by
  obtain ⟨t, ht⟩ := h
  obtain ⟨t', ht'⟩ := hp _ ht
  exact ⟨t ++ t', by simp only [List.append_assoc] at ht' ⊢; exact ht'⟩

/-- Where `x` finds the end of the stream, a bounded text of the language begins like the stream. Where it overflows,
    a text of the language begins like what it has read, and it overflows whatever follows. -/
structure Open (G : Bool → List Char → Prop) (x : Scan Char Stop α) (s : List Char) : Prop where
  eos : ∀ {ctx}, x s = .error (.syntaxError none ctx) → Begins (G true) s
  undefined : ∀ {ch}, x s = .error (.undefined ch) → ∃ t q, s = t ++ q ∧ t ≠ [] ∧ Begins (G false) t ∧
    ∀ q', x (t ++ q') = .error (.undefined ch)

variable {G G' : Bool → List Char → Prop} {x : Scan Char Stop α} {y : Scan Char Stop β}

theorem open_ok {r : α × List Char} (h : x s = .ok r) : Open G x s where
  eos hx := by
    rw [h] at hx
    cases hx
  undefined hx := by
    rw [h] at hx
    cases hx

/-- An error at a character, or at the end of what can be completed. -/
theorem open_syntaxError (ch : Option Char) (ctx : String) (h : x s = .error (.syntaxError ch ctx))
    (hG : ch = none → Begins (G true) s) : Open G x s where
  eos hx := by
    rw [h] at hx
    exact hG (Stop.syntaxError.inj (Except.error.inj hx)).1
  undefined hx := by
    rw [h] at hx
    cases hx

theorem open_undefined {ch : Option Char} {q : List Char} (ht : t ≠ []) (hG : G false t)
    (h : ∀ q', x (t ++ q') = .error (.undefined ch)) : Open G x (t ++ q) where
  eos hx := by
    rw [h] at hx
    cases hx
  undefined hx := by
    rw [h] at hx
    exact ⟨t, q, rfl, ht, ⟨[], by rw [List.append_nil]; exact hG⟩, fun q' => (h q').trans hx⟩

/-- What has been read already. The first character of what follows decides how it is read. -/
theorem Open.behind {y : Scan Char Stop α} (h : Open G y s) (p : List Char)
    (hx : ∀ s', s'.head? = s.head? → x (p ++ s') = y s')
    (hG : ∀ bounded t, G bounded t → ∃ t', G' bounded (p ++ (t ++ t'))) : Open G' x (p ++ s) where
  eos he := by
    rw [hx s rfl] at he
    exact (h.eos he).behind p (hG true)
  undefined he := by
    rw [hx s rfl] at he
    obtain ⟨t, q, rfl, hne, hbegins, hlocal⟩ := h.undefined he
    obtain ⟨c, t, rfl⟩ := List.exists_cons_of_ne_nil hne
    refine ⟨p ++ c :: t, q, by rw [List.append_assoc], by simp, hbegins.behind p (hG false), fun q' => ?_⟩
    rw [List.append_assoc]
    exact (hx (c :: t ++ q') rfl).trans (hlocal q')

/-- Texts of another language. -/
theorem Open.imp {y : Scan Char Stop α} (h : Open G y s) (hx : ∀ s', s'.head? = s.head? → x s' = y s')
    (hG : ∀ bounded t, G bounded t → ∃ t', G' bounded (t ++ t')) : Open G' x s :=
  h.behind [] hx hG

/-- **Sequences.** The first part is completed, or what it has read is before the second one. -/
theorem Open.bind {n : Nat} {f : β × List Char → Except Stop (α × List Char)} (hx : ∀ s', x s' = y s' >>= f)
    (hy : Open G y s) (htakes : Takes true n y s)
    (hG : ∀ bounded t, G bounded t → ∃ t', G' bounded (t ++ t'))
    (hf : ∀ a rest, y s = .ok (a, rest) → n + rest.length ≤ s.length → ∃ p, s = p ++ rest ∧
      Open (fun bounded t => G' bounded (p ++ t)) (fun s => f (a, s)) rest) : Open G' x s := by
  cases hys : y s with
  | error e =>
      have herror : ∀ s', y s' = .error e → x s' = .error e := fun s' hs' => by rw [hx, hs', error_bind]
      constructor
      · intro ctx he
        obtain rfl := Except.error.inj ((herror s hys).symm.trans he)
        exact (hy.eos hys).behind [] (hG true)
      · intro ch he
        obtain rfl := Except.error.inj ((herror s hys).symm.trans he)
        obtain ⟨t, q, hs, hne, hbegins, hlocal⟩ := hy.undefined hys
        exact ⟨t, q, hs, hne, hbegins.behind [] (hG false), fun q' => herror _ (hlocal q')⟩
  | ok r =>
      obtain ⟨a, rest⟩ := r
      obtain ⟨p, hp, hrest⟩ := hf a rest hys (htakes.length hys)
      have hxs : x s = f (a, rest) := by rw [hx, hys, ok_bind]
      constructor
      · intro ctx he
        rw [hxs] at he
        rw [hp]
        exact (hrest.eos he).behind p fun t ht => ⟨[], by rw [List.append_nil]; exact ht⟩
      · intro ch he
        rw [hxs] at he
        obtain ⟨t, q, ht, hne, hbegins, hlocal⟩ := hrest.undefined he
        obtain ⟨p', hp', -, hahead⟩ := htakes.ok hys
        obtain rfl : p = p' := List.append_cancel_right (hp.symm.trans hp')
        obtain ⟨c, t, rfl⟩ := List.exists_cons_of_ne_nil hne
        refine ⟨p ++ c :: t, q, by rw [hp, ht, List.append_assoc], by simp,
          hbegins.behind p fun t ht => ⟨[], by rw [List.append_nil]; exact ht⟩, fun q' => ?_⟩
        rw [hx, List.append_assoc, List.cons_append, hahead c (t ++ q) (t ++ q') ht, ok_bind]
        exact hlocal q'

/-! ## Tokens -/

theorem get_none (h : (get s).1 = none) : s = [] := by
  cases s with
  | nil => rfl
  | cons => cases h

/-- What follows does not begin with white space. -/
def NoSpace (s : List Char) : Prop := ∀ c ∈ s.head?, ¬ Space c

/-- The white space at the front. -/
theorem exists_spaces (s : List Char) : ∃ w s', Ws w ∧ NoSpace s' ∧ s = w ++ s' := by
  induction s with
  | nil => exact ⟨[], [], ws_nil, fun _ h => (by cases h), rfl⟩
  | cons c s ih =>
      by_cases hc : Space c
      · obtain ⟨w, s', hw, hs', rfl⟩ := ih
        exact ⟨c :: w, s', hw.cons hc, hs', rfl⟩
      · refine ⟨[], c :: s, ws_nil, fun d hd => ?_, rfl⟩
        obtain rfl := Option.some.inj hd
        exact hc

theorem noSpace_of_head {s' : List Char} (h : NoSpace s) (hs : s'.head? = s.head?) : NoSpace s' := by
  unfold NoSpace
  rw [hs]
  exact h

/-- White space is skipped, and that is all. -/
theorem skipSpaces_plain (b : Bool) (hw : Ws w) (h : NoSpace s) : skipSpaces (.plain b) (w ++ s) = .ok (get s) := by
  rw [skip_ws hw]
  unfold skipSpaces
  cases s with
  | nil => rfl
  | cons c s =>
      have hc : ¬ isSpace c = true := fun hc => h c rfl (isSpace_iff.mp hc)
      rw [skip, if_neg hc, if_neg (by simp [Flags.plain])]
      rfl

theorem literal_open {l : List Char} {a : α} :
    Open (fun _ t => t = l) (fun s => equals ctx l s >>= fun rest => .ok (a, rest)) s := by
  fun_induction equals ctx l s with
  | case1 s => exact open_ok (by rw [equals.eq_def]; rfl)
  | case2 c l => exact open_syntaxError none ctx rfl fun _ => ⟨c :: l, rfl⟩
  | case3 l c s ih =>
      refine ih.behind [c] (fun s' _ => by rw [List.singleton_append, equals, if_pos rfl]) fun _ t ht => ⟨[], ?_⟩
      rw [ht, List.append_nil]
      rfl
  | case4 c l d s hd => exact open_syntaxError (some d) ctx (by rw [equals, if_neg hd]; rfl) fun h => by cases h

/-! ## Numbers -/

theorem digits_zero : Digits ['0'] := fun _ hc => List.mem_singleton.mp hc ▸ rfl

/-- The digits of an exponent. -/
def DigitsText (bounded : Bool) (t : List Char) : Prop :=
  t ≠ [] ∧ Digits t ∧ (bounded = true → decimal t < 2 ^ 31)

theorem expDigits_open (value : Nat → Value) (s : List Char) : Open DigitsText (expDigits value) s := by
  obtain ⟨ds, rest, hds, hrest, rfl⟩ := exists_digits s
  by_cases hne : ds = []
  · subst hne
    refine open_syntaxError _ _ (expDigits_none hrest) fun h => ⟨['0'], ?_⟩
    rw [get_none h]
    exact ⟨List.cons_ne_nil _ _, digits_zero, fun _ => by decide⟩
  by_cases hfit : decimal ds < 2 ^ 31
  · exact open_ok (expDigits_digits hne hds hfit hrest)
  · obtain ⟨ch, hover⟩ := expDigits_overflow value hds hfit
    exact open_undefined hne ⟨hne, hds, fun h => by cases h⟩ hover

/-- The texts of an exponent. -/
def ExpText (bounded : Bool) (t : List Char) : Prop :=
  ∃ e : Exponent, e.Valid ∧ (bounded = true → decimal e.digits < 2 ^ 31) ∧ t = e.text

theorem expOrEnd_open (negative : Bool) (intPart fracPart : UInt64) (fracDivs : Nat) (s : List Char) :
    Open ExpText (expOrEnd negative intPart fracPart fracDivs) s := by
  obtain ⟨mark, sign, s', hmark, hsign, rfl⟩ | hend := exp_cases s
  · rw [← List.cons_append]
    have hdigits := expDigits_open
      (numberValue negative intPart fracPart fracDivs (decide (sign = some '-'))) s'
    refine hdigits.behind (mark :: sign.toList) (fun s1 hs1 => ?_) ?_
    · refine expOrEnd_mark hmark ⟨hsign.1, fun hnone => ?_⟩
      rw [hs1]
      exact hsign.2 hnone
    · rintro bounded t ⟨hne, hds, hfit⟩
      exact ⟨[], ⟨mark, sign, t⟩, ⟨hmark, hsign.1, hne, hds⟩, hfit, by rw [List.append_nil]; rfl⟩
  · exact open_ok (expOrEnd_end hend)

/-- The texts of a fraction and an exponent. -/
def NumberTail (bounded : Bool) (t : List Char) : Prop :=
  ∃ (frac : Option (List Char)) (exp : Option Exponent), (∀ ds ∈ frac, ds ≠ [] ∧ Digits ds) ∧
    (∀ e ∈ exp, e.Valid) ∧ (bounded = true → Numeral.Fits ⟨false, [], frac, exp⟩) ∧
    t = fracText frac ++ expText exp

theorem parseFrac_open (b negative : Bool) (intPart : UInt64) (s : List Char) :
    Open NumberTail (fun s => parseFrac (.plain b) negative intPart (get s).1 (get s).2) s := by
  by_cases hpoint : ∃ s', s = '.' :: s'
  · obtain ⟨s', rfl⟩ := hpoint
    obtain ⟨ds, rest, hds, hrest, rfl⟩ := exists_digits s'
    by_cases hlen : ds.length < 2 ^ 31
    · by_cases hne : ds = []
      · subst hne
        refine open_syntaxError (get rest).1 "number" ?_ fun h => ⟨['0'], ?_⟩
        · rw [get_cons, parseFrac_point hds hlen hrest, if_pos ⟨by simp [Flags.plain], rfl⟩]
        · rw [get_none h]
          exact ⟨some ['0'], none, fun ds hd => Option.some.inj hd ▸ ⟨by simp, digits_zero⟩,
            fun _ h => (by cases h), fun _ => ⟨(by decide : 1 < 2 ^ 31), Nat.two_pow_pos 31⟩, rfl⟩
      · have hexp := expOrEnd_open negative intPart (UInt64.ofNat (decimal ds)) ds.length rest
        refine hexp.behind ('.' :: ds) (fun s1 hs1 => ?_) ?_
        · rw [List.cons_append, get_cons, parseFrac_point hds hlen (noDigit_of_head hrest hs1),
            if_neg fun hc => hne hc.2]
        · rintro bounded t ⟨e, he, hfit, rfl⟩
          exact ⟨[], some ds, some e, fun ds' h => Option.some.inj h ▸ ⟨hne, hds⟩,
            fun e' h => Option.some.inj h ▸ he, fun hb => ⟨hlen, hfit hb⟩, by rw [List.append_nil]; rfl⟩
    · obtain ⟨ch, hover⟩ := parseFrac_overflow (.plain b) negative intPart hds hlen
      have hne : ds ≠ [] := fun h => hlen (h ▸ Nat.two_pow_pos 31)
      exact open_undefined (t := '.' :: ds) (List.cons_ne_nil _ _)
        ⟨some ds, none, fun ds' h => Option.some.inj h ▸ ⟨hne, hds⟩, fun _ h => (by cases h),
          fun h => (by cases h), (List.append_nil _).symm⟩ hover
  · refine (expOrEnd_open negative intPart 0 0 s).imp (fun s1 hs1 => parseFrac_none fun c hc => ?_) ?_
    · rintro rfl
      rw [hs1] at hc
      exact hpoint (List.head?_eq_some_iff.mp hc)
    · rintro bounded t ⟨e, he, hfit, rfl⟩
      exact ⟨[], none, some e, fun _ h => (by cases h), fun e' h => Option.some.inj h ▸ he,
        fun hb => ⟨Nat.two_pow_pos 31, hfit hb⟩, by rw [List.append_nil]; rfl⟩

/-- The texts of a number behind its sign. -/
def UnsignedText (negative bounded : Bool) (t : List Char) : Prop :=
  ∃ n : Numeral, n.Valid ∧ n.negative = negative ∧ (bounded = true → n.Fits) ∧
    t = n.int ++ (fracText n.frac ++ expText n.exp)

/-- Behind an integer part. -/
theorem unsignedText_int {negative bounded : Bool} {int : List Char}
    (hint : int = ['0'] ∨ ∃ d ds, int = d :: ds ∧ d ≠ '0') (hds : Digits int) (ht : NumberTail bounded t) : UnsignedText negative bounded (int ++ (t ++ [])) := by
  obtain ⟨frac, exp, hfrac, hexp, hfits, rfl⟩ := ht
  rw [List.append_nil]
  exact ⟨⟨negative, int, frac, exp⟩, ⟨hint, hds, hfrac, hexp⟩, rfl,
    fun hb => ⟨(hfits hb).decimals, (hfits hb).exponent⟩, rfl⟩

theorem parseUnsigned_open (b negative : Bool) (s : List Char) :
    Open (UnsignedText negative) (fun s => parseUnsigned (.plain b) negative (get s).1 (get s).2) s := by
  cases s with
  | nil =>
      refine open_syntaxError none "number" rfl fun _ => ⟨['0'], ?_⟩
      exact ⟨⟨negative, ['0'], none, none⟩,
        ⟨.inl rfl, digits_zero, fun _ h => (by cases h), fun _ h => (by cases h)⟩, rfl,
        fun _ => ⟨Nat.two_pow_pos 31, Nat.two_pow_pos 31⟩, rfl⟩
  | cons c s =>
      by_cases hdig : isDigit c = true
      · by_cases hzero : c = '0'
        · subst hzero
          refine (parseFrac_open b negative 0 s).behind ['0'] (fun s1 _ => ?_) fun bounded t ht =>
            ⟨[], unsignedText_int (.inl rfl) digits_zero ht⟩
          rw [List.singleton_append, get_cons, parseUnsigned]
          dsimp only
          rw [if_neg (by simp [Flags.plain])]
        · obtain ⟨ds, rest, hds, hrest, rfl⟩ := exists_digits s
          have hfrac := parseFrac_open b negative (UInt64.ofNat (decimal (c :: ds))) rest
          refine hfrac.behind (c :: ds) (fun s1 hs1 => ?_) fun bounded t ht =>
            ⟨[], unsignedText_int (.inr ⟨c, ds, rfl, hzero⟩) (List.forall_mem_cons.mpr ⟨hdig, hds⟩) ht⟩
          rw [List.cons_append, get_cons, parseUnsigned_digits hdig hzero hds (noDigit_of_head hrest hs1)]
      · exact open_syntaxError _ _ (parseUnsigned_none (Bool.not_eq_true _ ▸ hdig)) fun h => by cases h

/-- The texts of a number. -/
def NumberText (bounded : Bool) (t : List Char) : Prop :=
  ∃ n : Numeral, n.Valid ∧ (bounded = true → n.Fits) ∧ t = n.text

theorem parseNumber_open (b : Bool) (s : List Char) :
    Open NumberText (fun s => parseNumber (.plain b) (get s).1 (get s).2) s := by
  by_cases hminus : ∃ s', s = '-' :: s'
  · obtain ⟨s', rfl⟩ := hminus
    refine (parseUnsigned_open b true s').behind ['-'] (fun s1 _ => ?_) ?_
    · rw [List.singleton_append, get_cons, parseNumber, if_pos rfl]
    · rintro bounded t ⟨n, hn, hneg, hfits, rfl⟩
      refine ⟨[], n, hn, hfits, ?_⟩
      rw [List.append_nil, Numeral.text, hneg, if_pos rfl]
  · refine (parseUnsigned_open b false s).imp (fun s1 hs1 => ?_) ?_
    · have hne : (get s1).1 ≠ some '-' := fun h => hminus (List.head?_eq_some_iff.mp (by rw [← hs1, ← get_fst, h]))
      rw [parseNumber, if_neg hne, if_neg (by simp [Flags.plain])]
    · rintro bounded t ⟨n, hn, hneg, hfits, rfl⟩
      have hsign : (if false = true then ['-'] else []) = ([] : List Char) := rfl
      refine ⟨[], n, hn, hfits, ?_⟩
      rw [List.append_nil, Numeral.text, hneg, hsign, List.nil_append]

/-! ## Strings and keys -/

/-- Any digits will do. -/
theorem exists_hexCode (n code : Nat) : ∃ ds code', ds.length = n ∧ hexCode code ds = some code' := by
  induction n generalizing code with
  | zero => exact ⟨[], code, rfl, rfl⟩
  | succ n ih =>
      obtain ⟨ds, code', hl, hc⟩ := ih (code * 16 + 0)
      exact ⟨'0' :: ds, code', congrArg Nat.succ hl, hc⟩

/-- What is to come of a string, with its quote. -/
def StringEnd (mode : StringMode) (t : List Char) : Prop :=
  ∃ buffer body, mode.Text buffer body ∧ t = body ++ ['"']

theorem exists_stringEnd (mode : StringMode) : ∃ t, StringEnd mode t := by
  cases mode with
  | char => exact ⟨['"'], [], [], .nil, rfl⟩
  | escape => exact ⟨['n', '"'], ['\n'], ['n'], .escape (by decide) .nil, rfl⟩
  | hex left code =>
      obtain ⟨ds, code', hl, hc⟩ := exists_hexCode (left + 1) code
      exact ⟨ds ++ ['"'], _, ds, ⟨ds, code', [], [], hl, hc, .nil, rfl, (List.append_nil _).symm⟩, rfl⟩

theorem stringLoop_open (b : Bool) (ctx : String) (mode : StringMode) (pre s : List Char) :
    Open (fun _ => StringEnd mode) (stringLoop (.plain b) '"' ctx mode pre) s := by
  induction s generalizing mode pre with
  | nil => exact open_syntaxError none ctx (by cases mode <;> rfl) fun _ => exists_stringEnd mode
  | cons c s ih =>
      obtain ⟨rfl, rfl⟩ | hrefused | ⟨mode', added, hstep, htext⟩ := stringLoop_cons b ctx mode pre c
      · exact open_ok (by rw [stringLoop, if_pos rfl])
      · exact open_syntaxError _ _ (hrefused s) fun h => by cases h
      · refine (ih mode' (pre ++ added)).behind [c] (fun s' _ => hstep s') ?_
        rintro - t ⟨buffer, body, hbody, rfl⟩
        exact ⟨[], added ++ buffer, c :: body, htext buffer body hbody, by rw [List.append_nil]; rfl⟩

/-- The texts of a string. -/
def Quoted (t : List Char) : Prop := ∃ buffer body, StringText buffer body ∧ t = '"' :: (body ++ ['"'])

theorem parseString_open (b : Bool) (ctx : String) (s : List Char) :
    Open (fun _ => Quoted) (fun s => parseString (.plain b) (get s).1 ctx (get s).2) s := by
  cases s with
  | nil => exact open_syntaxError none ctx rfl fun _ => ⟨['"', '"'], [], [], .nil, rfl⟩
  | cons c s =>
      by_cases hc : c = '"'
      · subst hc
        refine (stringLoop_open b ctx .char [] s).behind ['"'] (fun s' _ => ?_) ?_
        · rw [List.singleton_append, get_cons, parseString]
          exact if_pos (.inl rfl)
        · rintro - t ⟨buffer, body, htext, rfl⟩
          exact ⟨[], buffer, body, htext, by rw [List.append_nil]; rfl⟩
      · refine open_syntaxError (some c) ctx ?_ fun h => by cases h
        rw [get_cons, parseString]
        exact if_neg (by simp [Flags.plain, hc])

/-- The texts of a key. -/
def KeyText (t : List Char) : Prop :=
  ∃ w buffer body, Ws w ∧ StringText buffer body ∧ t = w ++ '"' :: (body ++ ['"'])

theorem parseKey_open (b : Bool) (s : List Char) : Open (fun _ => KeyText) (parseKey (.plain b)) s := by
  obtain ⟨w, s', hw, hs', rfl⟩ := exists_spaces s
  refine (parseString_open b "object-key" s').behind w (fun s1 hs1 => ?_) ?_
  · rw [parseKey, skipSpaces_plain b hw (noSpace_of_head hs' hs1), ok_bind]
    dsimp only
    rw [if_neg (by simp [Flags.plain])]
  · rintro - t ⟨buffer, body, htext, rfl⟩
    exact ⟨[], w, buffer, body, hw, htext, by rw [List.append_nil]⟩

/-! ## Values -/

/-- Where a bracket or a comma would have to stand. -/
theorem nextElement_open (b : Bool) (close : Char) (ctx : String) (empty : Bool) (s : List Char) :
    Open (fun _ t => ∃ w, Ws w ∧ t = w ++ [close]) (nextElement (.plain b) close ctx empty) s := by
  obtain ⟨w, s', hw, hs', rfl⟩ := exists_spaces s
  have hnext : nextElement (.plain b) close ctx empty (w ++ s') =
      if (get s').1 = some close then .ok (true, (get s').2)
      else if empty then .ok (false, unget (get s').1 (get s').2)
      else if (get s').1 ≠ some ',' then .error (.syntaxError (get s').1 ctx)
      else .ok (false, (get s').2) := by
    rw [nextElement, skipSpaces_plain b hw hs', ok_bind]
    rfl
  by_cases hclose : (get s').1 = some close
  · exact open_ok (hnext.trans (if_pos hclose))
  rw [if_neg hclose] at hnext
  cases empty with
  | true => exact open_ok hnext
  | false =>
      rw [if_neg (by simp)] at hnext
      by_cases hcomma : (get s').1 = some ','
      · exact open_ok (hnext.trans (if_neg fun h => h hcomma))
      · refine open_syntaxError _ _ (hnext.trans (if_pos hcomma)) fun h => ⟨[close], w, hw, ?_⟩
        rw [get_none h, List.append_nil]

/-- The texts of a value behind white space. -/
def ValueText (bounded : Bool) (t : List Char) : Prop :=
  ∃ w v t', Ws w ∧ Text bounded (.value v) t' ∧ t = w ++ t'

/-- The texts of the rest of an array, to its bracket. -/
def ArrayTail (bounded empty : Bool) (t : List Char) : Prop :=
  (∃ w, Ws w ∧ t = w ++ [']']) ∨
    ∃ w vs ts, Ws w ∧ Text bounded (.elements vs) ts ∧ t = lead empty w ++ (ts ++ [']'])

/-- The texts of the rest of an object. -/
def ObjectTail (bounded empty : Bool) (t : List Char) : Prop :=
  (∃ w, Ws w ∧ t = w ++ ['}']) ∨
    ∃ w ms ts, Ws w ∧ Text bounded (.members ms) ts ∧ t = lead empty w ++ (ts ++ ['}'])

section Tails
variable {bounded empty : Bool}

/-- An element, and the rest behind it. -/
theorem arrayTail_cons {w' t' : List Char} (hw' : Ws w') (hw : Ws w) (ht : Text bounded (.value v) t)
    (h : ArrayTail bounded false t') : ArrayTail bounded empty (lead empty w' ++ (w ++ (t ++ t'))) := by
  right
  obtain ⟨w2, hw2, rfl⟩ | ⟨w2, vs, ts, hw2, hts, rfl⟩ := h
  · refine ⟨w', [v], w ++ (t ++ w2), hw', .element hw ht hw2, ?_⟩
    simp only [List.append_assoc]
  · refine ⟨w', v :: vs, w ++ (t ++ (w2 ++ ',' :: ts)), hw', .elements hw ht hw2 hts, ?_⟩
    rw [lead_false]
    simp only [List.append_assoc, List.cons_append, List.nil_append]

theorem objectTail_cons {w' k w1 w2 buffer t' : List Char} (hw' : Ws w') (hw : Ws w)
    (hk : StringText buffer k) (hw1 : Ws w1) (hw2 : Ws w2) (ht : Text bounded (.value v) t)
    (h : ObjectTail bounded false t') :
    ObjectTail bounded empty
      (lead empty w' ++ (w ++ '"' :: (k ++ '"' :: (w1 ++ ':' :: (w2 ++ (t ++ t')))))) := by
  right
  obtain ⟨w3, hw3, rfl⟩ | ⟨w3, ms, ts, hw3, hts, rfl⟩ := h
  · refine ⟨w', _, _, hw', .member hw hk hw1 hw2 ht hw3, ?_⟩
    simp only [List.append_assoc, List.cons_append]
  · refine ⟨w', _, _, hw', .members hw hk hw1 hw2 ht hw3 hts, ?_⟩
    rw [lead_false]
    simp only [List.append_assoc, List.cons_append, List.nil_append]

theorem arrayTail_end : ArrayTail bounded false [']'] := .inl ⟨[], ws_nil, rfl⟩

theorem objectTail_end : ObjectTail bounded false ['}'] := .inl ⟨[], ws_nil, rfl⟩

theorem arrayTail_text (h : ArrayTail bounded true t) : ∃ v, Text bounded (.value v) ('[' :: t) := by
  obtain ⟨w, hw, rfl⟩ | ⟨w, vs, ts, -, hts, rfl⟩ := h
  · exact ⟨_, .noElements hw⟩
  · exact ⟨_, .array hts⟩

theorem objectTail_text (h : ObjectTail bounded true t) : ∃ v, Text bounded (.value v) ('{' :: t) := by
  obtain ⟨w, hw, rfl⟩ | ⟨w, ms, ts, -, hts, rfl⟩ := h
  · exact ⟨_, .noMembers hw⟩
  · exact ⟨_, .object hts (mapOf_entered ms)⟩

end Tails

/-- What is before an error can be completed, and what is before an overflow begins a text. -/
structure Completes (b : Bool) (fuel : Nat) : Prop where
  value : ∀ ctx s, 2 * s.length + 1 ≤ fuel → Open ValueText (parseValue (.plain b) fuel ctx) s
  array : ∀ acc s, 2 * s.length + 2 ≤ fuel →
    Open (fun bounded => ArrayTail bounded acc.isEmpty) (parseArray (.plain b) fuel acc) s
  object : ∀ pairs s, 2 * s.length + 2 ≤ fuel →
    Open (fun bounded => ObjectTail bounded pairs.isEmpty) (parseObject (.plain b) fuel pairs) s

theorem array_open {fuel : Nat} (ih : Completes b fuel) (acc : List Value) (s : List Char)
    (hfuel : 2 * s.length + 2 ≤ fuel + 1) :
    Open (fun bounded => ArrayTail bounded acc.isEmpty) (parseArray (.plain b) (fuel + 1) acc) s := by
  refine Open.bind (fun s' => parseArray.eq_2 (.plain b) acc s' fuel) (nextElement_open b ']' "array" acc.isEmpty s)
    nextElement_takes (fun _ t ht => ⟨[], .inl (by rw [List.append_nil]; exact ht)⟩) fun closed s1 hnext h1 => ?_
  obtain ⟨rfl, w, hw, rfl⟩ | ⟨rfl, w', w, hw', hw, rfl⟩ := nextElement_sound hnext
  · exact ⟨w ++ [']'], by rw [List.append_assoc]; rfl, open_ok rfl⟩
  refine ⟨lead acc.isEmpty w' ++ w, by rw [List.append_assoc], ?_⟩
  refine Open.bind (fun s' => rfl) (ih.value "array" s1 (by omega)) ((enough_takes _ _).value _ _ (by omega)) ?_
    fun v s2 hvalue h2 => ?_
  · rintro bounded t ⟨w1, v, t', hw1, ht', rfl⟩
    have htail : ArrayTail bounded acc.isEmpty _ := arrayTail_cons hw' (hw.append hw1) ht' arrayTail_end
    refine ⟨[']'], ?_⟩
    simp only [List.append_assoc] at htail ⊢
    exact htail
  · obtain ⟨w1, t, hw1, ht, rfl⟩ := (sound b fuel).value hvalue
    refine ⟨w1 ++ t, by rw [List.append_assoc], ?_⟩
    have hrest := ih.array (acc ++ [v]) s2 (by omega)
    rw [show (acc ++ [v]).isEmpty = false by simp] at hrest
    refine hrest.imp (fun _ _ => rfl) fun bounded t' ht' => ⟨[], ?_⟩
    have htail : ArrayTail bounded acc.isEmpty _ := arrayTail_cons hw' (hw.append hw1) ht.loosen ht'
    simp only [List.append_assoc, List.append_nil] at htail ⊢
    exact htail

/-- The texts of an object behind the colon of a member. -/
def MemberValue (bounded : Bool) (t : List Char) : Prop :=
  ∃ w v t1 t2, Ws w ∧ Text bounded (.value v) t1 ∧ ObjectTail bounded false t2 ∧ t = w ++ (t1 ++ t2)

/-- The texts of an object behind the key of a member. -/
def MemberTail (bounded : Bool) (t : List Char) : Prop :=
  ∃ w t', Ws w ∧ MemberValue bounded t' ∧ t = w ++ ':' :: t'

theorem memberValue_open {fuel : Nat} (ih : Completes b fuel) (key : String) (pairs : List (String × Value))
    (s : List Char) (hfuel : 2 * s.length + 1 ≤ fuel) :
    Open MemberValue (fun s => parseValue (.plain b) fuel "object" s >>= fun r =>
      parseObject (.plain b) fuel (emplace key r.1 pairs) r.2) s := by
  refine Open.bind (fun s' => rfl) (ih.value "object" s hfuel) ((enough_takes _ _).value _ _ hfuel) ?_
    fun v s1 hvalue h1 => ?_
  · rintro bounded t ⟨w, v, t', hw, ht', rfl⟩
    exact ⟨['}'], w, v, t', ['}'], hw, ht', objectTail_end, List.append_assoc ..⟩
  · obtain ⟨w, t, hw, ht, rfl⟩ := (sound b fuel).value hvalue
    refine ⟨w ++ t, by rw [List.append_assoc], ?_⟩
    have hrest := ih.object (emplace key v pairs) s1 (by omega)
    rw [List.isEmpty_eq_false_iff.mpr emplace_ne_nil] at hrest
    refine hrest.imp (fun _ _ => rfl) fun bounded t' ht' => ⟨[], w, v, t, t', hw, ht.loosen, ht', ?_⟩
    rw [List.append_nil, List.append_assoc]

/-- Where the colon would have to stand. -/
theorem memberTail_open {fuel : Nat} (ih : Completes b fuel) (key : String) (pairs : List (String × Value))
    (s : List Char) (hfuel : 2 * s.length + 1 ≤ fuel) :
    Open MemberTail (fun s => skipSpaces (.plain b) s >>= fun r =>
      if r.1 ≠ some ':' then .error (.syntaxError r.1 "object")
      else parseValue (.plain b) fuel "object" r.2 >>= fun r =>
        parseObject (.plain b) fuel (emplace key r.1 pairs) r.2) s := by
  obtain ⟨w, s', hw, hs', rfl⟩ := exists_spaces s
  by_cases hcolon : ∃ s1, s' = ':' :: s1
  · obtain ⟨s1, rfl⟩ := hcolon
    rw [List.length_append, List.length_cons] at hfuel
    rw [List.append_cons]
    refine (memberValue_open ih key pairs s1 (by omega)).behind (w ++ [':']) (fun s2 _ => ?_) ?_
    · have hspace : NoSpace (':' :: s2) := noSpace_of_head hs' rfl
      rw [List.append_assoc, List.singleton_append, skipSpaces_plain b hw hspace, ok_bind]
      rfl
    · intro bounded t ht
      exact ⟨[], w, t, hw, ht, by rw [List.append_nil, List.append_assoc]; rfl⟩
  · have hne : (get s').1 ≠ some ':' := fun h => hcolon (List.head?_eq_some_iff.mp (by rw [← get_fst, h]))
    refine open_syntaxError (get s').1 "object" ?_ fun hnone => ?_
    · rw [skipSpaces_plain b hw hs', ok_bind]
      exact if_pos hne
    · refine ⟨':' :: (['n', 'u', 'l', 'l'] ++ ['}']), w, ['n', 'u', 'l', 'l'] ++ ['}'], hw, ?_, ?_⟩
      · exact ⟨[], .null, _, _, ws_nil, .null, objectTail_end, rfl⟩
      · rw [get_none hnone, List.append_nil]

theorem object_open {fuel : Nat} (ih : Completes b fuel) (pairs : List (String × Value)) (s : List Char)
    (hfuel : 2 * s.length + 2 ≤ fuel + 1) :
    Open (fun bounded => ObjectTail bounded pairs.isEmpty) (parseObject (.plain b) (fuel + 1) pairs) s := by
  refine Open.bind (fun s' => parseObject.eq_2 (.plain b) pairs s' fuel)
    (nextElement_open b '}' "object" pairs.isEmpty s) nextElement_takes
    (fun _ t ht => ⟨[], .inl (by rw [List.append_nil]; exact ht)⟩) fun closed s1 hnext h1 => ?_
  obtain ⟨rfl, w, hw, rfl⟩ | ⟨rfl, w', w, hw', hw, rfl⟩ := nextElement_sound hnext
  · exact ⟨w ++ ['}'], by rw [List.append_assoc]; rfl, open_ok rfl⟩
  refine ⟨lead pairs.isEmpty w' ++ w, by rw [List.append_assoc], ?_⟩
  refine Open.bind (fun s' => rfl) (parseKey_open b s1) parseKey_takes ?_ fun buffer s2 hkey h2 => ?_
  · rintro bounded t ⟨wk, buffer, k, hwk, hk, rfl⟩
    have htail : ObjectTail bounded pairs.isEmpty _ :=
      objectTail_cons hw' (hw.append hwk) hk ws_nil ws_nil .null objectTail_end
    refine ⟨':' :: (['n', 'u', 'l', 'l'] ++ ['}']), ?_⟩
    simp only [List.append_assoc, List.cons_append, List.nil_append] at htail ⊢
    exact htail
  · obtain ⟨wk, k, hwk, hk, rfl⟩ := parseKey_sound hkey
    refine ⟨wk ++ '"' :: (k ++ ['"']), by simp only [List.append_assoc, List.cons_append, List.nil_append], ?_⟩
    refine (memberTail_open ih (.ofList buffer) pairs s2 (by omega)).imp (fun _ _ => rfl) ?_
    rintro bounded t ⟨w1, t', hw1, ⟨w2, v, t1, t2, hw2, ht1, ht2, rfl⟩, rfl⟩
    have htail : ObjectTail bounded pairs.isEmpty _ := objectTail_cons hw' (hw.append hwk) hk hw1 hw2 ht1 ht2
    refine ⟨[], ?_⟩
    simp only [List.append_assoc, List.cons_append, List.nil_append, List.append_nil] at htail ⊢
    exact htail

/-- A string, of either quote; without the flags the other one is refused. -/
theorem stringValue_open (b : Bool) (s : List Char) : Open (fun bounded t => ∃ v, Text bounded (.value v) t)
    (fun s => parseString (.plain b) (get s).1 "string" (get s).2 >>= fun r =>
      .ok (Value.string (.ofList r.1), r.2)) s := by
  refine Open.bind (fun _ => rfl) (parseString_open b "string" s) (parseString_takes _ _ _) ?_
    fun buffer rest hparse _ => ?_
  · rintro bounded t ⟨buffer, body, htext, rfl⟩
    exact ⟨[], _, by rw [List.append_nil]; exact .string htext⟩
  · obtain ⟨p, hp, -⟩ := (parseString_takes (.plain b) "string" s).ok hparse
    exact ⟨p, hp, open_ok rfl⟩

/-- A value without the white space before it. -/
theorem value_open {fuel : Nat} (ih : Completes b fuel) (ctx : String) (s : List Char) (hs : NoSpace s)
    (hfuel : 2 * s.length + 1 ≤ fuel + 1) :
    Open (fun bounded t => ∃ v, Text bounded (.value v) t) (parseValue (.plain b) (fuel + 1) ctx) s := by
  have hvalue : ∀ s', s'.head? = s.head? → parseValue (.plain b) (fuel + 1) ctx s' = _ := fun s' hs' => by
    have hskip : skipSpaces (.plain b) s' = .ok (get s') := skipSpaces_plain b ws_nil (noSpace_of_head hs hs')
    rw [parseValue, hskip, ok_bind]
  cases s with
  | nil => exact open_syntaxError _ _ (hvalue [] rfl) fun _ => ⟨['n', 'u', 'l', 'l'], .null, .null⟩
  | cons c s =>
      rw [List.length_cons] at hfuel
      have hliteral : ∀ (l : List Char) (context : String) (v : Value), Text true (.value v) (c :: l) →
          (∀ s', parseValue (.plain b) (fuel + 1) ctx (c :: s') = equals context l s' >>= fun r => .ok (v, r)) →
          Open (fun bounded t => ∃ v, Text bounded (.value v) t) (parseValue (.plain b) (fuel + 1) ctx)
            (c :: s) := by
        intro l context v hl hx
        have hrest : Open (fun _ t => t = l) (fun s => equals context l s >>= fun r => .ok (v, r)) s := literal_open
        refine hrest.behind [c] (fun s' _ => hx s') ?_
        rintro bounded t rfl
        exact ⟨[], v, by rw [List.append_nil]; exact hl.loosen⟩
      -- the case split of the source, on the character that is there
      by_cases h1 : c = '{'
      · subst h1
        refine Open.behind (ih.object [] s (by omega)) ['{'] (fun s' _ => hvalue _ rfl) fun bounded t ht =>
          ⟨[], by rw [List.append_nil]; exact objectTail_text ht⟩
      by_cases h2 : c = '['
      · subst h2
        refine Open.behind (ih.array [] s (by omega)) ['['] (fun s' _ => hvalue _ rfl) fun bounded t ht =>
          ⟨[], by rw [List.append_nil]; exact arrayTail_text ht⟩
      by_cases h3 : c = '"' ∨ c = '\''
      · refine (stringValue_open b (c :: s)).imp (fun s' hs' => ?_) fun _ t ht =>
          ⟨[], by rw [List.append_nil]; exact ht⟩
        obtain ⟨s', rfl⟩ := List.head?_eq_some_iff.mp hs'
        obtain rfl | rfl := h3
        · exact hvalue _ rfl
        · exact hvalue _ rfl
      obtain ⟨hdouble, hsingle⟩ := not_or.mp h3
      clear h3
      by_cases h4 : c = 'n'
      · subst h4
        exact hliteral ['u', 'l', 'l'] "null" .null .null fun s' => hvalue _ rfl
      by_cases h5 : c = 't'
      · subst h5
        exact hliteral ['r', 'u', 'e'] "boolean" (.boolean true) .boolTrue fun s' => hvalue _ rfl
      by_cases h6 : c = 'f'
      · subst h6
        exact hliteral ['a', 'l', 's', 'e'] "boolean" (.boolean false) .boolFalse fun s' => hvalue _ rfl
      by_cases hnumber : isDigit c ∨ c = '-' ∨ c = '+' ∨ c = '.' ∨ c = 'i' ∨ c = 'N'
      · refine (parseNumber_open b (c :: s)).imp (fun s' hs' => ?_) ?_
        · obtain ⟨s', rfl⟩ := List.head?_eq_some_iff.mp hs'
          refine (hvalue (c :: s') rfl).trans ?_
          simp only [get_cons]
          split <;> simp_all
        · rintro bounded t ⟨n, hn, hfits, rfl⟩
          exact ⟨[], n.value, by rw [List.append_nil]; exact .number n hn hfits⟩
      · refine open_syntaxError (some c) ctx ((hvalue _ rfl).trans ?_) fun h => by cases h
        simp only [get_cons]
        split <;> simp_all
        rfl

theorem value_spaces_open {fuel : Nat} (ih : Completes b fuel) (ctx : String) (s : List Char)
    (hfuel : 2 * s.length + 1 ≤ fuel + 1) : Open ValueText (parseValue (.plain b) (fuel + 1) ctx) s := by
  obtain ⟨w, s', hw, hs', rfl⟩ := exists_spaces s
  rw [List.length_append] at hfuel
  refine (value_open ih ctx s' hs' (by omega)).behind w (fun s1 _ => ?_) ?_
  · rw [parseValue, parseValue, skip_ws hw]
  · rintro bounded t ⟨v, ht⟩
    exact ⟨[], w, v, t, hw, ht, by rw [List.append_nil]⟩

theorem completes (b : Bool) (fuel : Nat) : Completes b fuel := by
  induction fuel with
  | zero => exact ⟨fun _ _ h => by omega, fun _ _ h => by omega, fun _ _ h => by omega⟩
  | succ fuel ih => exact ⟨value_spaces_open ih, array_open ih, object_open ih⟩

/-! ## Whole texts -/

/-- A bounded text can begin like this. -/
def Viable (p : List Char) : Prop := ∃ q v, JsonText v (p ++ q)

/-- A text can begin like this, bounded or not. -/
def AnyViable (p : List Char) : Prop := ∃ q v, AnyText v (p ++ q)

theorem Viable.any {p : List Char} (h : Viable p) : AnyViable p := by
  obtain ⟨q, v, w, t, w', hw, ht, hw', heq⟩ := h
  exact ⟨q, v, w, t, w', hw, ht.loosen, hw', heq⟩

theorem Viable.take {p q : List Char} (h : Viable (p ++ q)) : Viable p := by
  obtain ⟨q', v, hv⟩ := h
  exact ⟨q ++ q', v, by rw [← List.append_assoc]; exact hv⟩

theorem JsonText.viable (h : JsonText v s) : Viable s := ⟨[], v, by rw [List.append_nil]; exact h⟩

/-- Behind the value nothing is missing. -/
theorem finish_open (v : Value) (s : List Char) : Open G (fun s => finish (.plain true) (v, s)) s := by
  obtain ⟨w, s', hw, hs', rfl⟩ := exists_spaces s
  have hfinish : finish (.plain true) (v, w ++ s') =
      if (get s').1 ≠ none then .error (.syntaxError (get s').1 "value") else .ok (v, (get s').2) := by
    have hfinished : (Flags.plain true).finished = true := rfl
    rw [finish, if_pos hfinished, skipSpaces_plain true hw hs', ok_bind]
  by_cases hnone : (get s').1 = none
  · exact open_ok (hfinish.trans (if_neg fun h => h hnone))
  · exact open_syntaxError _ _ (hfinish.trans (if_pos hnone)) fun h => absurd h hnone

theorem doParse_open (s : List Char) :
    Open (fun bounded t => ∃ v, Document bounded v t) (doParse (.plain true)) s := by
  have hvalue : Open ValueText (parseValue (.plain true) (enough s) "value") s :=
    (completes true _).value "value" s (Nat.le_refl _)
  have hall : Open (fun bounded t => ∃ v, Document bounded v t)
      (fun s' => parseValue (.plain true) (enough s) "value" s' >>= finish (.plain true)) s := by
    refine Open.bind (fun _ => rfl) hvalue ((enough_takes _ _).value "value" s (Nat.le_refl _)) ?_
      fun v rest hread _ => ?_
    · rintro bounded t ⟨w, v, t', hw, ht', rfl⟩
      exact ⟨[], v, w, t', [], hw, ht', ws_nil, by rw [List.append_assoc]⟩
    · obtain ⟨w, t, -, -, rfl⟩ := (sound true _).value hread
      exact ⟨w ++ t, by rw [List.append_assoc], finish_open v rest⟩
  have heq : ∀ s' e, parseValue (.plain true) (enough s) "value" s' >>= finish (.plain true) = .error e →
      e ≠ .outOfFuel → doParse (.plain true) s' = .error e := by
    intro s' e he hne
    have hfuel : parseValue (.plain true) (enough s) "value" s' ≠ .error .outOfFuel := by
      intro hout
      rw [hout] at he
      exact hne (Except.error.inj he).symm
    have hsame := parseValue_eq hfuel
    show parseValue (.plain true) (enough s') "value" s' >>= finish (.plain true) = _
    rw [hsame]
    exact he
  have hs : doParse (.plain true) s = parseValue (.plain true) (enough s) "value" s >>= finish (.plain true) := rfl
  constructor
  · intro ctx he
    rw [hs] at he
    exact hall.eos he
  · intro ch he
    rw [hs] at he
    obtain ⟨t, q, ht, hne, hbegins, hlocal⟩ := hall.undefined he
    exact ⟨t, q, ht, hne, hbegins, fun q' => heq _ _ (hlocal q') (by simp)⟩

/-- What has been cut off can be completed. -/
theorem doParse_begins (h : doParse .ecma404 s = .error (.syntaxError none ctx)) : Viable s := (doParse_open s).eos h

/-- An overflow is at the end of what begins a text, and does not depend on what is behind it. -/
theorem doParse_overflows {ch : Option Char} (h : doParse .ecma404 s = .error (.undefined ch)) :
    ∃ t q, s = t ++ q ∧ AnyViable t ∧ ∀ q', doParse .ecma404 (t ++ q') = .error (.undefined ch) := by
  obtain ⟨t, q, hs, -, hbegins, hlocal⟩ := (doParse_open s).undefined h
  exact ⟨t, q, hs, hbegins, hlocal⟩

/-- The longest beginning of a text. -/
theorem exists_longest (p s : List Char) (hp : Viable p) :
    ∃ p' s', p ++ s = p' ++ s' ∧ Viable p' ∧ ∀ c q, s' = c :: q → ¬ Viable (p' ++ [c]) := by
  induction s generalizing p with
  | nil => exact ⟨p, [], rfl, hp, fun _ _ h => by cases h⟩
  | cons c s ih =>
      by_cases hc : Viable (p ++ [c])
      · obtain ⟨p', s', heq, hp', hlong⟩ := ih (p ++ [c]) hc
        rw [List.append_assoc] at heq
        exact ⟨p', s', heq, hp', hlong⟩
      · refine ⟨p, c :: s, rfl, hp, fun d q hd => ?_⟩
        obtain ⟨rfl, -⟩ := List.cons.inj hd
        exact hc

theorem viable_nil : Viable [] := ⟨['n', 'u', 'l', 'l'], .null, [], _, [], ws_nil, .null, ws_nil, rfl⟩

/-- No bounded text begins like what fails whatever is behind it. -/
theorem not_viable {p : List Char} {e : Stop} (h : ∀ q, doParse .ecma404 (p ++ q) = .error e) : ¬ Viable p := by
  rintro ⟨q, v, hv⟩
  obtain ⟨rest, -, hparse, -⟩ := hv.read .ecma404
  rw [h q] at hparse
  cases hparse

/-- No text at all begins like what has an error at a character. -/
theorem not_anyViable {p : List Char} {ch : Option Char}
    (h : ∀ q, doParse .ecma404 (p ++ q) = .error (.syntaxError ch ctx)) : ¬ AnyViable p := by
  rintro ⟨q, v, hv⟩
  obtain ⟨rest, -, hparse | ⟨-, ch', hparse⟩, -⟩ := hv.read .ecma404
  · rw [h q] at hparse
    cases hparse
  · rw [h q] at hparse
    cases hparse

/-- An error at a character, and what is before it. -/
theorem doParse_blames_all {e : Stop} {c : Char} (h : doParse .ecma404 s = .error e) (hc : e.blame = some c) :
    ∃ p q, s = p ++ c :: q ∧ ∀ q', doParse .ecma404 ((p ++ [c]) ++ q') = .error e := by
  obtain ⟨p, q, hs, hlocal⟩ := doParse_blames h hc
  exact ⟨p, q, hs, fun q' => by rw [List.append_assoc]; exact hlocal q'⟩

/-- What begins a bounded text, and one character more that does not: it is refused, or the integer overflows. -/
theorem doParse_after {p : List Char} {c : Char} (hp : Viable p) (hc : ¬ Viable (p ++ [c])) :
    (∃ ctx, ∀ q, doParse .ecma404 (p ++ c :: q) = .error (.syntaxError (some c) ctx)) ∨
      (AnyViable (p ++ [c]) ∧ ∃ ch, ∀ q, doParse .ecma404 (p ++ c :: q) = .error (.undefined ch)) := by
  -- what is before the character begins a text, so nothing fails there
  have hlast : ∀ {e : Stop} {t q : List Char}, p ++ [c] = t ++ q → (∀ q', doParse .ecma404 (t ++ q') = .error e) →
      q = [] := by
    intro e t q heq hlocal
    obtain rfl | ⟨q, d, rfl⟩ := List.eq_nil_or_concat q
    · rfl
    · rw [List.concat_eq_append, ← List.append_assoc] at heq
      have hpt : p = t ++ q := (List.append_inj' heq rfl).1
      exact absurd (hpt ▸ hp : Viable (t ++ q)).take (not_viable hlocal)
  cases hparse : doParse .ecma404 (p ++ [c]) with
  | ok r => exact absurd (doParse_plain hparse).1.viable hc
  | error e =>
      cases e with
      | outOfFuel => exact absurd hparse (doParse_fuel _ _)
      | undefined ch =>
          obtain ⟨t, q, heq, hany, hlocal⟩ := doParse_overflows hparse
          obtain rfl := hlast heq hlocal
          rw [List.append_nil] at heq
          rw [← heq] at hany hlocal
          exact .inr ⟨hany, ch, fun q => by rw [List.append_cons]; exact hlocal q⟩
      | syntaxError ch ctx =>
          cases ch with
          | none => exact absurd (doParse_begins hparse) hc
          | some c' =>
              obtain ⟨p', q, hpq, hlocal⟩ := doParse_blames_all hparse rfl
              have hnil := hlast (hpq.trans (List.append_cons ..)) hlocal
              subst hnil
              obtain ⟨rfl, hcc⟩ := List.append_inj' hpq rfl
              obtain rfl := (List.cons.inj hcc).1
              exact .inl ⟨ctx, fun q => by rw [List.append_cons]; exact hlocal q⟩

/-- What can be completed to a bounded text is one, or the parser finds its end. -/
theorem Viable.parses (h : Viable s) :
    (∃ v, JsonText v s) ∨ ∃ ctx, doParse .ecma404 s = .error (.syntaxError none ctx) := by
  cases hparse : doParse .ecma404 s with
  | ok r => exact .inl ⟨r.1, (doParse_plain hparse).1⟩
  | error e =>
      cases e with
      | outOfFuel => exact absurd hparse (doParse_fuel _ _)
      | undefined ch =>
          obtain ⟨t, q, rfl, -, hlocal⟩ := doParse_overflows hparse
          exact absurd h.take (not_viable hlocal)
      | syntaxError ch ctx =>
          cases ch with
          | none => exact .inr ⟨ctx, rfl⟩
          | some c =>
              obtain ⟨p, q, rfl, hlocal⟩ := doParse_blames_all hparse rfl
              rw [List.append_cons] at h
              exact absurd h.take (not_viable hlocal)

/-- **The end is named exactly for a text that has been cut off.** -/
theorem doParse_eos_iff (s : List Char) :
    (∃ ctx, doParse .ecma404 s = .error (.syntaxError none ctx)) ↔
      Viable s ∧ ¬ ∃ v, JsonText v s := by
  constructor
  · rintro ⟨ctx, hparse⟩
    refine ⟨doParse_begins hparse, ?_⟩
    rintro ⟨v, hv⟩
    obtain ⟨rest, -, hread, -⟩ := hv.read .ecma404
    rw [hparse] at hread
    cases hread
  · rintro ⟨hviable, hno⟩
    exact hviable.parses.resolve_left hno

/-- **A character is named exactly if it is the first one that cannot stand where it does**, and no integer has
    overflowed before it. -/
theorem doParse_illegal_iff (s : List Char) (c : Char) :
    (∃ ctx, doParse .ecma404 s = .error (.syntaxError (some c) ctx)) ↔
      ∃ p q, s = p ++ c :: q ∧ Viable p ∧ ¬ AnyViable (p ++ [c]) := by
  constructor
  · rintro ⟨ctx, hparse⟩
    obtain ⟨p, s', hs, hp, hlong⟩ := exists_longest [] s viable_nil
    rw [List.nil_append] at hs
    subst hs
    cases s' with
    | nil =>
        rw [List.append_nil] at hparse
        obtain ⟨v, hv⟩ | ⟨ctx', heos⟩ := hp.parses
        · obtain ⟨rest, -, hread, -⟩ := hv.read .ecma404
          rw [hparse] at hread
          cases hread
        · rw [hparse] at heos
          cases heos
    | cons d q =>
        obtain ⟨ctx', hillegal⟩ | ⟨-, ch, hover⟩ := doParse_after hp (hlong d q rfl)
        · rw [hillegal q] at hparse
          obtain rfl := Option.some.inj (Stop.syntaxError.inj (Except.error.inj hparse)).1
          have hlocal : ∀ q', doParse .ecma404 ((p ++ [d]) ++ q') = .error (.syntaxError (some d) ctx') := by
            intro q'
            rw [List.append_assoc]
            exact hillegal q'
          exact ⟨p, q, rfl, hp, not_anyViable hlocal⟩
        · rw [hover q] at hparse
          cases hparse
  · rintro ⟨p, q, rfl, hp, hc⟩
    obtain ⟨ctx, hillegal⟩ | ⟨hany, -⟩ := doParse_after hp fun h => hc h.any
    · exact ⟨ctx, hillegal q⟩
    · exact absurd hany hc

/-- With some beginning of `s` a text begins, but no bounded one. -/
def Overflows (s : List Char) : Prop := ∃ p q, s = p ++ q ∧ AnyViable p ∧ ¬ Viable p

/-- **An integer overflows exactly where a text has left the bounds.** -/
theorem doParse_undefined_iff (s : List Char) :
    (∃ ch, doParse .ecma404 s = .error (.undefined ch)) ↔ Overflows s := by
  constructor
  · rintro ⟨ch, hparse⟩
    obtain ⟨t, q, hs, hany, hlocal⟩ := doParse_overflows hparse
    exact ⟨t, q, hs, hany, not_viable hlocal⟩
  · rintro ⟨p, q, rfl, hany, hno⟩
    cases hparse : doParse .ecma404 p with
    | ok r => exact absurd (doParse_plain hparse).1.viable hno
    | error e =>
        cases e with
        | outOfFuel => exact absurd hparse (doParse_fuel _ _)
        | undefined ch =>
            obtain ⟨t, q', rfl, -, hlocal⟩ := doParse_overflows hparse
            exact ⟨ch, by rw [List.append_assoc]; exact hlocal _⟩
        | syntaxError ch ctx =>
            cases ch with
            | none => exact absurd (doParse_begins hparse) hno
            | some c =>
                obtain ⟨p', q', rfl, hlocal⟩ := doParse_blames_all hparse rfl
                obtain ⟨q1, v, hv⟩ := hany
                refine absurd ⟨q' ++ q1, v, ?_⟩ (not_anyViable hlocal)
                rw [List.append_cons, List.append_assoc] at hv
                exact hv

theorem parse_eq_error {conf : String} {e : Stop} :
    parse conf = .error e ↔ doParse .ecma404 conf.toList = .error e := by
  unfold parse
  cases doParse .ecma404 conf.toList with
  | ok r => simp [Except.map]
  | error e' => simp [Except.map]

/-- What is read overflows nowhere. -/
theorem JsonText.not_overflows (h : JsonText v s) : ¬ Overflows s := by
  intro hover
  obtain ⟨ch, hundef⟩ := (doParse_undefined_iff s).mpr hover
  obtain ⟨rest, -, hparse, -⟩ := h.read .ecma404
  rw [hundef] at hparse
  cases hparse

end Json

end DlsSdk
