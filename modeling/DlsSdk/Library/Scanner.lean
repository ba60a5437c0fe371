/-!
# `Library.Scanner` — reading a stream with one character of lookahead

A scanner takes what is left of a stream, and either returns a result and what it leaves, or fails. Some of its
failures blame a character, the one it has read last; `Failures` says which, and how it may fail on which streams.

`Ahead K n x s` — on `s` the scanner `x` takes `n` characters or more, and what it does depends on those it takes
and the one behind them, and on nothing else: however the stream goes on from there, it does the same. A failure
depends on nothing behind the character it blames. And it fails only in the ways that `K` allows.

A scanner that reads a character goes on as another one (`Ahead.take`); one that looks at a character and puts it
back has ended there (`Ahead.stop`); sequences take what their parts take (`Ahead.bind`).
-/

namespace Scanner

/-- A function that reads a stream. -/
abbrev Scan (σ ε α : Type) := List σ → Except ε (α × List σ)

/-- The failures of a scanner. What is allowed on a stream is allowed with something before it. -/
structure Failures (σ ε : Type) where
  blame : ε → Option σ
  allowed : ε → List σ → Prop
  behind : ∀ {e s}, allowed e s → ∀ p, allowed e (p ++ s)

variable {σ ε α β : Type} {K K' : Failures σ ε} {n m : Nat} {x y : Scan σ ε α} {s : List σ}

structure Ahead (K : Failures σ ε) (n : Nat) (x : Scan σ ε α) (s : List σ) : Prop where
  ok : ∀ {a rest}, x s = .ok (a, rest) → ∃ p, s = p ++ rest ∧ n ≤ p.length ∧
    ∀ d r r', rest = d :: r → x (p ++ d :: r') = .ok (a, d :: r')
  error : ∀ {e}, x s = .error e → K.allowed e s ∧
    ∀ c, K.blame e = some c → ∃ p q, s = p ++ c :: q ∧ ∀ q', x (p ++ c :: q') = .error e

/-- Fewer characters are taken as well. -/
theorem Ahead.mono (h : Ahead K n x s) (hm : m ≤ n) : Ahead K m x s where
  ok hx := by
    obtain ⟨p, hs, hn, hp⟩ := h.ok hx
    exact ⟨p, hs, Nat.le_trans hm hn, hp⟩
  error := h.error

/-- The first character decides which scanner it is. -/
theorem Ahead.congr (hxy : ∀ s', s'.head? = s.head? → x s' = y s') (h : Ahead K n y s) :
    Ahead K n x s where
  ok {a rest} hx := by
    rw [hxy s rfl] at hx
    obtain ⟨p, hs, hn, hp⟩ := h.ok hx
    refine ⟨p, hs, hn, fun d r r' hrest => ?_⟩
    rw [← hp d r r' hrest]
    refine hxy _ ?_
    rw [hs, hrest]
    cases p <;> rfl
  error {e} hx := by
    rw [hxy s rfl] at hx
    obtain ⟨hallowed, hblame⟩ := h.error hx
    refine ⟨hallowed, fun c hc => ?_⟩
    obtain ⟨p, q, hs, hp⟩ := hblame c hc
    refine ⟨p, q, hs, fun q' => ?_⟩
    rw [← hp q']
    refine hxy _ ?_
    rw [hs]
    cases p <;> rfl

theorem Ahead.congr_nil (h : Ahead K n y []) (hxy : x [] = y []) :
    Ahead K n x [] :=
  .congr (fun s' hs' => by rw [List.head?_eq_none_iff.mp hs', hxy]) h

theorem Ahead.congr_cons {c : σ} (h : Ahead K n y (c :: s))
    (hxy : ∀ s', x (c :: s') = y (c :: s')) : Ahead K n x (c :: s) := by
  refine .congr (fun s' hs' => ?_) h
  obtain ⟨s', rfl⟩ := List.head?_eq_some_iff.mp hs'
  exact hxy s'

/-- At the end of the stream there is nothing to depend on. -/
theorem Ahead.nil (hok : ∀ {a rest}, x [] = .ok (a, rest) → n = 0 ∧ rest = [])
    (herror : ∀ {e}, x [] = .error e → K.allowed e [] ∧ K.blame e = none) : Ahead K n x [] where
  ok hx := by
    obtain ⟨rfl, rfl⟩ := hok hx
    exact ⟨[], rfl, Nat.le_refl _, fun _ _ _ h => by cases h⟩
  error hx := by
    obtain ⟨hallowed, hblame⟩ := herror hx
    exact ⟨hallowed, fun c hc => by rw [hblame] at hc; cases hc⟩

/-- A character is taken. -/
theorem Ahead.take {c : σ} (hx : ∀ s', x (c :: s') = y s') (h : Ahead K n y s) :
    Ahead K (n + 1) x (c :: s) where
  ok {a rest} hs := by
    rw [hx] at hs
    obtain ⟨p, rfl, hn, hp⟩ := h.ok hs
    refine ⟨c :: p, rfl, Nat.succ_le_succ hn, fun d r r' hrest => ?_⟩
    rw [List.cons_append, hx, hp d r r' hrest]
  error {e} hs := by
    rw [hx] at hs
    obtain ⟨hallowed, hblame⟩ := h.error hs
    refine ⟨K.behind hallowed [c], fun d hd => ?_⟩
    obtain ⟨p, q, rfl, hp⟩ := hblame d hd
    refine ⟨c :: p, q, rfl, fun q' => ?_⟩
    rw [List.cons_append, hx, hp]

/-- The scanner returns, and nothing is taken. -/
theorem Ahead.pure {a : α} (hx : ∀ s', s'.head? = s.head? → x s' = .ok (a, s')) :
    Ahead K 0 x s where
  ok {a' rest} hs := by
    rw [hx s rfl] at hs
    obtain ⟨rfl, rfl⟩ := Prod.mk.inj (Except.ok.inj hs)
    refine ⟨[], rfl, Nat.le_refl _, fun d r r' hrest => ?_⟩
    rw [List.nil_append, hx]
    rw [hrest]
    rfl
  error {e} hs := by
    rw [hx s rfl] at hs
    cases hs

/-- A character is looked at and put back. -/
theorem Ahead.unget {a : α} {c : σ} (hx : ∀ s', x (c :: s') = .ok (a, c :: s')) :
    Ahead K 0 x (c :: s) := by
  refine .pure (a := a) fun s' hs' => ?_
  obtain ⟨s', rfl⟩ := List.head?_eq_some_iff.mp hs'
  exact hx s'

/-- A character is refused: the failure blames it, or none. -/
theorem Ahead.refuse {c : σ} {e : ε} (hx : ∀ s', x (c :: s') = .error e) (he : K.allowed e (c :: s))
    (hblame : ∀ d, K.blame e = some d → d = c) : Ahead K n x (c :: s) where
  ok hs := by
    rw [hx] at hs
    cases hs
  error {e'} hs := by
    rw [hx] at hs
    obtain rfl := Except.error.inj hs
    refine ⟨he, fun d hd => ⟨[], s, ?_, fun q' => ?_⟩⟩
    · rw [hblame d hd, List.nil_append]
    · rw [hblame d hd, List.nil_append, hx]

/-- **Sequences.** -/
theorem Ahead.bind {f : α × List σ → Except ε (β × List σ)} (hx : Ahead K n x s)
    (hf : ∀ {a rest}, x s = .ok (a, rest) → Ahead K m (fun s => f (a, s)) rest) :
    Ahead K (n + m) (fun s => x s >>= f) s where
  ok {b rest} hs := by
    cases hxs : x s with
    | error e =>
        rw [hxs] at hs
        cases hs
    | ok r =>
        obtain ⟨a, s1⟩ := r
        rw [hxs] at hs
        obtain ⟨p, rfl, hn, hp⟩ := hx.ok hxs
        obtain ⟨p', rfl, hm, hp'⟩ := (hf hxs).ok hs
        refine ⟨p ++ p', (List.append_assoc ..).symm, ?_, fun d r r' hrest => ?_⟩
        · rw [List.length_append]
          exact Nat.add_le_add hn hm
        · -- what is behind the first part begins with the same character
          have hfirst : x (p ++ (p' ++ d :: r')) = .ok (a, p' ++ d :: r') := by
            cases p' with
            | nil => exact hp d r r' hrest
            | cons d' p' => exact hp d' (p' ++ rest) (p' ++ d :: r') rfl
          rw [List.append_assoc, hfirst]
          exact hp' d r r' hrest
  error {e} hs := by
    cases hxs : x s with
    | error e' =>
        rw [hxs] at hs
        obtain rfl := Except.error.inj hs
        obtain ⟨hallowed, hblame⟩ := hx.error hxs
        refine ⟨hallowed, fun c hc => ?_⟩
        obtain ⟨p, q, hpq, hp⟩ := hblame c hc
        refine ⟨p, q, hpq, fun q' => ?_⟩
        rw [hp]
        rfl
    | ok r =>
        obtain ⟨a, s1⟩ := r
        rw [hxs] at hs
        obtain ⟨hallowed, hblame⟩ := (hf hxs).error hs
        obtain ⟨p, rfl, -, hp⟩ := hx.ok hxs
        refine ⟨K.behind hallowed p, fun c hc => ?_⟩
        obtain ⟨p', q, rfl, hp'⟩ := hblame c hc
        refine ⟨p ++ p', q, (List.append_assoc ..).symm, fun q' => ?_⟩
        have hfirst : x (p ++ (p' ++ c :: q')) = .ok (a, p' ++ c :: q') := by
          cases p' with
          | nil => exact hp c q q' rfl
          | cons d' p' => exact hp d' (p' ++ c :: q) (p' ++ c :: q') rfl
        rw [List.append_assoc, hfirst]
        exact hp' q'

/-- How it may fail can be said afterwards. -/
theorem Ahead.allow (h : Ahead K n x s) (hblame : K'.blame = K.blame)
    (hallow : ∀ {e}, x s = .error e → K.allowed e s → K'.allowed e s) : Ahead K' n x s where
  ok := h.ok
  error hx := by
    obtain ⟨hallowed, hlocal⟩ := h.error hx
    rw [hblame]
    exact ⟨hallow hx hallowed, hlocal⟩

/-- A scanner that does what another one does, wherever that one does not fail in a way that is never allowed. -/
theorem Ahead.settle (fair : ε → Prop) (h : Ahead K n y s) (hfair : ∀ {e s}, K.allowed e s → fair e)
    (hxy : ∀ s', (∀ e, y s' = .error e → fair e) → x s' = y s') : Ahead K n x s := by
  have hs : x s = y s := hxy s fun e he => hfair (h.error he).1
  constructor
  · intro a rest hx
    rw [hs] at hx
    obtain ⟨p, hp, hn, hlocal⟩ := h.ok hx
    refine ⟨p, hp, hn, fun d r r' hrest => ?_⟩
    have hy := hlocal d r r' hrest
    rw [← hy]
    exact hxy _ fun e he => by rw [hy] at he; cases he
  · intro e hx
    rw [hs] at hx
    obtain ⟨hallowed, hblame⟩ := h.error hx
    refine ⟨hallowed, fun c hc => ?_⟩
    obtain ⟨p, q, hp, hlocal⟩ := hblame c hc
    refine ⟨p, q, hp, fun q' => ?_⟩
    have hy := hlocal q'
    rw [← hy]
    refine hxy _ fun e' he => ?_
    rw [hy] at he
    obtain rfl := Except.error.inj he
    exact hfair hallowed

/-- What is left is no longer than what there was, by the characters taken. -/
theorem Ahead.length {a : α} {rest : List σ} (h : Ahead K n x s) (hx : x s = .ok (a, rest)) :
    n + rest.length ≤ s.length := by
  obtain ⟨p, rfl, hn, -⟩ := h.ok hx
  rw [List.length_append]
  exact Nat.add_le_add_right hn _

end Scanner
