import DlsSdk.Demo.Startup
import Mathlib.Algebra.GroupWithZero.Nat

/-!
# `Json.Grammar` — the texts of ECMA-404 and their values

What a JSON text is, and which value it stands for, without a parser: `Text bounded part t` derives the text `t`
of a value, of the elements of an array or of the members of an object. White space (`Ws`) stands around elements,
keys and values, and around the whole (`Document`).

A numeral without a fraction and an exponent is an integer, modulo 2^64; any other one is a double. A character
behind `\u` is the bytes of its code. Of two members with one key the later one counts.

A text is bounded (`JsonText`) if the exponents and the numbers of decimals in it can be counted in an `int`; the
others are texts of ECMA-404 as well (`AnyText`).
-/

namespace DlsSdk

namespace Json

/-! ## White space -/

/-- One of the four white spaces. -/
def Space (c : Char) : Prop := c = '\t' ∨ c = '\n' ∨ c = '\r' ∨ c = ' '

instance (c : Char) : Decidable (Space c) := inferInstanceAs (Decidable (_ ∨ _))

def Ws (w : List Char) : Prop := ∀ c ∈ w, Space c

theorem ws_nil : Ws [] := fun _ h => absurd h List.not_mem_nil

theorem Ws.append {w w' : List Char} (h : Ws w) (h' : Ws w') : Ws (w ++ w') := fun c hc =>
  (List.mem_append.mp hc).elim (h c) (h' c)

theorem Ws.cons {c : Char} {w : List Char} (hc : Space c) (h : Ws w) : Ws (c :: w) :=
  List.forall_mem_cons.mpr ⟨hc, h⟩

/-! ## Numerals -/

/-- Nothing but digits. -/
def Digits (ds : List Char) : Prop := ∀ c ∈ ds, c.isDigit = true

/-- The number that some digits write. -/
def decimal (ds : List Char) : Nat := Nat.ofDigitChars 10 ds 0

/-- The exponent of a numeral. -/
structure Exponent where
  mark : Char
  sign : Option Char
  digits : List Char

structure Exponent.Valid (e : Exponent) : Prop where
  mark : e.mark = 'e' ∨ e.mark = 'E'
  sign : ∀ c ∈ e.sign, c = '-' ∨ c = '+'
  some : e.digits ≠ []
  digits : Digits e.digits

def Exponent.text (e : Exponent) : List Char := e.mark :: (e.sign.toList ++ e.digits)

structure Numeral where
  negative : Bool
  int : List Char
  frac : Option (List Char)
  exp : Option Exponent

/-- No leading zero, and no empty fraction. -/
structure Numeral.Valid (n : Numeral) : Prop where
  int : n.int = ['0'] ∨ ∃ d ds, n.int = d :: ds ∧ d ≠ '0'
  digits : Digits n.int
  frac : ∀ ds ∈ n.frac, ds ≠ [] ∧ Digits ds
  exp : ∀ e ∈ n.exp, e.Valid

/-- The fraction with its point. -/
def fracText : Option (List Char) → List Char
  | none => []
  | some ds => '.' :: ds

def expText : Option Exponent → List Char
  | none => []
  | some e => e.text

def Numeral.text (n : Numeral) : List Char :=
  (if n.negative then ['-'] else []) ++ (n.int ++ (fracText n.frac ++ expText n.exp))

/-- The digits behind the point. -/
def Numeral.decimals (n : Numeral) : List Char := n.frac.getD []

/-- The exponent, without its sign. -/
def Numeral.exponent (n : Numeral) : Nat := (n.exp.map fun e => decimal e.digits).getD 0

/-- The decimals and the exponent can be counted in an `int` of 32 bits. -/
structure Numeral.Fits (n : Numeral) : Prop where
  decimals : n.decimals.length < 2 ^ 31
  exponent : n.exponent < 2 ^ 31

/-- The integer part, with the sign. -/
def Numeral.integer (n : Numeral) : Int := if n.negative then -(decimal n.int : Int) else decimal n.int

/-- The double: the integer part and the decimals are integers modulo 2^64. -/
def Numeral.double (n : Numeral) : Float :=
  let number := (UInt64.ofNat (decimal n.int)).toFloat
  let number := if decimal n.decimals % 2 ^ 64 = 0 then number else
    number + (UInt64.ofNat (decimal n.decimals)).toFloat * Float.pow 10 (-(Float.ofNat n.decimals.length))
  let number := if n.exponent = 0 then number else
    number * Float.pow 10
      (if n.exp.any fun e => e.sign = some '-' then -(Float.ofNat n.exponent) else Float.ofNat n.exponent)
  if n.negative then -number else number

def Numeral.value (n : Numeral) : Value :=
  if decimal n.decimals % 2 ^ 64 = 0 ∧ n.exponent = 0 then .integer (.ofInt n.integer) else .number n.double

/-! ## Strings -/

/-- The characters that stand for a character behind a backslash. -/
def escapes : List (Char × Char) :=
  [('"', '"'), ('\\', '\\'), ('/', '/'), ('b', '\x08'), ('f', '\x0c'), ('n', '\n'), ('r', '\r'), ('t', '\t')]

/-- A hexadecimal digit, in either case. -/
def HexDigit (c : Char) (n : Nat) : Prop :=
  ['0', '1', '2', '3', '4', '5', '6', '7', '8', '9', 'a', 'b', 'c', 'd', 'e', 'f'][n]? = some c ∨
    ['0', '1', '2', '3', '4', '5', '6', '7', '8', '9', 'A', 'B', 'C', 'D', 'E', 'F'][n]? = some c

instance (c : Char) (n : Nat) : Decidable (HexDigit c n) := inferInstanceAs (Decidable (_ ∨ _))

/-- The bytes of a code of up to 16 bits: those of its character in UTF-8; a surrogate, which is none, has the
    three bytes that a character in its place would have. -/
def codeBytes (code : Nat) : List Char :=
  if code.isValidChar then (String.utf8EncodeChar (.ofNat code)).map .ofUInt8
  else [.ofNat (0xe0 + code / 0x1000), .ofNat (0x80 + code / 0x40 % 0x40), .ofNat (0x80 + code % 0x40)]

/-- The text between the quotes of a string, and the string. -/
inductive StringText : List Char → List Char → Prop where
  | nil : StringText [] []
  | char {c : Char} {buffer body : List Char} (hc : ¬ c < ' ') (hq : c ≠ '"') (hb : c ≠ '\\')
      (h : StringText buffer body) : StringText (c :: buffer) (c :: body)
  | escape {e c : Char} {buffer body : List Char} (he : (e, c) ∈ escapes) (h : StringText buffer body) :
      StringText (c :: buffer) ('\\' :: e :: body)
  | unicode {c3 c2 c1 c0 : Char} {n3 n2 n1 n0 : Nat} {buffer body : List Char} (h3 : HexDigit c3 n3)
      (h2 : HexDigit c2 n2) (h1 : HexDigit c1 n1) (h0 : HexDigit c0 n0) (h : StringText buffer body) :
      StringText (codeBytes (n3 * 4096 + n2 * 256 + n1 * 16 + n0) ++ buffer)
        ('\\' :: 'u' :: c3 :: c2 :: c1 :: c0 :: body)

/-! ## Values -/

/-- What a text can be the text of. -/
inductive Part where
  | value (v : Value)
  | elements (vs : List Value)
  | members (ms : List (String × Value))

/-- The pairs are in the order of their keys, which are different. -/
def Sorted (pairs : List (String × Value)) : Prop := pairs.Pairwise fun p q => p.1.toList < q.1.toList

/-- The map of some members: a key has the value of its last member. -/
structure MapOf (ms pairs : List (String × Value)) : Prop where
  sorted : Sorted pairs
  last : ∀ key, pairs.lookup key = ms.reverse.lookup key

/-- A text of ECMA-404, bounded or not. -/
inductive Text (bounded : Bool) : Part → List Char → Prop where
  | null : Text bounded (.value .null) ['n', 'u', 'l', 'l']
  | boolTrue : Text bounded (.value (.boolean true)) ['t', 'r', 'u', 'e']
  | boolFalse : Text bounded (.value (.boolean false)) ['f', 'a', 'l', 's', 'e']
  | number (n : Numeral) (hn : n.Valid) (hb : bounded = true → n.Fits) : Text bounded (.value n.value) n.text
  | string {buffer body : List Char} (h : StringText buffer body) :
      Text bounded (.value (.string (.ofList buffer))) ('"' :: (body ++ ['"']))
  | noElements {w : List Char} (hw : Ws w) : Text bounded (.value (.array [])) ('[' :: (w ++ [']']))
  | array {vs : List Value} {t : List Char} (h : Text bounded (.elements vs) t) :
      Text bounded (.value (.array vs)) ('[' :: (t ++ [']']))
  | noMembers {w : List Char} (hw : Ws w) : Text bounded (.value (.object [])) ('{' :: (w ++ ['}']))
  | object {ms pairs : List (String × Value)} {t : List Char} (h : Text bounded (.members ms) t)
      (hp : MapOf ms pairs) : Text bounded (.value (.object pairs)) ('{' :: (t ++ ['}']))
  | element {w t w' : List Char} {v : Value} (hw : Ws w) (hv : Text bounded (.value v) t) (hw' : Ws w') :
      Text bounded (.elements [v]) (w ++ (t ++ w'))
  | elements {w t w' ts : List Char} {v : Value} {vs : List Value} (hw : Ws w) (hv : Text bounded (.value v) t)
      (hw' : Ws w') (hvs : Text bounded (.elements vs) ts) :
      Text bounded (.elements (v :: vs)) (w ++ (t ++ (w' ++ ',' :: ts)))
  | member {w k w1 w2 t w' buffer : List Char} {v : Value} (hw : Ws w) (hk : StringText buffer k)
      (hw1 : Ws w1) (hw2 : Ws w2) (hv : Text bounded (.value v) t) (hw' : Ws w') :
      Text bounded (.members [(.ofList buffer, v)]) (w ++ '"' :: (k ++ '"' :: (w1 ++ ':' :: (w2 ++ (t ++ w')))))
  | members {w k w1 w2 t w' buffer ts : List Char} {v : Value} {ms : List (String × Value)} (hw : Ws w)
      (hk : StringText buffer k) (hw1 : Ws w1) (hw2 : Ws w2) (hv : Text bounded (.value v) t) (hw' : Ws w')
      (hms : Text bounded (.members ms) ts) :
      Text bounded (.members ((.ofList buffer, v) :: ms))
        (w ++ '"' :: (k ++ '"' :: (w1 ++ ':' :: (w2 ++ (t ++ (w' ++ ',' :: ts))))))

/-- A whole text: a value with white space around it. -/
def Document (bounded : Bool) (v : Value) (s : List Char) : Prop :=
  ∃ w t w', Ws w ∧ Text bounded (.value v) t ∧ Ws w' ∧ s = w ++ (t ++ w')

/-- A text in which the decimals and the exponents can be counted in an `int`. -/
abbrev JsonText : Value → List Char → Prop := Document true

/-- Any text of ECMA-404. -/
abbrev AnyText : Value → List Char → Prop := Document false

/-- A bounded text is one of either kind. -/
theorem Text.loosen {bounded : Bool} {part : Part} {t : List Char} (h : Text true part t) : Text bounded part t := by
  induction h with
  | null => exact .null
  | boolTrue => exact .boolTrue
  | boolFalse => exact .boolFalse
  | number n hn hb => exact .number n hn fun _ => hb rfl
  | string h => exact .string h
  | noElements hw => exact .noElements hw
  | array _ ih => exact .array ih
  | noMembers hw => exact .noMembers hw
  | object _ hp ih => exact .object ih hp
  | element hw _ hw' ih => exact .element hw ih hw'
  | elements hw _ hw' _ ih ihs => exact .elements hw ih hw' ihs
  | member hw hk hw1 hw2 _ hw' ih => exact .member hw hk hw1 hw2 ih hw'
  | members hw hk hw1 hw2 _ hw' _ ih ihs => exact .members hw hk hw1 hw2 ih hw' ihs

end Json

end DlsSdk
