import DlsSdk.Demo.Startup

/-!
# `Json.Parser` — `json5pp::parser`

The parser template, with its flags as an argument. It reads a stream character by character: `get` takes the
next one (`none` at the end), and `unget` puts the last one back, which at the end does nothing. The characters
are bytes; a byte is the character of the same number.

Every function takes what is left of the stream and returns what it leaves, or throws. The loops over the stream
recurse on it, in the modes their labels give them; `parseValue` and the two it calls recurse on a number of
calls, and `Stop.outOfFuel` says that it was too small: that `doParse` never runs out is proved in `Scanning`.

`int` has 32 bits. `parse_number` counts the decimals and the exponent in one without looking whether they fit;
past `INT_MAX` the call is `Stop.undefined`.
-/

namespace DlsSdk

namespace Json

/-- The bits of the template argument. -/
structure Flags where
  singleLineComment : Bool := false
  multiLineComment : Bool := false
  explicitPlusSign : Bool := false
  leadingDecimalPoint : Bool := false
  trailingDecimalPoint : Bool := false
  infinityNumber : Bool := false
  notANumber : Bool := false
  hexadecimal : Bool := false
  singleQuote : Bool := false
  multiLineString : Bool := false
  trailingComma : Bool := false
  unquotedKey : Bool := false
  finished : Bool := false
  deriving DecidableEq, Repr

/-- No rule beyond ECMA-404, and nothing may follow the value. -/
def Flags.ecma404 : Flags := { finished := true }

/-- `json5_rules|finished` -/
def Flags.json5 : Flags where
  singleLineComment := true
  multiLineComment := true
  explicitPlusSign := true
  leadingDecimalPoint := true
  trailingDecimalPoint := true
  infinityNumber := true
  notANumber := true
  hexadecimal := true
  singleQuote := true
  multiLineString := true
  trailingComma := true
  unquotedKey := true
  finished := true

/-- How a call ends without a result: with an exception, or where a signed integer overflows, `ch` having been
    read last. -/
inductive Stop where
  | syntaxError (ch : Option Char) (context : String)
  | undefined (ch : Option Char)
  | outOfFuel
  deriving DecidableEq, Repr

/-- `syntax_error::what()` -/
def Stop.what : Stop → String
  | .syntaxError (some ch) context =>
      "JSON syntax error: illegal character \x60" ++ ch.toString ++ "' in " ++ context
  | .syntaxError none context => "JSON syntax error: unexpected EOS in " ++ context
  | .undefined _ | .outOfFuel => ""

/-- `istream.get()` -/
def get : List Char → Option Char × List Char
  | [] => (none, [])
  | ch :: s => (some ch, s)

/-- `istream.unget()`, `ch` being what was read last. -/
def unget (ch : Option Char) (s : List Char) : List Char := ch.toList ++ s

@[simp] theorem get_cons (ch : Char) (s : List Char) : get (ch :: s) = (some ch, s) := rfl
@[simp] theorem unget_some (ch : Char) (s : List Char) : unget (some ch) s = ch :: s := rfl
@[simp] theorem unget_none (s : List Char) : unget none s = s := rfl

/-! ## Characters -/

/-- `is_digit` -/
def isDigit (ch : Char) : Bool := '0' ≤ ch && ch ≤ '9'

/-- `to_number` -/
def toNumber (ch : Char) : Nat := ch.toNat - 48

/-- `to_number_hex`; `none` for -1. -/
def toNumberHex (ch : Char) : Option Nat :=
  if isDigit ch then some (toNumber ch)
  else if 'A' ≤ ch ∧ ch ≤ 'F' then some (ch.toNat - 65 + 10)
  else if 'a' ≤ ch ∧ ch ≤ 'f' then some (ch.toNat - 97 + 10)
  else none

/-- `is_alpha` -/
def isAlpha (ch : Char) : Bool := ('A' ≤ ch && ch ≤ 'Z') || ('a' ≤ ch && ch ≤ 'z')

/-- The four white spaces. -/
def isSpace (ch : Char) : Bool := ch = '\t' || ch = '\n' || ch = '\r' || ch = ' '

/-! ## White space and comments -/

/-- Where `skip_spaces` is: at its loop, behind a slash, in a comment of either kind, behind an asterisk in
    one. -/
inductive SkipMode where
  | space | slash | line | block | star
  deriving DecidableEq, Repr

/-- The loops of `skip_spaces`: the first character that is none of a space or a comment, and the rest. -/
def skip (F : Flags) : SkipMode → List Char → Except Stop (Option Char × List Char)
  | .space, [] => .ok (none, [])
  | .space, ch :: s =>
      if isSpace ch then skip F .space s
      else if ch = '/' ∧ (F.singleLineComment ∨ F.multiLineComment) then skip F .slash s
      else .ok (some ch, s)
  | .slash, [] => .ok (none, [])
  | .slash, ch :: s =>
      if F.singleLineComment ∧ ch = '/' then skip F .line s
      else if F.multiLineComment ∧ ch = '*' then skip F .block s
      -- no comment: the slash is gone, and its successor is returned
      else .ok (some ch, s)
  | .line, [] => .ok (none, [])
  | .line, ch :: s => if ch = '\r' ∨ ch = '\n' then skip F .space s else skip F .line s
  | .block, [] => .error (.syntaxError none "comment")
  | .block, ch :: s => if ch = '*' then skip F .star s else skip F .block s
  | .star, [] => .error (.syntaxError none "comment")
  | .star, ch :: s =>
      if ch = '*' then skip F .star s
      else if ch = '/' then skip F .space s
      else skip F .block s

/-- `skip_spaces` -/
def skipSpaces (F : Flags) (s : List Char) : Except Stop (Option Char × List Char) := skip F .space s

/-- `equals`, and the `throw` of its callers. -/
def equals (context : String) : List Char → List Char → Except Stop (List Char)
  | [], s => .ok s
  | _ :: _, [] => .error (.syntaxError none context)
  | expected :: sequence, ch :: s =>
      if ch = expected then equals context sequence s else .error (.syntaxError (some ch) context)

/-! ## Numbers -/

/-- `INT_MAX` -/
def intMax : Nat := 2147483647

/-- The digits at the front of the stream, one after the other, with an overflow if `step` is none: the last
    character that is read is no digit, and the stream is behind it. -/
def digitLoop {α : Type} (step : α → Char → Option α) :
    α → List Char → Except Stop (α × Option Char × List Char)
  | a, [] => .ok (a, none, [])
  | a, ch :: s =>
      if isDigit ch then match step a ch with
        | some a => digitLoop step a s
        | none => .error (.undefined (some ch))
      else .ok (a, some ch, s)

/-- `int_part *= 10; int_part += to_number(ch);`, as for `frac_part` -/
def addDigit (part : UInt64) (ch : Char) : UInt64 := part * 10 + UInt64.ofNat (toNumber ch)

/-- A decimal, and `++frac_divs` -/
def addDecimal (part : UInt64 × Nat) (ch : Char) : Option (UInt64 × Nat) :=
  if part.2 < intMax then some (addDigit part.1 ch, part.2 + 1) else none

/-- `exp_part *= 10; exp_part += to_number(ch);` -/
def addExponent (part : Nat) (ch : Char) : Option Nat :=
  if part * 10 + toNumber ch ≤ intMax then some (part * 10 + toNumber ch) else none

/-- The end of `parse_number`: an integer if there is neither a fraction nor an exponent. The cast to
    `long long` and back is the identity, so it is one for every value of `int_part`. -/
def numberValue (negative : Bool) (intPart fracPart : UInt64) (fracDivs : Nat) (expNegative : Bool)
    (expPart : Nat) : Value :=
  if fracPart = 0 ∧ expPart = 0 then
    .integer (if negative then (-intPart).toInt64 else intPart.toInt64)
  else
    let number := intPart.toFloat
    let number :=
      if fracPart > 0 then number + fracPart.toFloat * Float.pow 10 (-(Float.ofNat fracDivs)) else number
    let number :=
      if expPart > 0 then
        number * Float.pow 10 (if expNegative then -(Float.ofNat expPart) else Float.ofNat expPart)
      else number
    .number (if negative then -number else number)

/-- The exponent: `ch` is `e` or `E`. -/
def parseExp (negative : Bool) (intPart fracPart : UInt64) (fracDivs : Nat) (s : List Char) :
    Except Stop (Value × List Char) := do
  let (ch, s) := get s
  let expNegative := ch = some '-'
  let (ch, s) := if ch = some '-' ∨ ch = some '+' then get s else (ch, s)
  let (expPart, ch', s') ← digitLoop addExponent 0 (unget ch s)
  if ch.any isDigit then
    return (numberValue negative intPart fracPart fracDivs expNegative expPart, unget ch' s')
  else throw (.syntaxError ch' "number")

/-- `parse_number` behind its integer part, `ch` having been read. -/
def parseFrac (F : Flags) (negative : Bool) (intPart : UInt64) (ch : Option Char) (s : List Char) :
    Except Stop (Value × List Char) :=
  if ch = some '.' then do
    let ((fracPart, fracDivs), ch, s) ← digitLoop addDecimal (0, 0) s
    if ¬ F.trailingDecimalPoint ∧ fracDivs = 0 then throw (.syntaxError ch "number")
    else if ch = some 'e' ∨ ch = some 'E' then parseExp negative intPart fracPart fracDivs s
    else return (numberValue negative intPart fracPart fracDivs false 0, unget ch s)
  else if ch = some 'e' ∨ ch = some 'E' then parseExp negative intPart 0 0 s
  else .ok (numberValue negative intPart 0 0 false 0, unget ch s)

/-- The end of a hexadecimal number, at `ch`. The least `long long` has no negative. -/
def hexValue (negative : Bool) (intPart : UInt64) (ch : Option Char) (s : List Char) :
    Except Stop (Value × List Char) :=
  if negative then
    if intPart = 0x8000000000000000 then .error (.undefined ch)
    else .ok (.number (-intPart.toInt64).toFloat, unget ch s)
  else .ok (.number intPart.toFloat, unget ch s)

/-- The digits of a hexadecimal number. -/
def hexLoop (negative : Bool) : Bool → UInt64 → List Char → Except Stop (Value × List Char)
  | noDigit, intPart, [] =>
      if noDigit then .error (.syntaxError none "number") else hexValue negative intPart none []
  | noDigit, intPart, ch :: s => match toNumberHex ch with
    | some digit => hexLoop negative false ((intPart <<< 4) ||| UInt64.ofNat digit) s
    | none =>
        if noDigit then .error (.syntaxError (some ch) "number")
        else hexValue negative intPart (some ch) s

/-- `parse_number` from its integer part on, `ch` having been read. -/
def parseUnsigned (F : Flags) (negative : Bool) : Option Char → List Char → Except Stop (Value × List Char)
  | some '0', s =>
      let (ch, s) := get s
      if F.hexadecimal ∧ (ch = some 'x' ∨ ch = some 'X') then hexLoop negative true 0 s
      else parseFrac F negative 0 ch s
  | some ch, s =>
      if isDigit ch then do
        let (intPart, ch, s) ← digitLoop (fun part ch => some (addDigit part ch)) (UInt64.ofNat (toNumber ch)) s
        parseFrac F negative intPart ch s
      else if F.leadingDecimalPoint ∧ ch = '.' then parseFrac F negative 0 (some ch) s
      else if F.infinityNumber ∧ ch = 'i' then do
        let s ← equals "number" ['n', 'f', 'i', 'n', 'i', 't', 'y'] s
        return (.number (if negative then -(1.0 / 0.0) else 1.0 / 0.0), s)
      else if F.notANumber ∧ ch = 'N' then do
        let s ← equals "number" ['a', 'N'] s
        return (.number (0.0 / 0.0), s)
      else .error (.syntaxError (some ch) "number")
  | none, _ => .error (.syntaxError none "number")

/-- `parse_number` -/
def parseNumber (F : Flags) (ch : Option Char) (s : List Char) : Except Stop (Value × List Char) :=
  if ch = some '-' then parseUnsigned F true (get s).1 (get s).2
  else if F.explicitPlusSign ∧ ch = some '+' then parseUnsigned F false (get s).1 (get s).2
  else parseUnsigned F false ch s

/-! ## Strings -/

/-- The characters that stand for themselves or for another one behind a backslash, in every flavour. -/
def escaped : Char → Option Char
  | '"' => some '"'
  | '\\' => some '\\'
  | '/' => some '/'
  | 'b' => some '\x08'
  | 'f' => some '\x0c'
  | 'n' => some '\n'
  | 'r' => some '\r'
  | 't' => some '\t'
  | _ => none

/-- What `\u` appends: the code in UTF-8, a surrogate like any other. -/
def utf8 (code : Nat) : List Char :=
  if code < 0x80 then [.ofNat code]
  else if code < 0x800 then [.ofNat (0xc0 ||| (code >>> 6)), .ofNat (0x80 ||| (code &&& 0x3f))]
  else [.ofNat (0xe0 ||| (code >>> 12)), .ofNat (0x80 ||| ((code >>> 6) &&& 0x3f)),
    .ofNat (0x80 ||| (code &&& 0x3f))]

/-- Where `parse_string` is: at its loop, behind a backslash, or with `left + 1` digits of a `\u` to come. -/
inductive StringMode where
  | char | escape
  | hex (left code : Nat)
  deriving DecidableEq, Repr

/-- The loop of `parse_string`. -/
def stringLoop (F : Flags) (quote : Char) (context : String) :
    StringMode → List Char → List Char → Except Stop (List Char × List Char)
  | _, _, [] => .error (.syntaxError none context)
  | .char, buffer, ch :: s =>
      if ch = quote then .ok (buffer, s)
      else if ch < ' ' then .error (.syntaxError (some ch) context)
      else if ch = '\\' then stringLoop F quote context .escape buffer s
      else stringLoop F quote context .char (buffer ++ [ch]) s
  | .escape, buffer, ch :: s => match escaped ch with
    | some ch => stringLoop F quote context .char (buffer ++ [ch]) s
    | none =>
        if ch = 'u' then stringLoop F quote context (.hex 3 0) buffer s
        else if ch = '\'' ∧ F.singleQuote then stringLoop F quote context .char (buffer ++ [ch]) s
        else if ch = '\r' ∧ F.multiLineString then match s with
          | '\n' :: s => stringLoop F quote context .char buffer s
          | s => stringLoop F quote context .char buffer s
        else if ch = '\n' ∧ F.multiLineString then stringLoop F quote context .char buffer s
        else .error (.syntaxError (some ch) context)
  | .hex left code, buffer, ch :: s => match toNumberHex ch with
    | none => .error (.syntaxError (some ch) context)
    | some n => match left with
      | 0 => stringLoop F quote context .char (buffer ++ utf8 (code * 16 + n)) s
      | left + 1 => stringLoop F quote context (.hex left (code * 16 + n)) buffer s

/-- `parse_string`, with the quote read. -/
def parseString (F : Flags) (quote : Option Char) (context : String) (s : List Char) :
    Except Stop (List Char × List Char) :=
  match quote with
  | some quote =>
      if quote = '"' ∨ (F.singleQuote ∧ quote = '\'') then stringLoop F quote context .char [] s
      else .error (.syntaxError (some quote) context)
  | none => .error (.syntaxError none context)

/-- The identifier of an unquoted key, up to its colon. -/
def identifier (context : String) : List Char → List Char → Except Stop (List Char × List Char)
  | _, [] => .error (.syntaxError none context)
  | buffer, ch :: s =>
      if ch = '_' ∨ ch = '$' ∨ isAlpha ch ∨ (isDigit ch ∧ buffer ≠ []) then
        identifier context (buffer ++ [ch]) s
      else if ch = ':' then .ok (buffer, ch :: s)
      else .error (.syntaxError (some ch) context)

/-- `parse_key` -/
def parseKey (F : Flags) (s : List Char) : Except Stop (List Char × List Char) := do
  let (ch, s) ← skipSpaces F s
  if F.unquotedKey ∧ ch ≠ some '"' ∧ ch ≠ some '\'' then identifier "object-key" [] (unget ch s)
  else parseString F ch "object-key" s

/-! ## Values -/

/-- Two strings as `std::map` orders them. -/
def keyLt (a b : String) : Bool := a.toList < b.toList

/-- `elements.emplace(key, nullptr)`, and then the assignment of the value: of two pairs with one key the later
    one stays. -/
def emplace (key : String) (v : Value) : List (String × Value) → List (String × Value)
  | [] => [(key, v)]
  | p :: elements =>
      if keyLt key p.1 then (key, v) :: p :: elements
      else if keyLt p.1 key then p :: emplace key v elements
      else (key, v) :: elements

/-- The start of the loops of `parse_array` and `parse_object`: whether the bracket closes, and where the next
    element begins if it does not. -/
def nextElement (F : Flags) (close : Char) (context : String) (empty : Bool) (s : List Char) :
    Except Stop (Bool × List Char) := do
  let (ch, s) ← skipSpaces F s
  if ch = some close then return (true, s)
  else if empty then return (false, unget ch s)
  else if ch ≠ some ',' then throw (.syntaxError ch context)
  else if F.trailingComma then
    let (ch, s) ← skipSpaces F s
    if ch = some close then return (true, s) else return (false, unget ch s)
  else return (false, s)

mutual

/-- `parse_value` -/
def parseValue (F : Flags) : Nat → String → List Char → Except Stop (Value × List Char)
  | 0, _, _ => .error .outOfFuel
  | fuel + 1, context, s => do
      let (ch, s) ← skipSpaces F s
      match ch with
      | some '{' => parseObject F fuel [] s
      | some '[' => parseArray F fuel [] s
      | some '"' | some '\'' =>
          let (buffer, s) ← parseString F ch "string" s
          return (.string (.ofList buffer), s)
      | some 'n' => return (.null, ← equals "null" ['u', 'l', 'l'] s)
      | some 't' => return (.boolean true, ← equals "boolean" ['r', 'u', 'e'] s)
      | some 'f' => return (.boolean false, ← equals "boolean" ['a', 'l', 's', 'e'] s)
      | some c =>
          if isDigit c ∨ c = '-' ∨ c = '+' ∨ c = '.' ∨ c = 'i' ∨ c = 'N' then parseNumber F ch s
          else throw (.syntaxError ch context)
      | none => throw (.syntaxError none context)

/-- `parse_array`, with the elements so far. -/
def parseArray (F : Flags) : Nat → List Value → List Char → Except Stop (Value × List Char)
  | 0, _, _ => .error .outOfFuel
  | fuel + 1, elements, s => do
      let (closed, s) ← nextElement F ']' "array" elements.isEmpty s
      if closed then return (.array elements, s)
      else
        let (v, s) ← parseValue F fuel "array" s
        parseArray F fuel (elements ++ [v]) s

/-- `parse_object`, with the pairs so far. -/
def parseObject (F : Flags) : Nat → List (String × Value) → List Char → Except Stop (Value × List Char)
  | 0, _, _ => .error .outOfFuel
  | fuel + 1, elements, s => do
      let (closed, s) ← nextElement F '}' "object" elements.isEmpty s
      if closed then return (.object elements, s)
      else
        let (key, s) ← parseKey F s
        let (ch, s) ← skipSpaces F s
        if ch ≠ some ':' then throw (.syntaxError ch "object")
        else
          let (v, s) ← parseValue F fuel "object" s
          parseObject F fuel (emplace (.ofList key) v elements) s

end

/-- The calls that a text of this length can need. -/
def enough (s : List Char) : Nat := 2 * s.length + 1

/-- `do_parse` -/
def doParse (F : Flags) (s : List Char) : Except Stop (Value × List Char) := do
  let (v, s) ← parseValue F (enough s) "value" s
  if F.finished then
    let (ch, s) ← skipSpaces F s
    if ch ≠ none then throw (.syntaxError ch "value") else return (v, s)
  else return (v, s)

/-- `json5pp::parse(conf)` -/
def parse (conf : String) : Except Stop Value := (doParse .ecma404 conf.toList).map Prod.fst

/-- `json5pp::parse5(conf)` -/
def parse5 (conf : String) : Except Stop Value := (doParse .json5 conf.toList).map Prod.fst

end Json

end DlsSdk
