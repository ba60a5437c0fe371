import DlsSdk.Json.Grammar

/-!
# `Json.Stringifier` — `json5pp::stringifier`

The stringifier template, with its flags and its indent as an argument. What it writes of a finite `double` is the
stream's doing, so this is a parameter: the numeral that `ostream << number` writes.
-/

namespace DlsSdk

namespace Json

/-- The template arguments: the bits of the flags that count here, and the indent, of spaces if it is positive and
    of tabs if it is negative. -/
structure Layout where
  infinityNumber : Bool := false
  notANumber : Bool := false
  crlfNewline : Bool := false
  indent : Int8 := 0

/-- `get_newline` -/
def Layout.getNewline (L : Layout) : List Char := if L.crlfNewline then ['\r', '\n'] else ['\n']

/-- `get_indent` -/
def Layout.getIndent (L : Layout) : List Char :=
  if L.indent > 0 then List.replicate L.indent.toInt.toNat ' '
  else if L.indent < 0 then List.replicate (-L.indent.toInt).toNat '\t'
  else []

/-- `newline << indent`, which is not written without an indent. -/
def Layout.breakLine (L : Layout) (indent : List Char) : List Char :=
  if L.indent = 0 then [] else L.getNewline ++ indent

/-- What is between a key and its value. -/
def Layout.colon (L : Layout) : List Char := if L.indent = 0 then [':'] else [':', ' ']

/-- `hex` -/
def hex (n : Nat) : Char :=
  (['0', '1', '2', '3', '4', '5', '6', '7', '8', '9', 'a', 'b', 'c', 'd', 'e', 'f'][n]?).getD '0'

/-- What `stringify_string` writes for a character. -/
def escape (ch : Char) : List Char :=
  if ch = '"' then ['\\', '"']
  else if ch = '\\' then ['\\', '\\']
  else if ch = '\x08' then ['\\', 'b']
  else if ch = '\x0c' then ['\\', 'f']
  else if ch = '\n' then ['\\', 'n']
  else if ch = '\r' then ['\\', 'r']
  else if ch = '\t' then ['\\', 't']
  else if ch < ' ' then
    ['\\', 'u', '0', '0', hex ((ch.toNat >>> 4) &&& 0xf), hex (ch.toNat &&& 0xf)]
  else [ch]

/-- `stringify_string` -/
def stringifyString (string : String) : List Char := '"' :: (string.toList.flatMap escape ++ ['"'])

/-- `ostream << integer` -/
def stringifyInteger (integer : Int64) : List Char :=
  (if integer < 0 then ['-'] else []) ++ Nat.toDigits 10 integer.toInt.natAbs

/-- The `TYPE_NUMBER` case of `stringify_value`. -/
def stringifyNumber (numeral : Float → Numeral) (L : Layout) (number : Float) : List Char :=
  if number.isNaN then if ¬ L.notANumber then ['n', 'u', 'l', 'l'] else ['N', 'a', 'N']
  else if ¬ number.isFinite then
    if ¬ L.infinityNumber then ['n', 'u', 'l', 'l']
    else (if number > 0 then [] else ['-']) ++ ['i', 'n', 'f', 'i', 'n', 'i', 't', 'y']
  else (numeral number).text

mutual

/-- `stringify_value` -/
def stringifyValue (numeral : Float → Numeral) (L : Layout) (indent : List Char) : Value → List Char
  | .null => ['n', 'u', 'l', 'l']
  | .boolean b => if b then ['t', 'r', 'u', 'e'] else ['f', 'a', 'l', 's', 'e']
  | .number x => stringifyNumber numeral L x
  | .integer i => stringifyInteger i
  | .string s => stringifyString s
  | .array [] => ['[', ']']
  | .array (item :: items) =>
      stringifyItems numeral L (indent ++ L.getIndent) '[' (item :: items) ++ (L.breakLine indent ++ [']'])
  | .object [] => ['{', '}']
  | .object (pair :: pairs) =>
      stringifyPairs numeral L (indent ++ L.getIndent) '{' (pair :: pairs) ++ (L.breakLine indent ++ ['}'])

/-- The loop over the items of an array. -/
def stringifyItems (numeral : Float → Numeral) (L : Layout) (indent : List Char) (delim : Char) :
    List Value → List Char
  | [] => []
  | item :: items =>
      delim :: (L.breakLine indent ++ (stringifyValue numeral L indent item ++
        stringifyItems numeral L indent ',' items))

/-- The loop over the pairs of an object. -/
def stringifyPairs (numeral : Float → Numeral) (L : Layout) (indent : List Char) (delim : Char) :
    List (String × Value) → List Char
  | [] => []
  | (key, v) :: pairs =>
      delim :: (L.breakLine indent ++ (stringifyString key ++ (L.colon ++
        (stringifyValue numeral L indent v ++ stringifyPairs numeral L indent ',' pairs))))

end

/-- `value::stringify`, with the layout of its arguments. -/
def stringify (numeral : Float → Numeral) (L : Layout) (v : Value) : String :=
  .ofList (stringifyValue numeral L [] v)

end Json

end DlsSdk
