import CityTour.Entries
import CityTour.Number.Written
import CityTour.Text

/-! Documents: their values, and how these are shown, printed and read. -/

namespace CityTour.Document

open Text

/-- A value of a stored document.  Whole numbers have any size; an object keeps its fields in the
order in which they were first named. -/
inductive Value
  | null
  | bool (b : Bool)
  | int (i : Int)
  | real (x : Float)
  | text (s : List Symbol)
  | list (items : List Value)
  | object (fields : List (List Symbol × Value))

/-- A text without halves of pairs as a value. -/
def Value.ofString (s : String) : Value := .text (Symbol.ofString s)

/-- The value under a name. -/
def lookup? (name : String) (fields : List (List Symbol × Value)) : Option Value :=
  fields.lookup (Symbol.ofString name)

/-! ### Values shown on one line, as messages and reports show them -/

/-- The parts with a comma and a blank between them. -/
def commaSeparated : List (List Char) → List Char
  | [] => []
  | [part] => part
  | part :: rest => part ++ ',' :: ' ' :: commaSeparated rest

mutual

/-- A value on one line. -/
def display : Value → List Char
  | .null => "None".toList
  | .bool true => "True".toList
  | .bool false => "False".toList
  | .int i => (toString i).toList
  | .real x => Written.plain x
  | .text s => quoted s
  | .list items => '[' :: (commaSeparated (displayItems items) ++ [']'])
  | .object fields => '{' :: (commaSeparated (displayFields fields) ++ ['}'])

/-- The items of a list. -/
def displayItems : List Value → List (List Char)
  | [] => []
  | v :: rest => display v :: displayItems rest

/-- The fields of an object, each with its name. -/
def displayFields : List (List Symbol × Value) → List (List Char)
  | [] => []
  | (name, v) :: rest =>
    (quoted name ++ ':' :: ' ' :: display v) :: displayFields rest

end

/-- Doubles between brackets. -/
def displayReals (xs : List Float) : String :=
  String.ofList (display (.list (xs.map .real)))

/-- Integers between brackets. -/
def displayInts (xs : List Int) : String :=
  String.ofList (display (.list (xs.map .int)))

/-! ### Writing documents

Every item and every field stands on a line of its own, two blanks deeper than what holds it.  Texts
are written in ASCII, other characters as code units. -/

/-- A code unit as an escape. -/
def unitEscape (k : Nat) : List Char :=
  let digits := Nat.toDigits 16 k
  '\\' :: 'u' :: (List.replicate (4 - digits.length) '0' ++ digits)

/-- A character inside a text. -/
def writeChar (c : Char) : List Char :=
  if c = '"' ∨ c = '\\' then ['\\', c]
  else if c = '\n' then ['\\', 'n']
  else if c = '\r' then ['\\', 'r']
  else if c = '\t' then ['\\', 't']
  else if c = '\x0c' then ['\\', 'f']
  else if c = '\x08' then ['\\', 'b']
  else if ' ' ≤ c ∧ c ≤ '~' then [c]
  else if c.toNat < 0x10000 then unitEscape c.toNat
  else
    let k := c.toNat - 0x10000
    unitEscape (0xd800 + k / 0x400) ++ unitEscape (0xdc00 + k % 0x400)

/-- A symbol inside a text. -/
def writeSymbol : Symbol → List Char
  | .char c => writeChar c
  | .half unit => unitEscape (Symbol.half unit).code

/-- A text between quotes. -/
def writeText (s : List Symbol) : List Char := '"' :: (s.flatMap writeSymbol ++ ['"'])

/-- A new line at a depth. -/
def newLine (depth : Nat) : List Char := '\n' :: List.replicate (2 * depth) ' '

mutual

/-- A value that starts at a depth. -/
def writeValue (depth : Nat) : Value → List Char
  | .null => "null".toList
  | .bool true => "true".toList
  | .bool false => "false".toList
  | .int i => (toString i).toList
  | .real x => Written.document x
  | .text s => writeText s
  | .list [] => ['[', ']']
  | .list (v :: rest) =>
    '[' :: (newLine (depth + 1) ++ writeValue (depth + 1) v ++ writeItems (depth + 1) rest ++
      newLine depth ++ [']'])
  | .object [] => ['{', '}']
  | .object ((name, v) :: rest) =>
    '{' :: (newLine (depth + 1) ++ writeText name ++ ':' :: ' ' :: writeValue (depth + 1) v ++
      writeFields (depth + 1) rest ++ newLine depth ++ ['}'])

/-- The items after the first. -/
def writeItems (depth : Nat) : List Value → List Char
  | [] => []
  | v :: rest => ',' :: (newLine depth ++ writeValue depth v ++ writeItems depth rest)

/-- The fields after the first. -/
def writeFields (depth : Nat) : List (List Symbol × Value) → List Char
  | [] => []
  | (name, v) :: rest =>
    ',' :: (newLine depth ++ writeText name ++ ':' :: ' ' :: writeValue depth v ++
      writeFields depth rest)

end

/-- The whole text of a value. -/
def write (v : Value) : String := String.ofList (writeValue 0 v)

/-! ### Reading documents

`read` takes a whole text apart into one value; besides the usual literals it knows `NaN`,
`Infinity` and `-Infinity`.  A number without point and exponent is whole.  The functions that read
a part return the rest of the text, and the ones that follow the nesting count down a bound on its
length. -/

open Numeral

/-- Why a text is no document. -/
inductive Defect
  | malformed
  /-- A whole number has more digits than an integer numeral may have. -/
  | oversized
  deriving DecidableEq, Repr

/-- The blanks between the parts of a document. -/
def isGap (c : Char) : Bool := c == ' ' || c == '\t' || c == '\n' || c == '\r'

/-- The text after the blanks at its start. -/
def skipGap (cs : List Char) : List Char := cs.dropWhile isGap

/-- The value of a hexadecimal digit. -/
def hexValue? (c : Char) : Option Nat :=
  if '0' ≤ c ∧ c ≤ '9' then some (c.toNat - 48)
  else if 'a' ≤ c ∧ c ≤ 'f' then some (c.toNat - 87)
  else if 'A' ≤ c ∧ c ≤ 'F' then some (c.toNat - 55)
  else none

/-- A code unit written with four hexadecimal digits. -/
def codeUnit? (a b c d : Char) : Option Nat := do
  return (((← hexValue? a) * 16 + (← hexValue? b)) * 16 + (← hexValue? c)) * 16 + (← hexValue? d)

/-- The character after a backslash that stands for another one. -/
def unescape? : Char → Option Char
  | '"' => some '"'
  | '\\' => some '\\'
  | '/' => some '/'
  | 'b' => some '\x08'
  | 'f' => some '\x0c'
  | 'n' => some '\n'
  | 'r' => some '\r'
  | 't' => some '\t'
  | _ => none

/-- The symbols of a text up to its closing quote.  Two code units that form a surrogate pair are
one character. -/
def readChars : List Char → Option (List Symbol × List Char)
  | [] => none
  | '"' :: rest => some ([], rest)
  | '\\' :: 'u' :: a :: b :: c :: d :: '\\' :: 'u' :: e :: f :: g :: h :: rest =>
    match codeUnit? a b c d, codeUnit? e f g h with
    | some high, some low =>
      if 0xd800 ≤ high ∧ high < 0xdc00 ∧ 0xdc00 ≤ low ∧ low < 0xe000 then
        (readChars rest).map fun r =>
          (.char (Char.ofNat (0x10000 + (high - 0xd800) * 0x400 + (low - 0xdc00))) :: r.1, r.2)
      else
        (readChars ('\\' :: 'u' :: e :: f :: g :: h :: rest)).map fun r =>
          (.ofUnit high :: r.1, r.2)
    | some high, none =>
      (readChars ('\\' :: 'u' :: e :: f :: g :: h :: rest)).map fun r =>
        (.ofUnit high :: r.1, r.2)
    | none, _ => none
  | '\\' :: 'u' :: a :: b :: c :: d :: rest =>
    match codeUnit? a b c d with
    | some k => (readChars rest).map fun r => (.ofUnit k :: r.1, r.2)
    | none => none
  | '\\' :: c :: rest =>
    match unescape? c with
    | some plain => (readChars rest).map fun r => (.char plain :: r.1, r.2)
    | none => none
  | c :: rest =>
    if c.toNat < 32 ∨ c = '\\' then none else (readChars rest).map fun r => (.char c :: r.1, r.2)

/-- The digits after a point, if any, with the rest. -/
def readPlaces : List Char → List Char × List Char
  | '.' :: c :: rest =>
    if isPlainDigit c then (c :: rest.takeWhile isPlainDigit, rest.dropWhile isPlainDigit)
    else ([], '.' :: c :: rest)
  | cs => ([], cs)

/-- The digits of an exponent after its mark and sign. -/
def readPowerDigits (negative : Bool) (digits : List Char) : Option (Int × List Char) :=
  if (digits.takeWhile isPlainDigit).isEmpty then none
  else
    let v : Int := digitsValue (digits.takeWhile isPlainDigit)
    some (if negative then -v else v, digits.dropWhile isPlainDigit)

/-- An exponent, if there is one, with the rest. -/
def readPower : List Char → Option (Int × List Char)
  | c :: rest =>
    if c = 'e' ∨ c = 'E' then readPowerDigits (splitSign rest).1 (splitSign rest).2 else none
  | [] => none

/-- The digits before the point: a lone zero, or a row of digits that starts with another one. -/
def readWhole : List Char → Option (List Char × List Char)
  | '0' :: rest => some (['0'], rest)
  | c :: rest =>
    if isPlainDigit c then
      some (c :: rest.takeWhile isPlainDigit, rest.dropWhile isPlainDigit)
    else none
  | [] => none

/-- A number without its sign. -/
def readMagnitude (negative : Bool) (cs : List Char) : Except Defect (Value × List Char) :=
  match readWhole cs with
  | none => .error .malformed
  | some (whole, afterWhole) =>
    let (places, afterPlaces) := readPlaces afterWhole
    match readPower afterPlaces with
    | some (power, rest) =>
      .ok (.real (Decimal.toDouble negative
        ⟨digitsValue (whole ++ places), power - places.length⟩), rest)
    | none =>
      if places.isEmpty then
        if digitLimit < whole.length then .error .oversized
        else
          let v : Int := digitsValue whole
          .ok (.int (if negative then -v else v), afterPlaces)
      else
        .ok (.real (Decimal.toDouble negative
          ⟨digitsValue (whole ++ places), -places.length⟩), afterPlaces)

/-- The rest of a text that starts with the given word. -/
def afterWord? : List Char → List Char → Option (List Char)
  | [], cs => some cs
  | w :: word, c :: cs => if w = c then afterWord? word cs else none
  | _ :: _, [] => none

/-- The literals, each with its value. -/
def literals : List (String × Value) :=
  [("null", .null), ("true", .bool true), ("false", .bool false), ("NaN", .real Double.undefined),
    ("Infinity", .real (Double.infinity false)), ("-Infinity", .real (Double.infinity true))]

/-- A literal or a number. -/
def readPlain (cs : List Char) : Except Defect (Value × List Char) :=
  match literals.findSome? fun l => (afterWord? l.1.toList cs).map fun rest => (l.2, rest) with
  | some r => .ok r
  | none =>
    match cs with
    | '-' :: rest => readMagnitude true rest
    | _ => readMagnitude false cs

mutual

/-- One value at the start of a text without blanks before it. -/
def readValue : Nat → List Char → Except Defect (Value × List Char)
  | 0, _ => .error .malformed
  | fuel + 1, '[' :: rest =>
    match skipGap rest with
    | ']' :: rest => .ok (.list [], rest)
    | rest =>
      match readItems fuel rest with
      | .ok (items, rest) => .ok (.list items, rest)
      | .error d => .error d
  | fuel + 1, '{' :: rest =>
    match skipGap rest with
    | '}' :: rest => .ok (.object [], rest)
    | rest =>
      match readFields fuel rest with
      | .ok (fields, rest) => .ok (.object (Entries.settle fields), rest)
      | .error d => .error d
  | _ + 1, '"' :: rest =>
    match readChars rest with
    | some (s, rest) => .ok (.text s, rest)
    | none => .error .malformed
  | _ + 1, cs => readPlain cs

/-- The items of a list up to its closing bracket. -/
def readItems : Nat → List Char → Except Defect (List Value × List Char)
  | 0, _ => .error .malformed
  | fuel + 1, cs =>
    match readValue fuel cs with
    | .error d => .error d
    | .ok (v, rest) =>
      match skipGap rest with
      | ']' :: rest => .ok ([v], rest)
      | ',' :: rest =>
        match readItems fuel (skipGap rest) with
        | .ok (items, rest) => .ok (v :: items, rest)
        | .error d => .error d
      | _ => .error .malformed

/-- The fields of an object up to its closing brace. -/
def readFields : Nat → List Char → Except Defect (List (List Symbol × Value) × List Char)
  | 0, _ => .error .malformed
  | fuel + 1, '"' :: rest =>
    match readChars rest with
    | none => .error .malformed
    | some (name, rest) =>
      match skipGap rest with
      | ':' :: rest =>
        match readValue fuel (skipGap rest) with
        | .error d => .error d
        | .ok (v, rest) =>
          match skipGap rest with
          | '}' :: rest => .ok ([(name, v)], rest)
          | ',' :: rest =>
            match readFields fuel (skipGap rest) with
            | .ok (fields, rest) => .ok ((name, v) :: fields, rest)
            | .error d => .error d
          | _ => .error .malformed
      | _ => .error .malformed
  | _ + 1, _ => .error .malformed

end

/-- The value that a whole text stands for. -/
def read (cs : List Char) : Except Defect Value :=
  match readValue (2 * cs.length + 2) (skipGap cs) with
  | .error d => .error d
  | .ok (v, rest) => if (skipGap rest).isEmpty then .ok v else .error .malformed

end CityTour.Document
