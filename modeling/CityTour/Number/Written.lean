import CityTour.Number.Decimal
import CityTour.Text

/-! Numbers as texts: the forms in which doubles are written, and the numerals that are read.  A
`Style` says where positional notation ends, whether a whole number keeps a point, and how the
values that are no numbers are spelled; `plain` is the form used in texts and `document` the one in
stored documents.  `brief` gives six significant digits, `places` a fixed count of decimal places
and `percent` a whole percentage. -/

namespace CityTour.Written

open Double

/-- The choices that fix how digits are laid out. -/
structure Style where
  /-- Numbers below ten to this power are written with an exponent. -/
  least : Int
  /-- Numbers from ten to this power on are written with an exponent. -/
  bound : Int
  /-- What follows a whole number written positionally. -/
  wholeMark : String
  undefined : String
  infinite : String

/-- The digits without the zeros at their end. -/
def trimZeros (digits : List Char) : List Char :=
  (digits.reverse.dropWhile (· = '0')).reverse

/-- An exponent with its sign and at least two digits. -/
def exponentText (e : Int) : List Char :=
  let digits := Nat.toDigits 10 e.natAbs
  (if e < 0 then '-' else '+') :: (if digits.length < 2 then '0' :: digits else digits)

/-- Nonzero digits, the first of which has the place value `10 ^ top`. -/
def layDigits (style : Style) (digits : List Char) (top : Int) : List Char :=
  if style.least ≤ top ∧ top < style.bound then
    if top < 0 then
      '0' :: '.' :: (List.replicate (-top - 1).toNat '0' ++ digits)
    else
      let whole := top.toNat + 1
      if digits.length ≤ whole then
        digits ++ List.replicate (whole - digits.length) '0' ++ style.wholeMark.toList
      else digits.take whole ++ '.' :: digits.drop whole
  else
    match digits with
    | [] => []
    | [d] => d :: 'e' :: exponentText top
    | d :: rest => d :: '.' :: (rest ++ 'e' :: exponentText top)

/-- A decimal in a style, without a sign. -/
def layDecimal (style : Style) (d : Decimal) : List Char :=
  if d.digits = 0 then '0' :: style.wholeMark.toList
  else layDigits style (trimZeros (Nat.toDigits 10 d.digits)) (d.order - 1)

/-- A double in a style, its magnitude turned into a decimal by `round`. -/
def withStyle (style : Style) (round : Nat → Int → Decimal) (x : Float) : List Char :=
  match reading x with
  | .undefined => style.undefined.toList
  | .infinite negative => (if negative then ['-'] else []) ++ style.infinite.toList
  | .finite negative mantissa exponent =>
    (if negative then ['-'] else []) ++
      layDecimal style (if mantissa = 0 then ⟨0, 0⟩ else round mantissa exponent)

/-- Texts write numbers from `10 ^ -4` up to `10 ^ 16` positionally and keep the point of a whole
number. -/
def plainStyle : Style := ⟨-4, 16, ".0", "nan", "inf"⟩

/-- Stored documents differ from texts in the names of the values that are no numbers. -/
def documentStyle : Style := ⟨-4, 16, ".0", "NaN", "Infinity"⟩

/-- Six digits are written positionally up to `10 ^ 6`, a whole number without a point. -/
def briefStyle : Style := ⟨-4, 6, "", "nan", "inf"⟩

/-- The fewest digits that read back. -/
def plain (x : Float) : List Char := withStyle plainStyle Decimal.shortest x

/-- The fewest digits that read back, as stored documents spell them. -/
def document (x : Float) : List Char := withStyle documentStyle Decimal.shortest x

/-- Six significant digits without zeros at the end. -/
def brief (x : Float) : List Char := withStyle briefStyle (Decimal.significant 6) x

/-- A magnitude in units of `10 ^ -count`, with exactly `count` decimal places. -/
def layPlaces (count units : Nat) : List Char :=
  let digits := Nat.toDigits 10 units
  let padded := List.replicate (count + 1 - digits.length) '0' ++ digits
  let whole := padded.take (padded.length - count)
  if count = 0 then whole else whole ++ '.' :: padded.drop (padded.length - count)

/-- A double with `count` decimal places. -/
def places (count : Nat) (x : Float) : List Char :=
  match reading x with
  | .undefined => "nan".toList
  | .infinite negative => (if negative then ['-'] else []) ++ "inf".toList
  | .finite negative mantissa exponent =>
    (if negative then ['-'] else []) ++
      layPlaces count (Decimal.fixed count mantissa exponent).digits

/-- A share as a whole percentage. -/
def percent (x : Float) : List Char := places 0 (x * 100) ++ ['%']

end CityTour.Written

/-! ### Numerals

`integer?` and `real?` read a text as a whole number or as a double.  Blanks may stand at both ends,
digits may come from any script, and single underscores may stand between digits.  A real numeral is
a decimal with an optional exponent, or one of the words `inf`, `infinity` and `nan` in any case. -/

namespace CityTour.Numeral

open Text

/-- A digit of any script as one from `0` to `9`, and any other character as it is. -/
def plainDigit (c : Char) : Char :=
  match digitValue? c with
  | some d => Char.ofNat (48 + d)
  | none => c

/-- The text without the underscores between digits, if there are no other underscores. -/
def dropSeparators (afterDigit : Bool) : List Char → Option (List Char)
  | [] => some []
  | '_' :: c :: rest =>
    if afterDigit && isPlainDigit c then (dropSeparators true rest).map (c :: ·) else none
  | c :: rest =>
    if c = '_' then none else (dropSeparators (isPlainDigit c) rest).map (c :: ·)

/-- The characters that matter in a numeral. -/
def core? (cs : List Char) : Option (List Char) :=
  dropSeparators false ((strip isPadding cs).map plainDigit)

/-- The sign and what follows it. -/
def splitSign : List Char → Bool × List Char
  | '-' :: rest => (true, rest)
  | '+' :: rest => (false, rest)
  | cs => (false, cs)

/-- The value of a row of digits. -/
def digitsValue (cs : List Char) : Nat := cs.foldl (fun v c => 10 * v + (c.toNat - 48)) 0

/-- The most digits that an integer numeral may have. -/
def digitLimit : Nat := 4300

/-- The integer that a text stands for. -/
def integer? (cs : List Char) : Option Int := do
  let (negative, digits) := splitSign (← core? cs)
  if digits.isEmpty || !digits.all isPlainDigit || digitLimit < digits.length then none
  else
    let v : Int := digitsValue digits
    some (if negative then -v else v)

/-- The power of ten after a mantissa: nothing, or `e` and an integer. -/
def exponent? : List Char → Option Int
  | [] => some 0
  | c :: rest =>
    if c = 'e' ∨ c = 'E' then
      let (negative, digits) := splitSign rest
      if digits.isEmpty || !digits.all isPlainDigit then none
      else
        let v : Int := digitsValue digits
        some (if negative then -v else v)
    else none

/-- A decimal with an optional point and an optional exponent. -/
def decimal? (cs : List Char) : Option Decimal := do
  let whole := cs.takeWhile isPlainDigit
  let afterWhole := cs.dropWhile isPlainDigit
  let (places, rest) := match afterWhole with
    | '.' :: more => (more.takeWhile isPlainDigit, more.dropWhile isPlainDigit)
    | more => ([], more)
  if whole.isEmpty && places.isEmpty then none
  else
    let e ← exponent? rest
    some ⟨digitsValue (whole ++ places), e - places.length⟩

/-- A letter of ASCII in lower case, and any other character as it is. -/
def lower (cs : List Char) : List Char := cs.map Char.toLower

/-- The double that a text stands for. -/
def real? (cs : List Char) : Option Float := do
  let (negative, body) := splitSign (← core? cs)
  if lower body = "inf".toList ∨ lower body = "infinity".toList then
    some (Double.infinity negative)
  else if lower body = "nan".toList then some Double.undefined
  else
    let d ← decimal? body
    some (d.toDouble negative)

end CityTour.Numeral
