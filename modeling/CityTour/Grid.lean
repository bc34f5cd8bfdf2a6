import CityTour.Number.Written
import CityTour.Scalar

/-! Arrays of any number of dimensions, and how document values become numbers.  A nested list is
an array when all lists at one depth have the same length. -/

namespace CityTour

open Document

/-- The count of entries of an array of the given shape. -/
def cells : List Nat → Nat
  | [] => 1
  | d :: rest => d * cells rest

/-- An array with its entries in row-major order. -/
structure Grid (α : Type) where
  shape : List Nat
  entries : Vector α (cells shape)

namespace Grid

variable {α β : Type}

/-- A single number as an array without dimensions. -/
def single (x : α) : Grid α := ⟨[], #v[x]⟩

/-- A list as an array of one dimension. -/
def ofList (xs : List α) : Grid α := ⟨[xs.length], xs.toArray, by simp [cells]⟩

/-- All entries of arrays of one shape. -/
theorem length_flatMap_entries {s : List Nat} {gs : List (Grid α)}
    (h : ∀ g ∈ gs, g.shape = s) :
    (gs.flatMap fun g => g.entries.toList).length = gs.length * cells s := by
  induction gs with
  | nil => simp
  | cons g gs ih =>
    have hg : g.shape = s := h g (by simp)
    have hr := ih fun x hx => h x (by simp [hx])
    rw [List.flatMap_cons, List.length_append, hr, Vector.length_toList, hg, List.length_cons,
      Nat.add_mul, Nat.one_mul, Nat.add_comm]

/-- Arrays of one shape, one behind the other along a new first dimension. -/
def stack? : List (Grid α) → Option (Grid α)
  | [] => some ⟨[0], ⟨#[], by simp [cells]⟩⟩
  | g :: rest =>
    if h : ∀ x ∈ rest, x.shape = g.shape then
      some ⟨(rest.length + 1) :: g.shape, ((g :: rest).flatMap fun x => x.entries.toList).toArray,
        by
          have hall : ∀ x ∈ g :: rest, x.shape = g.shape := by
            intro x hx
            rcases List.mem_cons.1 hx with rfl | hx
            · rfl
            · exact h x hx
          simpa [cells] using length_flatMap_entries hall⟩
    else none

mutual

/-- The array of a nested list, its entries still values. -/
def ofNested? : Value → Option (Grid Value)
  | .list items => (ofItems? items).bind stack?
  | v => some (single v)

/-- The arrays of the items of a list. -/
def ofItems? : List Value → Option (List (Grid Value))
  | [] => some []
  | v :: rest =>
    match ofNested? v, ofItems? rest with
    | some g, some gs => some (g :: gs)
    | _, _ => none

end

/-- The most dimensions that an array has. -/
def rankLimit : Nat := 64

/-- The array of a shape with one number everywhere. -/
def filled (shape : List Int) (x : α) : Except Fault (Grid α) :=
  if rankLimit < shape.length then .error .unevenLists
  else if shape.any (· < 0) then .error .negativeSize
  else
    let sizes := shape.map Int.toNat
    .ok ⟨sizes, Vector.replicate (cells sizes) x⟩

/-- An array with every entry converted, the first failure in row-major order winning. -/
def mapM (f : α → Except Fault β) (g : Grid α) : Except Fault (Grid β) :=
  (g.entries.mapM f).map fun entries => ⟨g.shape, entries⟩

/-- An index from the start, or from the end if it is negative. -/
def place (size : Nat) (i : Int) : Except Fault Nat :=
  if 0 ≤ i ∧ i < size then .ok i.toNat
  else if -size ≤ i ∧ i < 0 then .ok (i + size).toNat
  else .error .outOfRange

/-- Indices are less than this and not less than its negative. -/
def indexBound : Int := Nat.pow 2 63

/-- Whether an integer is small enough for an index. -/
def fitsIndex (i : Int) : Bool := -indexBound ≤ i && i < indexBound

/-- What is wrong with an integer that is no index: a word without a sign overflows, and anything
larger does not count as an integer at all. -/
def indexFault (i : Int) : Fault :=
  if 0 ≤ i ∧ i < 2 * indexBound then .wideIndex else .outOfRange

/-- The first entry under a row and a column. -/
def entryAt [Zero α] (g : Grid α) (i j : Int) : Except Fault α :=
  match g.shape with
  | n :: m :: deeper => do
    let row ← place n i
    let column ← place m j
    return (g.entries[(row * m + column) * cells deeper]?).getD 0
  | _ => .error .outOfRange

end Grid

/-- A double that was rounded from a number, unless the number is beyond all doubles. -/
def Double.bounded (x : Float) : Except Fault Float :=
  match reading x with
  | .infinite _ => .error .unboundedNumber
  | _ => .ok x

/-- The double that an integer stands for. -/
def Double.ofInt? (i : Int) : Except Fault Float := bounded (ofInt i)

/-- The double that a value stands for. -/
def Double.ofValue : Value → Except Fault Float
  | .bool b => .ok (if b then 1 else 0)
  | .int i => Double.ofInt? i
  | .real x => .ok x
  | .text s =>
    match (Text.Symbol.string? s).bind fun s => Numeral.real? s.toList with
    | some x => .ok x
    | none => .error .unreadableNumber
  | .null | .list _ | .object _ => .error .notANumber

/-- The double that an entry of an array stands for; a missing entry is no number. -/
def Double.ofEntry : Value → Except Fault Float
  | .null => .ok Double.undefined
  | v => Double.ofValue v

/-- The array of doubles that a value stands for. -/
def Grid.ofValue (v : Value) : Except Fault (Grid Float) :=
  match Grid.ofNested? v with
  | none => .error .unevenLists
  | some g => if rankLimit < g.shape.length then .error .unevenLists else g.mapM Double.ofEntry

end CityTour
