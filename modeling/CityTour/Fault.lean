import CityTour.Document

/-! What can go wrong.  A `Refusal` says why an instance or an input to it is refused, and
`Refusal.message` words it for the reader; a `Fault` is a refusal or any other cause that ends a
computation without an answer. -/

namespace CityTour

open Document

/-- Why an instance or an input to it is refused. -/
inductive Refusal
  | notSquare
  | noCities
  | diagonalNotZero
  | undefinedWeight
  | zeroWeight
  | valueCount
  | badBudget
  | weightsWithoutValues
  | tourLength
  /-- A tour through `n` cities does not visit each of them once. -/
  | notPermutation (n : Int)
  /-- A chromosome of the named encoding has the wrong count of entries. -/
  | chromosomeSize (name : String) (expected : Int) (given : Nat)
  | unknownEncoding (given : Value)
  | unsupportedVersion (given : Value)
  | fewVariables
  | decisionSize (expected : Int) (given : Nat)
  | noSamples

/-- The wording of a refusal. -/
def Refusal.message : Refusal → String
  | notSquare => "adjacency matrix is not square"
  | noCities => "adjacency matrix is empty"
  | diagonalNotZero => "main diagonal elements must all be zeros."
  | undefinedWeight => "adjacency matrix contains NaN values."
  | zeroWeight => "adjacency matrix contains zero values."
  | valueCount => "Size of weight matrix and values vector must be equal"
  | badBudget => "maximum path length must be a non-negative number"
  | weightsWithoutValues => "weights and values must be given together"
  | tourLength => "tour dimension must equal city count"
  | notPermutation n => "tour must be a permutation of 0.." ++ toString (n - 1)
  | chromosomeSize name expected given =>
    name ++ " chromosome must have " ++ toString expected ++ " entries, got " ++ toString given
  | unknownEncoding given => "unknown encoding " ++ String.ofList (display given)
  | unsupportedVersion given => "unsupported state version " ++ String.ofList (display given)
  | fewVariables => "ZDT1 needs at least two decision variables"
  | decisionSize expected given =>
    "decision vector must have " ++ toString expected ++ " entries, got " ++ toString given
  | noSamples => "--samples must be at least 1"

/-- Why a computation has no answer. -/
inductive Fault
  | refused (reason : Refusal)
  /-- An index names no entry. -/
  | outOfRange
  /-- An integer is too large for an index, but not for a word without a sign. -/
  | wideIndex
  /-- A tour holds an integer that is too large, or too small, for an index. -/
  | wideTour
  /-- A list of fewer than no entries is asked for. -/
  | negativeSize
  /-- The value that is no number stands where an integer is needed. -/
  | undefinedNumber
  /-- An infinity stands where an integer is needed, or an integer is beyond all doubles. -/
  | unboundedNumber
  /-- A text is no numeral. -/
  | unreadableNumber
  /-- A value of another kind stands where a number is needed. -/
  | notANumber
  /-- Lists of different lengths, or too deeply nested, stand where an array is needed. -/
  | unevenLists
  /-- A pair of indices does not single out one entry of an array of three or more dimensions. -/
  | partialIndex
  /-- The keys are neither one nor one for each city. -/
  | keyCount
  /-- Keys are given to an encoding without keys. -/
  | keysNotTaken
  /-- A pair of integers names no arc. -/
  | noArc
  | divisionByZero
  | negativeRoot
  /-- The empty value stands where a label is needed. -/
  | noLabel
  /-- Numbers and texts are mixed where labels have to be sorted. -/
  | mixedLabels
  | missingField (name : String)
  | notAnObject
  | missingFile (path : String)
  /-- A path that should name a file names a directory. -/
  | directory (path : String)
  /-- A path goes on behind the name of a file. -/
  | beyondFile (path : String)
  /-- A path holds a character that no path may hold. -/
  | malformedPath
  | malformedDocument
  | oversizedInteger
  /-- A section of an instance file cannot be read. -/
  | malformedSection
  /-- The mark that closes a list stands twice at its end. -/
  | doubledMark
  /-- The edge weights of an instance file are listed, but the file has no nodes. -/
  | noNodes
  /-- Two nodes have coordinates of different dimensions. -/
  | unevenCoordinates
  /-- The edge weights are of a kind that is not known, or lack their data. -/
  | unknownWeights
  /-- The edge weights are defined outside the instance file. -/
  | specialWeights
  /-- The neighbours of nodes are listed where pairs of nodes are needed. -/
  | unpairedEdges
  /-- Pairs of nodes are listed where the neighbours of nodes are needed. -/
  | pairedEdges
  /-- The words of a command line are not understood. -/
  | misuse

/-- A refusal as a fault. -/
def refuse {α : Type} (reason : Refusal) : Except Fault α := .error (.refused reason)

end CityTour
