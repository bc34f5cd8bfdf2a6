import CityTour.Graph.Basic
import CityTour.Problem.State
import CityTour.Tsplib.Instance

/-! Files and the problems that they hold.  A path is its parts between slashes, of which the empty
ones and single dots say nothing.  The last part is the name of the file; what follows its last dot,
with the dot, is the suffix, unless the dot is the first or the last character of the name. -/

namespace CityTour.Path

/-- The parts between slashes. -/
def split (cs : List Char) : List (List Char) :=
  cs.foldr (fun c parts =>
    match parts with
    | part :: rest => if c = '/' then [] :: part :: rest else (c :: part) :: rest
    | [] => []) [[]]

/-- The parts that matter. -/
def parts (path : String) : List (List Char) :=
  (split path.toList).filter fun part => part ≠ [] ∧ part ≠ ['.']

/-- The part that leads to the directory above. -/
def parent : List Char := ['.', '.']

/-- The slashes at the start that matter: one, or exactly two. -/
def root (path : String) : List Char :=
  match (path.toList.takeWhile (· = '/')).length with
  | 0 => []
  | 2 => ['/', '/']
  | _ => ['/']

/-- A path without the parts that say nothing. -/
def normal (path : String) : String :=
  match root path ++ ['/'].intercalate (parts path) with
  | [] => "."
  | cs => String.ofList cs

/-- The name of the file. -/
def fileName (path : String) : List Char := (parts path).getLastD []

/-- The name before its last dot, and the rest from that dot on. -/
def splitName (path : String) : List Char × List Char :=
  let name := fileName path
  let tail := (name.reverse.takeWhile (· ≠ '.')).reverse
  let before := name.length - tail.length - 1
  if tail.length < name.length ∧ 0 < before ∧ tail ≠ [] then
    (name.take before, name.drop before)
  else (name, [])

/-- The name without its suffix. -/
def stem (path : String) : String := String.ofList (splitName path).1

/-- Whether the suffix of a path is the given one, in any case of letters. -/
def hasSuffix (suffix path : String) : Bool :=
  (splitName path).2.map Char.toLower == suffix.toList

end CityTour.Path

/-! ### Problems from files

Files lie in directories, which are there because some file lies in them; `follow` walks along a
path and says where it leads.  A value file holds one number a word, a state file the state of a
problem, and any other file is an instance whose cities are its nodes in order. -/

namespace CityTour

open Document

/-- Some files, each a path and a text. -/
abbrev Files := List (String × String)

/-- Where a path leads. -/
inductive Destination
  | file (text : String)
  | directory
  | nowhere
  /-- On, behind a file. -/
  | beyondFile

namespace Files

variable (files : Files)

/-- Where the parts of a path lead from a directory among files that are given by their own parts.
Nothing is known of what lies outside the first directory, but for the directories above it. -/
def follow (files : List (List (List Char) × String)) (above : Option (List (List Char)))
    (here : Option (List (List Char))) : List (List Char) → Destination
  | [] => .directory
  | part :: rest =>
    if part = Path.parent then
      follow files above (here.bind fun parts => if parts = [] then above else some parts.dropLast)
        rest
    else
      match here with
      | none => .nowhere
      | some parts =>
        let there := parts ++ [part]
        match files.lookup there with
        | some text => if rest = [] then .file text else .beyondFile
        | none =>
          if files.any fun f => there.isPrefixOf f.1 then follow files above (some there) rest
          else .nowhere

/-- Where a path leads.  The root lies in itself, and the directory of relative paths in another
one. -/
def destination (path : String) : Destination :=
  let root := Path.root path
  let near := (files.filter fun f => Path.root f.1 = root).map fun f => (Path.parts f.1, f.2)
  match near.lookup (Path.parts path) with
  | some text => .file text
  | none => follow near (if root = [] then none else some []) (some []) (Path.parts path)

/-- The text of a file, its lines ended by line feeds. -/
def text (path : String) : Except Fault (List Char) :=
  if '\x00' ∈ path.toList then .error .malformedPath
  else
    match files.destination path with
    | .file text => .ok (Text.unifyLines text.toList)
    | .directory => .error (.directory path)
    | .nowhere => .error (.missingFile path)
    | .beyondFile => .error (.beyondFile path)

/-- Whether a file may be written under a path, whose directories are made if they are missing. -/
def checkTarget (path : String) : Except Fault Unit :=
  if '\x00' ∈ path.toList then .error .malformedPath
  else if Path.fileName path = [] ∨ Path.fileName path = Path.parent then .error (.directory path)
  else .ok ()

/-- The numbers of a value file. -/
def loadValues (path : String) : Except Fault (List Float) := do
  (Text.words (← files.text path)).mapM fun word =>
    match Numeral.real? word with
    | some x => .ok x
    | none => .error .unreadableNumber

/-- The problem of a state file. -/
def loadProblem (path : String) : Except Fault (Problem Float) := do
  Problem.ofText (← files.text path)

/-- What is asked for beside an instance file: values for its cities, as a value or as the path of a
value file, a budget and an encoding. -/
structure Request where
  values : Option Value
  budget : Value
  encoding : Value

/-- A request for no more than the instance itself. -/
def Request.plain : Request := ⟨none, .real 1, .ofString Encoding.cities.key⟩

/-- A problem with its name and the path of its file. -/
structure Loaded where
  name : String
  path : String
  problem : Problem Float

/-- The values that are asked for. -/
def requestedValues (values : Option Value) : Except Fault (Option Value) :=
  match values with
  | some (.text s) =>
    match Text.Symbol.string? s with
    | some path => do return some (.list ((← files.loadValues path).map .real))
    | none => .error .malformedPath
  | values => .ok values

/-- The problem of an instance file. -/
def loadInstance (path : String) (request : Request) : Except Fault Loaded := do
  let data ← Tsplib.Data.ofText (← files.text path)
  let graph ← data.toGraph
  let values ← files.requestedValues request.values
  let ⟨n, N⟩ ← Network.ofGraphValues graph values request.budget
  let e ← Encoding.ofValue request.encoding
  let name := if data.name = "" then Path.stem path else data.name
  return ⟨name, Path.normal path, ⟨n, N, e⟩⟩

/-- The suffix of state files. -/
def stateSuffix : String := ".json"

/-- The problem of a file of either kind, told apart by its suffix. -/
def loadAny (path : String) (request : Request) : Except Fault Loaded := do
  if Path.hasSuffix stateSuffix path then
    return ⟨Path.stem path, Path.normal path, ← files.loadProblem path⟩
  else files.loadInstance path request

end Files

end CityTour
