import Std.Time.Zoned
import CityTour.CommandLine.Session

/-! The program, and the random tours that it draws.  A tour through one more city is drawn by
putting the new city at a random place of a random tour, so all tours are equally likely.
`randomTour_perm`: the result visits each city once. -/

namespace CityTour

/-- A tour through the first `n` cities in random order, and the generator afterwards. -/
def randomTour (g : StdGen) : Nat → List Nat × StdGen
  | 0 => ([], g)
  | n + 1 =>
    let (tour, g) := randomTour g n
    let (place, g) := randNat g 0 n
    (tour.take place ++ n :: tour.drop place, g)

/-- A random tour visits each city once. -/
theorem randomTour_perm (g : StdGen) (n : Nat) : (randomTour g n).1.Perm (List.range n) := by
  induction n with
  | zero => exact .refl _
  | succ n ih =>
    simp only [randomTour, List.range_succ]
    refine List.perm_middle.trans (.trans ?_ (List.perm_append_singleton n _).symm)
    rw [List.take_append_drop]
    exact ih.cons n

/-- The tour at a place of the sequence that belongs to a seed. -/
def seededTour (seed : Int) (n place : Nat) : List Int :=
  (randomTour (mkStdGen (hash (seed, place)).toNat) n).1.map Int.ofNat

end CityTour

/-! ### The program

It reads the files that a command names, runs the command, and prints its session with the time of
day and the time that the work took. -/

namespace CityTour.CommandLine

/-- How the program is called. -/
def usage : String :=
  "usage: citytour info FILE [--values FILE] [--max-path-length X] [--encoding NAME]\n" ++
  "       citytour evaluate FILE (--tour CITY... | --chromosome X...)\n" ++
  "       citytour sample FILE [--samples N] [--seed N] [--workers N]\n"

/-- What is said of the fault that ends a session. -/
def Session.complaint (s : Session) : String :=
  match s.fault with
  | none => ""
  | some .misuse => usage
  | some (.refused reason) => "error: " ++ reason.message ++ "\n"
  | some (.missingFile path) => "no file " ++ path ++ "\n"
  | some _ => "no answer\n"

/-- The files that a command names, as far as they can be read. -/
def readFiles (words : List String) : IO Files := do
  match Command.ofWords words with
  | .error _ => return []
  | .ok command =>
    command.source.paths.filterMapM fun (path : String) =>
      try return some (path, ← IO.FS.readFile path) catch _ => return none

/-- The time of day. -/
def timeOfDay : IO String := do
  let now ← Std.Time.PlainTime.now
  let part (n : Int) : String := if n < 10 then "0" ++ toString n else toString n
  return part now.hour.val ++ ":" ++ part now.minute.val ++ ":" ++ part now.second.val

/-- A count of milliseconds in seconds. -/
def inSeconds (milliseconds : Nat) : String :=
  String.ofList (Written.places 2 (Double.ofInt milliseconds / 1000)) ++ "s"

/-- Runs the words of a command line. -/
def runProgram (words : List String) : IO UInt32 := do
  let start ← IO.monoMsNow
  let session := run (← readFiles words) seededTour words
  for line in session.lines do
    IO.println (line.render (← timeOfDay) (inSeconds ((← IO.monoMsNow) - start)))
  IO.eprint session.complaint
  return session.status.toUInt32

end CityTour.CommandLine

/-- The entry point. -/
def main (words : List String) : IO UInt32 := CityTour.CommandLine.runProgram words
