import CityTour.CommandLine.Command
import CityTour.Problem.Basic
import CityTour.Problem.State

/-! Runs of the program.  A session is what a run prints and the fault that ends it, if any; it
depends on nothing but the words, the files and the tours that are drawn.  The time of day and the
time that the work took enter when the lines are rendered. -/

namespace CityTour.CommandLine

open Document

/-- A line of output. -/
inductive Line
  | text (text : String)
  /-- So many tours through so many cities are about to be evaluated. -/
  | started (tours cities : Nat)
  /-- The tours are evaluated. -/
  | finished (summary : Summary)

/-- The six digits that reports give to a number, at most. -/
def brief (x : Float) : String := String.ofList (Written.brief x)

/-- The text of a line, under the time of day and the time that the work took. -/
def Line.render (time elapsed : String) : Line → String
  | text s => s
  | started tours cities =>
    "[" ++ time ++ "] evaluating " ++ toString tours ++ " random tours on " ++ toString cities ++
      " cities"
  | finished s =>
    "[" ++ time ++ "] done in " ++ elapsed ++ ": best=" ++ brief s.best ++ " mean=" ++
      brief s.mean ++ " feasible=" ++ String.ofList (Written.percent s.feasible)

/-- What a run prints, and the fault that ends it, if any. -/
structure Session where
  lines : List Line
  fault : Option Fault

namespace Session

/-- The session that prints some lines if there are any to print. -/
def ofLines : Except Fault (List Line) → Session
  | .ok lines => ⟨lines, none⟩
  | .error fault => ⟨[], some fault⟩

/-- A session that begins with some more lines. -/
def after (lines : List Line) (s : Session) : Session := ⟨lines ++ s.lines, s.fault⟩

/-- What is printed, line by line. -/
def output (s : Session) (time elapsed : String) : String :=
  String.join (s.lines.map fun line => line.render time elapsed ++ "\n")

/-- The status that a run leaves. -/
def status (s : Session) : Nat :=
  match s.fault with
  | none => 0
  | some .misuse | some (.refused _) => 2
  | some _ => 1

end Session

/-- The tours to draw: from a seed, through so many cities, the one at a place. -/
abbrev Draws := Int → Nat → Nat → List Int

/-- The problem of an instance file. -/
def Source.load (source : Source) (files : Files) : Except Fault (Problem Float) :=
  (files.loadAny source.path source.request).map (·.problem)

/-- The chromosome to evaluate. -/
def Candidate.entries (p : Problem Float) : Candidate → Except Fault (List Float)
  | tour stops => p.encode stops
  | chromosome entries => .ok entries

/-- The report on a chromosome and its score. -/
def scoreLines (p : Problem Float) (x : List Float) (s : Score Float) :
    Except Fault (List Line) := do
  let tour ← p.decode x
  let constraints ← p.constraints x
  return [.text ("tour: " ++ displayInts tour),
    .text ("best window: start=" ++ toString s.start ++ " end=" ++ toString s.stop ++ " value=" ++
      brief s.value ++ " saved_length=" ++ brief s.saved),
    .text ("tour length: " ++ brief s.length),
    .text ("fitness: " ++ brief s.fitness),
    .text ("constraints: " ++ displayReals constraints),
    .text ("feasible: " ++ String.ofList (display (.bool s.feasible)))]

/-- A number that a flag must have been given with. -/
def needed : Option Int → Except Fault Int
  | some i => .ok i
  | none => .error .notANumber

/-- The report on sampled chromosomes: their summary, and the first of the best of them. -/
def sampleLines (p : Problem Float) (workers : Option Int) (xs : List (List Float)) :
    Except Fault (List Line) := do
  let scores ← p.evaluateAll (← needed workers) xs
  let report ← match xs.zip scores with
    | [] => pure []
    | first :: later =>
      let (x, s) := firstLeast (fun entry => entry.2.fitness) first later
      scoreLines p x s
  return .finished (Summary.ofScores scores) :: report

/-- A problem and some chromosomes of it to evaluate.  Without a seed they are drawn as from zero.
-/
def Sampling.draw (plan : Sampling) (source : Source) (files : Files) (draws : Draws) :
    Except Fault (Problem Float × List (List Float)) := do
  let count ← needed plan.samples
  if count < 1 then refuse .noSamples
  else
    let p ← source.load files
    return (p, ← p.sample (draws (plan.seed.getD 0) p.size) 0 count.toNat)

/-- The session of a command. -/
def Command.run (files : Files) (draws : Draws) : Command → Session
  | info source => .ofLines do return [.text (← source.load files).description]
  | evaluate source candidate => .ofLines do
    let p ← source.load files
    let x ← candidate.entries p
    scoreLines p x (← p.evaluate x)
  | sample source plan =>
    match plan.draw source files draws with
    | .error fault => ⟨[], some fault⟩
    | .ok (p, xs) =>
      (Session.ofLines (sampleLines p plan.workers xs)).after [.started xs.length p.size]

/-- The session of some words. -/
def run (files : Files) (draws : Draws) (words : List String) : Session :=
  match Command.ofWords words with
  | .ok command => command.run files draws
  | .error fault => ⟨[], some fault⟩

end CityTour.CommandLine
