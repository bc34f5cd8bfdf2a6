import CityTour.Fault
import CityTour.Files
import CityTour.Text

/-! Command lines: the commands and their flags, the words, and what they ask for. -/

namespace CityTour.CommandLine

/-- What the program is asked to do. -/
inductive Verb
  | info
  | evaluate
  | sample
  deriving DecidableEq, Repr

/-- The word for a verb. -/
def Verb.name : Verb → String
  | info => "info"
  | evaluate => "evaluate"
  | sample => "sample"

/-- The verb that a word names. -/
def Verb.ofName? (word : String) : Option Verb :=
  [info, evaluate, sample].find? fun verb => verb.name == word

/-- The settings beside the instance file. -/
inductive Flag
  | values
  | budget
  | encoding
  | tour
  | chromosome
  | samples
  | seed
  | workers
  | device
  | help
  deriving DecidableEq, Repr

namespace Flag

/-- The word for a flag. -/
def name : Flag → String
  | values => "--values"
  | budget => "--max-path-length"
  | encoding => "--encoding"
  | tour => "--tour"
  | chromosome => "--chromosome"
  | samples => "--samples"
  | seed => "--seed"
  | workers => "--workers"
  | device => "--device"
  | help => "--help"

/-- Whether a flag takes all the values behind it, and not one alone. -/
def takesList : Flag → Bool
  | tour | chromosome => true
  | _ => false

end Flag

/-- The flags of a verb. -/
def Verb.flags : Verb → List Flag
  | info => [.help, .values, .budget, .encoding]
  | evaluate => [.help, .values, .budget, .encoding, .tour, .chromosome]
  | sample => [.help, .values, .budget, .encoding, .samples, .seed, .workers, .device]

/-! ### The words of a command line

A word that starts with a dash names a flag, perhaps with a value behind an equals sign, and a
beginning that no other flag has stands for the flag.  A single dash with the letter `h` asks for
help, whatever follows it.  Negative numbers, single dashes and words with blanks are values, and so
is all that follows a pair of dashes. -/

open Text

/-- A word of a command line under the flags of a verb. -/
inductive Token
  | value (text : String)
  /-- A flag, with the value in the same word. -/
  | flag (flag : Flag) (given : Option String)
  /-- A word that looks like a flag and is none. -/
  | stray
  /-- The pair of dashes. -/
  | divider

/-- Whether a word is a dash and a decimal without exponent, perhaps with a line end. -/
def isNegativeNumber : List Char → Bool
  | '-' :: rest =>
    let body := if rest.getLast? = some '\n' then rest.dropLast else rest
    match body.dropWhile isDigit with
    | [] => !body.isEmpty
    | '.' :: fraction => !fraction.isEmpty && fraction.all isDigit
    | _ => false
  | _ => false

/-- What stands before the first equals sign. -/
def flagPart (word : List Char) : List Char := word.takeWhile (· ≠ '=')

/-- What stands behind the first equals sign. -/
def givenPart (word : List Char) : Option String :=
  match word.dropWhile (· ≠ '=') with
  | _ :: given => some (String.ofList given)
  | [] => none

/-- The flags that a word may mean: the one that it names, or else all that it begins. -/
def matchingFlags (flags : List Flag) (word : List Char) : List Flag :=
  match flags.find? fun f => f.name.toList == flagPart word with
  | some f => [f]
  | none =>
    match word with
    | '-' :: '-' :: _ => flags.filter fun f => (flagPart word).isPrefixOf f.name.toList
    | _ => []

/-- The word of the divider. -/
def dividerWord : String := "--"

/-- A word before any divider.  A word that may mean several flags is not understood. -/
def Token.ofWord (flags : List Flag) (word : String) : Except Fault Token :=
  match word.toList with
  | '-' :: 'h' :: _ => .ok (.flag .help none)
  | '-' :: c :: rest =>
    let cs := '-' :: c :: rest
    match matchingFlags flags cs with
    | [f] => .ok (.flag f (givenPart cs))
    | _ :: _ :: _ => .error .misuse
    | [] => .ok (if isNegativeNumber cs || ' ' ∈ cs then .value word else .stray)
  | _ => .ok (.value word)

/-- The tokens of some words. -/
def tokens (flags : List Flag) : List String → Except Fault (List Token)
  | [] => .ok []
  | word :: rest => do
    if word = dividerWord then return .divider :: rest.map .value
    let token ← Token.ofWord flags word
    return token :: (← tokens flags rest)

/-- The values that stand in front. -/
def leadingValues : List Token → List String
  | .value s :: rest => s :: leadingValues rest
  | _ => []

/-! ### Commands and the words they are given by

Every command works on an instance file; flags may stand before and behind its path, and the last of
several equal flags counts.  The divider in the word of a flag stands for an empty list of values,
which every flag accepts and which may fit no use. -/

open Document

/-- An instance file with what is asked for beside it. -/
structure Source where
  path : String
  request : Files.Request

/-- The paths of the files that a source names. -/
def Source.paths (source : Source) : List String :=
  match source.request.values with
  | some (.text s) => source.path :: (Text.Symbol.string? s).toList
  | _ => [source.path]

/-- What is to be evaluated. -/
inductive Candidate
  | tour (stops : List Int)
  | chromosome (entries : List Float)

/-- How many tours are sampled, from which seed, and by how many workers they are evaluated; `none`
where a flag was given without a value. -/
structure Sampling where
  samples : Option Int
  seed : Option Int
  workers : Option Int

/-- A command with all its settings. -/
inductive Command
  | info (source : Source)
  | evaluate (source : Source) (candidate : Candidate)
  | sample (source : Source) (plan : Sampling)

/-- The instance file of a command. -/
def Command.source : Command → Source
  | info source | evaluate source _ | sample source _ => source

/-- The settings that have been read so far.  `surplus` tells of words that have no place. -/
structure Settings where
  path : Option String
  request : Files.Request
  candidate : Option Candidate
  plan : Sampling
  surplus : Bool

namespace Settings

/-- The settings before any word is read. -/
def initial : Settings := ⟨none, .plain, none, ⟨some 100, some 123, some 4⟩, false⟩

/-- A numeral that must be an integer. -/
def integer (text : String) : Except Fault Int :=
  match Numeral.integer? text.toList with
  | some i => .ok i
  | none => .error .misuse

/-- A numeral that must be a real number. -/
def real (text : String) : Except Fault Float :=
  match Numeral.real? text.toList with
  | some x => .ok x
  | none => .error .misuse

/-- The name of an encoding, spelled exactly. -/
def encodingKey (text : String) : Except Fault String :=
  if Encoding.all.any fun e => e.key == text then .ok text else .error .misuse

/-- The value of a flag that is given without one. -/
def noValue : Value := .list []

variable (settings : Settings)

/-- The settings with something to evaluate, which is either a tour or a chromosome. -/
def setCandidate (new : Candidate) : Except Fault Settings :=
  match settings.candidate, new with
  | some (.tour _), .chromosome _ | some (.chromosome _), .tour _ => .error .misuse
  | _, new => .ok { settings with candidate := some new }

/-- The settings with the values of a flag, of which most flags use but one.  The device is not
used, and help is not a setting. -/
def set (flag : Flag) (texts : List String) : Except Fault Settings := do
  match flag with
  | .values =>
    return { settings with request.values := some (texts.head?.elim noValue Value.ofString) }
  | .budget =>
    return { settings with request.budget := (← texts.head?.mapM real).elim noValue .real }
  | .encoding =>
    let key ← texts.head?.mapM encodingKey
    return { settings with request.encoding := key.elim noValue Value.ofString }
  | .tour => settings.setCandidate (.tour (← texts.mapM integer))
  | .chromosome => settings.setCandidate (.chromosome (← texts.mapM real))
  | .samples => return { settings with plan.samples := ← texts.head?.mapM integer }
  | .seed => return { settings with plan.seed := ← texts.head?.mapM integer }
  | .workers => return { settings with plan.workers := ← texts.head?.mapM integer }
  | .device => return settings
  | .help => throw .misuse

/-- The values of a flag: those in its own word, where the divider stands for none, or else those
that follow, of which most flags take but one.  Some value has to follow. -/
def operands (flag : Flag) (given : Option String) (rest : List Token) :
    Except Fault (List String) :=
  match given with
  | some text => .ok (if text = dividerWord then [] else [text])
  | none =>
    match leadingValues rest with
    | [] => .error .misuse
    | first :: more => .ok (if flag.takesList then first :: more else [first])

/-- The settings after some tokens.  The divider may stand at either side of the path. -/
def read (settings : Settings) (words : List Token) : Except Fault Settings :=
  match settings.path, words with
  | _, [] => .ok settings
  | _, .flag flag given :: rest => do
    let texts ← operands flag given rest
    let used := if given.isSome then 0 else texts.length
    read (← settings.set flag texts) (rest.drop used)
  | none, .value path :: .divider :: rest | none, .divider :: .value path :: rest
  | none, .value path :: rest => read { settings with path := some path } rest
  | _, _ :: rest => read { settings with surplus := true } rest
termination_by words.length
decreasing_by all_goals (simp only [wfParam, List.length_cons, List.length_drop]; omega)

/-- The command of a verb under some settings. -/
def command (verb : Verb) : Except Fault Command :=
  match settings.path, settings.surplus with
  | some path, false =>
    let source : Source := ⟨path, settings.request⟩
    match verb, settings.candidate with
    | .info, _ => .ok (.info source)
    | .evaluate, some candidate => .ok (.evaluate source candidate)
    | .evaluate, none => .error .misuse
    | .sample, _ => .ok (.sample source settings.plan)
  | _, _ => .error .misuse

end Settings

/-- The command of the words from the verb on.  A word in front of it that looks like a flag has no
place, but the words behind the verb are read before that matters. -/
def Command.ofWordsAfter (settings : Settings) : List String → Except Fault Command
  | [] => .error .misuse
  | word :: words =>
    match Verb.ofName? word, Token.ofWord [.help] word with
    | some verb, _ => do
      let settings ← settings.read (← tokens verb.flags words)
      settings.command verb
    | none, .ok .stray => ofWordsAfter { settings with surplus := true } words
    | none, _ => .error .misuse

/-- The command that some words stand for. -/
def Command.ofWords (words : List String) : Except Fault Command :=
  ofWordsAfter Settings.initial words

end CityTour.CommandLine
