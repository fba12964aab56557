import ChordGrid.Bits
import ChordGrid.Text.Numeral

/-!
# Arguments

A command line names a job and its options. Options that hold for every job may stand before the
name of the job or after it; the ones after it win.

A value that stands in an argument of its own is read when the next flag or name comes, or at the
end. The name of the job does not count for that: what stands behind it comes first, so a question
for help there is answered whatever the last value before it is.
-/

namespace ChordGrid.CommandLine

open Text

inductive Verb where
  | check
  | export
  | play
  deriving DecidableEq, Repr

inductive Flag where
  | config
  | seed
  | verbose
  | quiet
  | help
  | output
  | fromMeasure
  | noWatch
  deriving DecidableEq, Repr

inductive Topic where
  | program
  | verb (verb : Verb)
  | help
  deriving DecidableEq, Repr

inductive Refusal where
  | unusable
  | askedForHelp (topic : Topic)
  deriving DecidableEq, Repr

def Verb.word : Verb → String
  | .check => "check"
  | .export => "export"
  | .play => "play"

def Verb.all : List Verb :=
  [.check, .export, .play]

def Verb.ofWord? (word : String) : Option Verb :=
  Verb.all.find? fun verb => verb.word = word

namespace Flag

def long : Flag → String
  | config => "config"
  | seed => "seed"
  | verbose => "verbose"
  | quiet => "quiet"
  | help => "help"
  | output => "output"
  | fromMeasure => "from-measure"
  | noWatch => "no-watch"

def short? : Flag → Option Char
  | verbose => some 'v'
  | quiet => some 'q'
  | help => some 'h'
  | output => some 'o'
  | _ => none

def takesValue : Flag → Bool
  | config => true
  | seed => true
  | output => true
  | fromMeasure => true
  | _ => false

def general : List Flag :=
  [config, seed, verbose, quiet, help]

end Flag

def Verb.flags : Verb → List Flag
  | .check => Flag.general
  | .export => .output :: Flag.general
  | .play => .fromMeasure :: .noWatch :: Flag.general

namespace Topic

def flags : Topic → List Flag
  | program => Flag.general
  | verb name => name.flags
  | help => []

def long? (topic : Topic) (name : List Char) : Option Flag :=
  topic.flags.find? fun flag => flag.long.toList = name

def short? (topic : Topic) (letter : Char) : Option Flag :=
  topic.flags.find? fun flag => flag.short? = some letter

end Topic

/-- What was said on one side of the verb. -/
structure Said where
  config : Option String := none
  seed : Option UInt64 := none
  verbosity : Nat := 0
  quiet : Bool := false
  output : Option String := none
  fromMeasure : Option Nat := none
  noWatch : Bool := false
  directory : Option String := none
  /-- The last value in an argument of its own, as long as it is not read, with its flag. -/
  unread : Option (Flag × String) := none
  deriving DecidableEq, Repr

def path? (value : String) : Option String :=
  if value.isEmpty then none else some value

def seed? (value : String) : Option UInt64 :=
  (numeralUpTo? (topOf 64) value.toList).map UInt64.ofNat

/-- A measure of 32 bits, where zero may be written as negative. -/
def measure? (value : String) : Option Nat :=
  match value.toList with
  | '-' :: digit :: digits => (digitsFrom 0 (digit :: digits)).filter (· = 0)
  | text => numeralUpTo? (topOf 32) text

def once {α : Type} (former value : Option α) : Except Refusal (Option α) :=
  match former, value with
  | none, some value => .ok (some value)
  | _, _ => .error .unusable

def switch (former : Bool) : Except Refusal Bool :=
  if former then .error .unusable else .ok true

namespace Said

def mark (topic : Topic) (said : Said) : Flag → Except Refusal Said
  | .verbose => .ok { said with verbosity := said.verbosity + 1 }
  | .quiet => do return { said with quiet := ← switch said.quiet }
  | .noWatch => do return { said with noWatch := ← switch said.noWatch }
  | .help => .error (.askedForHelp topic)
  | _ => .error .unusable

def put (said : Said) (value : String) : Flag → Except Refusal Said
  | .config => do return { said with config := ← once said.config (path? value) }
  | .seed => do return { said with seed := ← once said.seed (seed? value) }
  | .output => do return { said with output := ← once said.output (path? value) }
  | .fromMeasure => do
    return { said with fromMeasure := ← once said.fromMeasure (measure? value) }
  | _ => .error .unusable

def putOff (said : Said) (value : String) (flag : Flag) : Said :=
  { said with unread := some (flag, value) }

def read (said : Said) : Except Refusal Said :=
  match said.unread with
  | none => .ok said
  | some (flag, value) => { said with unread := none }.put value flag

def locate (said : Said) (value : String) : Except Refusal Said := do
  return { said with directory := ← once said.directory (path? value) }

/-- Takes in the letters behind a single dash, and the flag whose value is still to come. The rest
of the letters is the value of a flag that takes one, with or without an equals sign. -/
def cluster (topic : Topic) (said : Said) : List Char → Except Refusal (Said × Option Flag)
  | [] => .ok (said, none)
  | letter :: rest =>
    match topic.short? letter with
    | none => .error .unusable
    | some flag =>
      if flag.takesValue then
        match rest with
        | [] => .ok (said, some flag)
        | '=' :: value => do return (← said.put (String.ofList value) flag, none)
        | value => do return (← said.put (String.ofList value) flag, none)
      else do
        let said ← said.mark topic flag
        said.cluster topic rest

def word (topic : Topic) (said : Said) (text : List Char) : Except Refusal (Said × Option Flag) :=
  let name := text.takeWhile (· ≠ '=')
  match topic.long? name, text.dropWhile (· ≠ '=') with
  | none, _ => .error .unusable
  | some flag, [] =>
    if flag.takesValue then .ok (said, some flag)
    else do return (← said.mark topic flag, none)
  | some flag, _ :: value => do return (← said.put (String.ofList value) flag, none)

end Said

/-- Whether an argument is a flag and not a name: it starts with a dash and goes on. -/
def isFlag (arg : List Char) : Bool :=
  arg.head? = some '-' && arg.length ≠ 1

/-- The flags at the start of some arguments. What follows the flags is left, and so is a double
dash. The value of the last flag may be put off. -/
def flags (topic : Topic) (said : Said) : List String → Except Refusal (Said × List String)
  | [] => .ok (said, [])
  | arg :: rest =>
    match arg.toList with
    | ['-', '-'] => .ok (said, arg :: rest)
    | '-' :: second :: text => do
      let said ← said.read
      let (said, waiting) ←
        if second = '-' then said.word topic text else said.cluster topic (second :: text)
      match waiting with
      | none => flags topic said rest
      | some flag =>
        match rest with
        | [] => .error .unusable
        | value :: others =>
          if isFlag value.toList then .error .unusable
          else flags topic (said.putOff value flag) others
    | _ => .ok (said, arg :: rest)

/-- The flags and names behind a verb. A double dash ends the flags. Every round takes an argument
off, which bounds their number. -/
def operands (topic : Topic) : Nat → Said → List String → Except Refusal Said
  | 0, said, _ => said.read
  | rounds + 1, said, args => do
    let (said, left) ← flags topic said args
    let said ← said.read
    match left with
    | [] => return said
    | "--" :: names => names.foldlM Said.locate said
    | name :: rest => operands topic rounds (← said.locate name) rest

inductive Job where
  | check (directory : String)
  | export (directory output : String)
  | play (directory : String) (fromMeasure : Nat) (watch : Bool)
  deriving DecidableEq, Repr

def Job.directory : Job → String
  | check directory => directory
  | .export directory _ => directory
  | play directory _ _ => directory

structure Invocation where
  job : Job
  config : Option String
  seed : Option UInt64
  quiet : Bool
  deriving DecidableEq, Repr

def usualOutput : String := "output.mid"

def Verb.job (verb : Verb) (said : Said) (directory : String) : Job :=
  match verb with
  | .check => .check directory
  | .export => .export directory (said.output.getD usualOutput)
  | .play => .play directory (said.fromMeasure.getD 0) (!said.noWatch)

def helpTopic : List String → Refusal
  | [] => .askedForHelp .program
  | ["help"] => .askedForHelp .help
  | [word] =>
    match Verb.ofWord? word with
    | some verb => .askedForHelp (.verb verb)
    | none => .unusable
  | _ => .unusable

def Invocation.parse (args : List String) : Except Refusal Invocation := do
  match ← flags .program {} args with
  | (_, []) => throw .unusable
  | (_, "help" :: rest) => throw (helpTopic rest)
  | (before, word :: rest) =>
    match Verb.ofWord? word with
    | none => throw .unusable
    | some verb =>
      let after ← operands (.verb verb) (rest.length + 1) {} rest
      let before ← before.read
      match after.directory with
      | none => throw .unusable
      | some directory =>
        return {
          job := verb.job after directory
          config := after.config <|> before.config
          seed := after.seed <|> before.seed
          quiet := before.quiet || after.quiet }

end ChordGrid.CommandLine
