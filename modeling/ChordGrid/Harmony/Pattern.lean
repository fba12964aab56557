import ChordGrid.Harmony.Measure

namespace ChordGrid

open Text

structure Pattern where
  name : String
  first : Measure
  rest : List Measure
  deriving DecidableEq, Repr

mutual

/-- The bracketed bodies of a text that starts outside of brackets; none if the brackets do not
pair up or anything but white space stands outside of them. -/
def bodiesOutside : List Char → Option (List (List Char))
  | [] => some []
  | c :: rest =>
    if c = '[' then (bodiesInside rest).map fun found => found.1 :: found.2
    else if isBlank c then bodiesOutside rest
    else none

def bodiesInside : List Char → Option (List Char × List (List Char))
  | [] => none
  | c :: rest =>
    if c = ']' then (bodiesOutside rest).map fun found => ([], found)
    else if c = '[' then none
    else (bodiesInside rest).map fun found => (c :: found.1, found.2)

end

namespace Pattern

def isBracket (c : Char) : Bool :=
  c = '[' || c = ']'

def bodies (text : List Char) : Except Fault (List (List Char)) :=
  if text.any isBracket then
    match bodiesOutside text with
    | some found => .ok found
    | none => .error (.unbalancedBrackets (String.ofList text))
  else .ok (if allBlank text then [] else [text])

def parse (name text : String) : Except Fault Pattern := do
  let found ← bodies text.toList
  match ← found.mapM Measure.parse with
  | [] => throw (.emptyPattern name)
  | first :: rest => return ⟨name, first, rest⟩

def measures (pattern : Pattern) : List Measure :=
  pattern.first :: pattern.rest

def spans (pattern : Pattern) : List Span :=
  pattern.measures.flatMap Measure.spans

def beatCount (pattern : Pattern) : Nat :=
  pattern.measures.length * beatsPerMeasure

def cellCount (pattern : Pattern) : Nat :=
  pattern.beatCount * cellsPerBeat

def opening (pattern : Pattern) : Span :=
  pattern.first.first

/-- The span that holds a beat, counted from zero; past the end it is the last one. -/
def spanAt (pattern : Pattern) (beat : Nat) : Span :=
  Span.holding pattern.opening pattern.spans beat

def closing (pattern : Pattern) : Span :=
  pattern.spanAt (pattern.beatCount - 1)

def spanOfCell (pattern : Pattern) (cell : Nat) : Span :=
  pattern.spanAt (cell / cellsPerBeat)

/-- The pattern of a name; of several with one name the last one counts. -/
def find? (patterns : List Pattern) (name : String) : Option Pattern :=
  patterns.reverse.find? fun pattern => pattern.name = name

end Pattern

end ChordGrid
