import ChordGrid.Harmony.Span
import ChordGrid.Resolution

namespace ChordGrid

open Text

structure Measure where
  first : Span
  rest : List Span
  deriving DecidableEq, Repr

namespace Measure

def spans (measure : Measure) : List Span :=
  measure.first :: measure.rest

/-- The beats of the spans in the five supported splits. -/
def splits : List (List Nat) :=
  [[4], [3, 1], [2, 2], [1, 3], [1, 2, 1]]

abbrev Run := List Char × Nat

/-- Folds each blank beat into the chord before it: the run of `chord`, then those after it. -/
def runs (chord : List Char) : List (List Char) → Run × List Run
  | [] => ((chord, 1), [])
  | beat :: beats =>
    if beat.isEmpty then
      let (run, more) := runs chord beats
      ((run.1, run.2 + 1), more)
    else
      let (run, more) := runs beat beats
      ((chord, 1), run :: more)

/-- The beats between the bars. A bar may close the fourth beat as well. -/
def beats (body : List Char) : List (List Char) :=
  let tokens := (pieces (· = '|') body).map trim
  if tokens.length = 5 ∧ tokens.getLast? = some [] then tokens.dropLast else tokens

def ofBeats (body : String) (chord : List Char) (others : List (List Char)) :
    Except Fault Measure := do
  let (run, more) := runs chord others
  let split := run.2 :: more.map Prod.snd
  if split ∉ splits then throw (.unsupportedSplit body split)
  let first ← Span.parse run.2 run.1
  let rest ← more.mapM fun run => Span.parse run.2 run.1
  return ⟨first, rest⟩

def parse (body : List Char) : Except Fault Measure :=
  let tokens := beats body
  if tokens.length ≠ beatsPerMeasure then
    .error (.beatCount (String.ofList body) tokens.length)
  else match tokens with
    | [] => .error (.beatCount (String.ofList body) 0)
    | chord :: others =>
      if chord.isEmpty then .error (.blankDownbeat (String.ofList body))
      else ofBeats (String.ofList body) chord others

end Measure

end ChordGrid
