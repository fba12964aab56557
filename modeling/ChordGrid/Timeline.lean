import ChordGrid.Harmony.Pattern

namespace ChordGrid

structure Occurrence where
  pattern : Pattern
  start : Nat
  deriving DecidableEq, Repr

structure Timeline where
  tonality : Tonality
  resolution : Resolution
  occurrences : List Occurrence
  length : Nat
  deriving DecidableEq, Repr

namespace Timeline

/-- The patterns one after the other, the first of them at `start`. -/
def place (r : Resolution) (start : Nat) : List Pattern → List Occurrence
  | [] => []
  | pattern :: rest => ⟨pattern, start⟩ :: place r (start + r.ofBeats pattern.beatCount) rest

def totalLength (r : Resolution) : List Pattern → Nat
  | [] => 0
  | pattern :: rest => r.ofBeats pattern.beatCount + totalLength r rest

def ofPatterns (tonality : Tonality) (r : Resolution) (patterns : List Pattern) : Timeline :=
  { tonality
    resolution := r
    occurrences := place r 0 patterns
    length := totalLength r patterns }

/-- The timeline of patterns called by name; the first name that no pattern has is refused. -/
def arrange (tonality : Tonality) (r : Resolution) (patterns : List Pattern)
    (names : List String) : Except Fault Timeline := do
  let called ← names.mapM fun name =>
    match Pattern.find? patterns name with
    | some pattern => .ok pattern
    | none => .error (.unknownPattern name)
  return ofPatterns tonality r called

def startingFrom (timeline : Timeline) (tick : Nat) : List Occurrence :=
  timeline.occurrences.filter fun occurrence => tick ≤ occurrence.start

theorem startingFrom_zero (timeline : Timeline) :
    timeline.startingFrom 0 = timeline.occurrences :=
  List.filter_eq_self.mpr fun occurrence _ => decide_eq_true (Nat.zero_le occurrence.start)

end Timeline

end ChordGrid
