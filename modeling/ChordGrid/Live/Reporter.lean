import ChordGrid.Fault

namespace ChordGrid.Live

/-- The fault reported last, unless a success came after it, and how many were reported. -/
structure Reporter where
  last : Option Fault := none
  reported : Nat := 0
  deriving DecidableEq, Repr

namespace Reporter

def lastText (reporter : Reporter) : Option String :=
  reporter.last.map Fault.message

def report (reporter : Reporter) (fault : Fault) : Bool × Reporter :=
  if reporter.lastText = some fault.message then (false, reporter)
  else (true, { last := some fault, reported := reporter.reported + 1 })

def clear (reporter : Reporter) : Reporter :=
  { reporter with last := none }

variable (reporter : Reporter) (fault : Fault)

@[simp]
theorem lastText_report : (reporter.report fault).2.lastText = some fault.message := by
  unfold report
  split
  · next hsame => exact hsame
  · rfl

theorem reported_report :
    (reporter.report fault).2.reported
      = reporter.reported + if reporter.lastText = some fault.message then 0 else 1 := by
  unfold report
  split <;> rfl

@[simp]
theorem lastText_clear : reporter.clear.lastText = none := rfl

@[simp]
theorem reported_clear : reporter.clear.reported = reporter.reported := rfl

end Reporter

end ChordGrid.Live
