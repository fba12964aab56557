import ChordGrid.Live.Desk

namespace ChordGrid.Live

def Stage.isDone : Stage → Bool
  | .done _ => true
  | _ => false

def Stage.isFetch : Stage → Bool
  | .fetch => true
  | _ => false

namespace Desk

/-- The longest way of a caller's thread from its call to its end. -/
def callLength : Nat := 7

/-- A worker settles at most the request it holds and the one that is pending, in fewer steps than
this, as long as nobody calls. -/
def workLength : Nat := 24

/-- Runs the thread of a new call to its end, and no other thread meanwhile: what the call learns,
and the desk after it. -/
def call (desk : Desk) (call : Call) : Option Bool × Desk :=
  let after := (desk.enter call).steps desk.threads.length callLength
  match after.threads[desk.threads.length]? with
  | some (.done published) => (published, after)
  | _ => (none, after)

/-- Rebuilds from a score at once: whether it was published, and the desk after it. -/
def rebuild (desk : Desk) (score : Score) : Bool × Desk :=
  let (published, after) := desk.call (.rebuild (.score score))
  (published.getD false, after)

def queue (desk : Desk) (load : Load) : Desk :=
  (desk.call (.request load)).2

def drain : Nat → Desk → Desk
  | 0, desk => desk
  | count + 1, desk =>
    match desk.threads.findIdx? fun stage => !stage.isDone with
    | some thread => drain count (desk.step true thread)
    | none => desk

def untilIdle (desk : Desk) : Desk :=
  drain workLength desk

def request (desk : Desk) (load : Load) : Desk :=
  (desk.queue load).untilIdle

/-- Leaves a request and waits until a worker has begun to load it, or is at work on another. -/
def hold (desk : Desk) (load : Load) : Desk :=
  let desk := desk.queue load
  match desk.threads.findIdx? Stage.isFetch with
  | some thread => desk.step true thread
  | none => desk

end Desk

end ChordGrid.Live
