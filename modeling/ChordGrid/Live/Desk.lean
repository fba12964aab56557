import ChordGrid.Live.Reporter
import ChordGrid.Score.Compile

/-!
# The desk

The desk holds the edition that is played and takes in new scores while it plays. Callers either
rebuild at once or leave a request, of which only the latest is kept, to a worker that lives as
long as there are requests. Every call takes a new generation, and a result counts only while its
generation is the newest.

Threads take turns in any order. One step of a thread reads or writes one shared thing, or takes or
drops the lock of the reporter, so a run of the desk is a list of steps.
-/

namespace ChordGrid.Live

/-- An edition as it is published. Each one gets a new serial number, even if it says the same as
the one before. -/
structure Publication where
  serial : Nat
  edition : Edition
  deriving DecidableEq, Repr

/-- What comes of loading a score. A loader that breaks down may leave a text. -/
inductive Load where
  | score (score : Score)
  | failure (fault : Fault)
  | crash (text : Option String)
  deriving DecidableEq, Repr

def Load.compile (settings : Settings) : Load → Except Fault Edition
  | .score given => Edition.compile given settings
  | .failure fault => .error fault
  | .crash text => .error (.aborted (text.getD "panic while rebuilding"))

structure Request where
  generation : Nat
  load : Load
  deriving DecidableEq, Repr

inductive Call where
  /-- Leaves it to a worker. -/
  | request (load : Load)
  /-- Rebuilds on the caller's own thread. -/
  | rebuild (load : Load)
  deriving DecidableEq, Repr

inductive Builder where
  | worker
  | caller
  deriving DecidableEq, Repr

structure Build where
  generation : Nat
  result : Except Fault Edition
  builder : Builder

inductive Stage where
  /-- Takes a new generation. -/
  | announce (call : Call)
  /-- Puts the request into the pending slot. -/
  | post (request : Request)
  /-- Raises the running flag, and is done if it was up. -/
  | enlist
  /-- Starts a worker, or becomes one. -/
  | hire
  /-- Takes the pending request. -/
  | fetch
  /-- Loads and compiles, which touches nothing shared. -/
  | compile (request : Request) (builder : Builder)
  /-- Waits for the lock of the reporter. -/
  | lock (build : Build)
  /-- Compares the generation of the build with the newest one. -/
  | compare (build : Build)
  /-- Publishes the edition of a generation. -/
  | publish (generation : Nat) (edition : Edition) (builder : Builder)
  /-- Makes the reporter forget the last fault, now that a generation is published. -/
  | clear (generation : Nat) (builder : Builder)
  /-- Reports the fault of a generation. -/
  | report (generation : Nat) (fault : Fault) (builder : Builder)
  /-- Drops the lock. -/
  | unlock (published : Bool) (builder : Builder)
  /-- Lowers the running flag. -/
  | retire
  /-- Looks into the pending slot once more. -/
  | recheck
  /-- Raises the running flag again, and leaves the request to another worker if it was up. -/
  | reenlist
  /-- Is done. A caller that rebuilt knows whether it published. -/
  | done (published : Option Bool)

/-- The desk with all its threads, those that are done among them. -/
structure Desk where
  settings : Settings
  generation : Nat
  pending : Option Request
  running : Bool
  /-- The thread that holds the lock of the reporter. -/
  holder : Option Nat
  reporter : Reporter
  valid : Publication
  threads : List Stage

namespace Desk

/-- The desk of a first score, whose faults are the caller's. -/
def load (score : Score) (settings : Settings) : Except Fault Desk := do
  let edition ← Edition.compile score settings
  return {
    settings
    generation := 0
    pending := none
    running := false
    holder := none
    reporter := {}
    valid := ⟨0, edition⟩
    threads := [] }

def enter (desk : Desk) (call : Call) : Desk :=
  { desk with threads := desk.threads ++ [.announce call] }

def put (desk : Desk) (thread : Nat) (stage : Stage) : Desk :=
  { desk with threads := desk.threads.set thread stage }

def afterBuild (published : Bool) : Builder → Stage
  | .worker => .fetch
  | .caller => .done (some published)

def verdict (build : Build) : Stage :=
  match build.result with
  | .ok edition => .publish build.generation edition build.builder
  | .error fault => .report build.generation fault build.builder

/-- One step of a thread from its stage. `spawns` tells whether a new thread can be started; if
not, the caller does the work of the worker itself. -/
def stepFrom (spawns : Bool) (desk : Desk) (thread : Nat) : Stage → Desk
  | .announce call =>
    let generation := desk.generation + 1
    let next : Stage := match call with
      | .request load => .post ⟨generation, load⟩
      | .rebuild load => .compile ⟨generation, load⟩ .caller
    { desk with generation }.put thread next
  | .post request => { desk with pending := some request }.put thread .enlist
  | .enlist =>
    { desk with running := true }.put thread (if desk.running then .done none else .hire)
  | .hire =>
    if spawns then
      let desk := desk.put thread (.done none)
      { desk with threads := desk.threads ++ [.fetch] }
    else desk.put thread .fetch
  | .fetch =>
    match desk.pending with
    | some request => { desk with pending := none }.put thread (.compile request .worker)
    | none => desk.put thread .retire
  | .compile request builder =>
    desk.put thread (.lock ⟨request.generation, request.load.compile desk.settings, builder⟩)
  | .lock build =>
    match desk.holder with
    | some _ => desk
    | none => { desk with holder := some thread }.put thread (.compare build)
  | .compare build =>
    desk.put thread
      (if build.generation = desk.generation then verdict build else .unlock false build.builder)
  | .publish generation edition builder =>
    { desk with valid := ⟨desk.valid.serial + 1, edition⟩ }.put thread (.clear generation builder)
  | .clear _ builder =>
    { desk with reporter := desk.reporter.clear }.put thread (.unlock true builder)
  | .report _ fault builder =>
    { desk with reporter := (desk.reporter.report fault).2 }.put thread (.unlock false builder)
  | .unlock published builder =>
    { desk with holder := none }.put thread (afterBuild published builder)
  | .retire => { desk with running := false }.put thread .recheck
  | .recheck => desk.put thread (if desk.pending.isNone then .done none else .reenlist)
  | .reenlist =>
    { desk with running := true }.put thread (if desk.running then .done none else .fetch)
  | .done _ => desk

/-- One step of a thread. A thread that is done or waits for the lock changes nothing. -/
def step (spawns : Bool) (desk : Desk) (thread : Nat) : Desk :=
  match desk.threads[thread]? with
  | some stage => desk.stepFrom spawns thread stage
  | none => desk

def steps (desk : Desk) (thread : Nat) : Nat → Desk
  | 0 => desk
  | count + 1 => (desk.step true thread).steps thread count

end Desk

end ChordGrid.Live
