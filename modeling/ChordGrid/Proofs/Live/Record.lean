import ChordGrid.Live.Calls
import Mathlib.Data.List.Induction

/-!
# Records of a desk

A desk at work is a list of moves: calls come in and threads take steps, in any order. What a run
has done is kept beside the desk as a list of deeds, so that a property of a whole run is a property
of the record it leaves. The deeds follow a generation on its way: it is announced, its request is
posted into the slot, its build is upheld or dismissed under the lock, and an upheld build is
published or reported.

The lemmas here say what one step does to each field of the desk. Everything that holds of all runs
is an invariant of records and is shown by adding one move at the end.
-/

namespace ChordGrid.Live

/-- What may happen to a desk next. Where a step would start a thread, `spawns` tells whether it
can. -/
inductive Move where
  | enter (call : Call)
  | step (spawns : Bool) (thread : Nat)

def Call.load : Call → Load
  | request load => load
  | rebuild load => load

/-- What a step gets done, as far as a generation is concerned. -/
inductive Deed where
  /-- A call has taken a generation for its load. -/
  | announced (request : Request)
  /-- A request has been put into the slot, in place of the one that was there. -/
  | posted (request : Request) (replaced : Option Request)
  /-- A build has been found to be the newest. -/
  | upheld (generation : Nat)
  /-- A build has been found to be superseded. -/
  | dismissed (generation : Nat)
  | published (generation : Nat) (edition : Edition)
  | reported (generation : Nat) (fault : Fault)
  deriving DecidableEq

namespace Desk

def deed (desk : Desk) : Stage → Option Deed
  | .announce call => some (.announced ⟨desk.generation + 1, call.load⟩)
  | .post request => some (.posted request desk.pending)
  | .compare build =>
    some (if build.generation = desk.generation then .upheld build.generation
      else .dismissed build.generation)
  | .publish generation edition _ => some (.published generation edition)
  | .report generation fault _ => some (.reported generation fault)
  | _ => none

end Desk

/-- A desk and what has been done on it, the first deed first. -/
structure Record where
  desk : Desk
  deeds : List Deed

namespace Record

def take (record : Record) : Move → Record
  | .enter call => { record with desk := record.desk.enter call }
  | .step spawns thread =>
    { desk := record.desk.step spawns thread
      deeds := record.deeds ++ (record.desk.threads[thread]?.bind record.desk.deed).toList }

theorem take_step {record : Record} {thread : Nat} {stage : Stage}
    (hstage : record.desk.threads[thread]? = some stage) (spawns : Bool) :
    record.take (.step spawns thread)
      = ⟨record.desk.stepFrom spawns thread stage,
          record.deeds ++ (record.desk.deed stage).toList⟩ := by
  simp only [take, Desk.step, hstage, Option.bind_some]

theorem take_step_of_none {record : Record} {thread : Nat}
    (hstage : record.desk.threads[thread]? = none) (spawns : Bool) :
    record.take (.step spawns thread) = record := by
  simp [take, Desk.step, hstage]

end Record

namespace Desk

def record (desk : Desk) (moves : List Move) : Record :=
  moves.foldl Record.take ⟨desk, []⟩

theorem record_concat (desk : Desk) (moves : List Move) (move : Move) :
    desk.record (moves ++ [move]) = (desk.record moves).take move := by
  simp [record]

/-- A desk on which nothing has happened yet. -/
def fresh (settings : Settings) (edition : Edition) : Desk where
  settings := settings
  generation := 0
  pending := none
  running := false
  holder := none
  reporter := {}
  valid := ⟨0, edition⟩
  threads := []

theorem load_eq_ok_iff {score : Score} {settings : Settings} {desk : Desk} :
    Desk.load score settings = .ok desk ↔
      ∃ edition, Edition.compile score settings = .ok edition ∧ desk = fresh settings edition := by
  unfold Desk.load
  cases Edition.compile score settings with
  | error fault => simp [bind, Except.bind]
  | ok edition =>
      simp only [bind, Except.bind, pure, Except.pure, Except.ok.injEq, exists_eq_left']
      exact eq_comm

end Desk

def sketch (tempo : Nat) : Score where
  song := { name := "", tempo := some tempo, key := "C", mode := "Ion", order := [] }
  patterns := []
  phrases := []
  parts := []
  faders := []

theorem load_sketch :
    Desk.load (sketch 100) {} = .ok (Desk.fresh {} { roll := ⟨[]⟩, tempo := 100, length := 0 }) :=
  Desk.load_eq_ok_iff.mpr ⟨_, by decide +kernel, rfl⟩

/-- The records that runs leave, built up one effective move at a time. An invariant of records is
shown by induction on this. -/
inductive Record.Reached (settings : Settings) (edition : Edition) : Record → Prop where
  | fresh : Reached settings edition ⟨Desk.fresh settings edition, []⟩
  | enter {record : Record} (call : Call) (hrecord : Reached settings edition record) :
      Reached settings edition ⟨record.desk.enter call, record.deeds⟩
  | step {record : Record} {thread : Nat} {stage : Stage} (spawns : Bool)
      (hrecord : Reached settings edition record)
      (hstage : record.desk.threads[thread]? = some stage) :
      Reached settings edition ⟨record.desk.stepFrom spawns thread stage,
        record.deeds ++ (record.desk.deed stage).toList⟩

theorem reached_record (settings : Settings) (edition : Edition) (moves : List Move) :
    ((Desk.fresh settings edition).record moves).Reached settings edition := by
  induction moves using List.reverseRecOn with
  | nil => exact .fresh
  | append_singleton moves move ih =>
      rw [Desk.record_concat]
      cases move with
      | enter call => exact .enter call ih
      | step spawns thread =>
          cases hstage : ((Desk.fresh settings edition).record moves).desk.threads[thread]? with
          | none =>
              rw [Record.take_step_of_none hstage]
              exact ih
          | some stage =>
              rw [Record.take_step hstage]
              exact .step spawns ih hstage

theorem mem_filterMap_deeds {α : Type} {select : Deed → Option α} {deed : α → Deed}
    (hselect : ∀ other a, select other = some a ↔ other = deed a) {deeds : List Deed} {a : α} :
    a ∈ deeds.filterMap select ↔ deed a ∈ deeds := by
  simp only [List.mem_filterMap, hselect, exists_eq_right]

/-! ### One step, field by field -/

namespace Stage

/-- The stage that a thread goes on to. -/
def next (spawns : Bool) (desk : Desk) : Stage → Stage
  | announce (.request load) => post ⟨desk.generation + 1, load⟩
  | announce (.rebuild load) => compile ⟨desk.generation + 1, load⟩ .caller
  | post _ => enlist
  | enlist => if desk.running then done none else hire
  | hire => if spawns then done none else fetch
  | fetch =>
    match desk.pending with
    | some request => compile request .worker
    | none => retire
  | compile request builder =>
    lock ⟨request.generation, request.load.compile desk.settings, builder⟩
  | lock build => if desk.holder.isSome then lock build else compare build
  | compare build =>
    if build.generation = desk.generation then Desk.verdict build else unlock false build.builder
  | publish generation _ builder => clear generation builder
  | clear _ builder => unlock true builder
  | report _ _ builder => unlock false builder
  | unlock published builder => Desk.afterBuild published builder
  | retire => recheck
  | recheck => if desk.pending.isNone then done none else reenlist
  | reenlist => if desk.running then done none else fetch
  | done published => done published

def hires (spawns : Bool) : Stage → List Stage
  | hire => if spawns then [fetch] else []
  | _ => []

end Stage

namespace Desk

variable {desk : Desk} {thread : Nat} {stage : Stage}

theorem getElem?_threads_enter {call : Call} {found : Stage}
    (hfound : (desk.enter call).threads[thread]? = some found) :
    desk.threads[thread]? = some found ∨ found = .announce call := by
  rw [enter, List.getElem?_append] at hfound
  split at hfound
  · exact Or.inl hfound
  · exact Or.inr (List.mem_singleton.mp (List.mem_of_getElem? hfound))

theorem threads_stepFrom (hstage : desk.threads[thread]? = some stage) (spawns : Bool) :
    (desk.stepFrom spawns thread stage).threads
      = desk.threads.set thread (stage.next spawns desk) ++ stage.hires spawns := by
  have hsame : desk.threads.set thread stage = desk.threads := by
    obtain ⟨hlt, rfl⟩ := List.getElem?_eq_some_iff.mp hstage
    exact List.set_getElem_self hlt
  cases stage with
  | announce call => cases call <;> simp [stepFrom, put, Stage.next, Stage.hires]
  | hire => cases spawns <;> simp [stepFrom, put, Stage.next, Stage.hires]
  | fetch =>
      cases hpending : desk.pending <;> simp [stepFrom, put, Stage.next, Stage.hires, hpending]
  | lock build =>
      cases hholder : desk.holder <;> simp [stepFrom, put, Stage.next, Stage.hires, hholder, hsame]
  | done published => simp [stepFrom, Stage.next, Stage.hires, hsame]
  | _ => simp [stepFrom, put, Stage.next, Stage.hires]

theorem getElem?_threads_stepFrom (hstage : desk.threads[thread]? = some stage) {spawns : Bool}
    {other : Nat} {found : Stage}
    (hfound : (desk.stepFrom spawns thread stage).threads[other]? = some found) :
    (other = thread ∧ found = stage.next spawns desk)
      ∨ (other ≠ thread ∧ desk.threads[other]? = some found) ∨ found = .fetch := by
  rw [threads_stepFrom hstage, List.getElem?_append] at hfound
  split at hfound
  · by_cases hother : other = thread
    · subst hother
      rw [List.getElem?_set_self (List.getElem?_eq_some_iff.mp hstage).1] at hfound
      exact Or.inl ⟨rfl, (Option.some.inj hfound).symm⟩
    · rw [List.getElem?_set_ne (Ne.symm hother)] at hfound
      exact Or.inr (Or.inl ⟨hother, hfound⟩)
  · have hmem := List.mem_of_getElem? hfound
    cases stage <;> cases spawns <;> simp [Stage.hires] at hmem
    exact Or.inr (Or.inr hmem)

theorem next_mem_threads_stepFrom (hstage : desk.threads[thread]? = some stage) (spawns : Bool) :
    stage.next spawns desk ∈ (desk.stepFrom spawns thread stage).threads := by
  rw [threads_stepFrom hstage]
  apply List.mem_append_left
  exact List.mem_set (List.getElem?_eq_some_iff.mp hstage).1 _

theorem mem_threads_stepFrom_of_ne (hstage : desk.threads[thread]? = some stage) (spawns : Bool)
    {found : Stage} (hfound : found ∈ desk.threads) (hne : found ≠ stage) :
    found ∈ (desk.stepFrom spawns thread stage).threads := by
  obtain ⟨other, hother⟩ := List.getElem?_of_mem hfound
  have hthread : thread ≠ other := by
    intro hsame
    rw [hsame, hother] at hstage
    exact hne (Option.some.inj hstage)
  rw [threads_stepFrom hstage]
  apply List.mem_append_left
  apply List.mem_of_getElem?
  rw [List.getElem?_set_ne hthread, hother]

theorem mem_threads_stepFrom (hstage : desk.threads[thread]? = some stage) {spawns : Bool}
    {found : Stage} (hfound : found ∈ (desk.stepFrom spawns thread stage).threads) :
    found = stage.next spawns desk ∨ found ∈ desk.threads ∨ found = .fetch := by
  obtain ⟨other, hother⟩ := List.getElem?_of_mem hfound
  obtain ⟨-, heq⟩ | ⟨-, hmem⟩ | heq := getElem?_threads_stepFrom hstage hother
  · exact Or.inl heq
  · exact Or.inr (Or.inl (List.mem_of_getElem? hmem))
  · exact Or.inr (Or.inr heq)

variable (desk thread stage) (spawns : Bool)

theorem settings_stepFrom : (desk.stepFrom spawns thread stage).settings = desk.settings := by
  cases stage <;> simp only [stepFrom, put] <;> split <;> rfl

theorem generation_stepFrom :
    (desk.stepFrom spawns thread stage).generation = match stage with
      | .announce _ => desk.generation + 1
      | _ => desk.generation := by
  cases stage <;> simp only [stepFrom, put] <;> split <;> rfl

theorem generation_le_stepFrom :
    desk.generation ≤ (desk.stepFrom spawns thread stage).generation := by
  rw [generation_stepFrom]
  cases stage <;> simp

theorem pending_stepFrom :
    (desk.stepFrom spawns thread stage).pending = match stage with
      | .post request => some request
      | .fetch => none
      | _ => desk.pending := by
  cases stage <;> simp only [stepFrom, put] <;> split <;> simp_all

theorem running_stepFrom :
    (desk.stepFrom spawns thread stage).running = match stage with
      | .enlist => true
      | .reenlist => true
      | .retire => false
      | _ => desk.running := by
  cases stage <;> simp only [stepFrom, put] <;> split <;> rfl

theorem holder_stepFrom :
    (desk.stepFrom spawns thread stage).holder = match stage with
      | .lock _ => some (desk.holder.getD thread)
      | .unlock _ _ => none
      | _ => desk.holder := by
  cases stage <;> simp only [stepFrom, put] <;> split <;> simp_all

theorem valid_stepFrom :
    (desk.stepFrom spawns thread stage).valid = match stage with
      | .publish _ edition _ => ⟨desk.valid.serial + 1, edition⟩
      | _ => desk.valid := by
  cases stage <;> simp only [stepFrom, put] <;> split <;> rfl

theorem reporter_stepFrom :
    (desk.stepFrom spawns thread stage).reporter = match stage with
      | .clear _ _ => desk.reporter.clear
      | .report _ fault _ => (desk.reporter.report fault).2
      | _ => desk.reporter := by
  cases stage <;> simp only [stepFrom, put] <;> split <;> rfl

end Desk

end ChordGrid.Live
