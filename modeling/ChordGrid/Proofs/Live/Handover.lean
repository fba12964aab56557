import ChordGrid.Proofs.Live.Account

/-!
# Handing the slot over

A worker that finds the slot empty lowers the running flag first and looks into the slot again
afterwards. A request that comes in between may raise the flag itself, so for a moment two workers
are alive, but only the one that raised the flag goes on to build.

The flag is a token: as long as it is up, exactly one thread answers for it, and while it is down,
none does. A request in the slot is looked after by that thread or, while the flag is down, by a
thread that has yet to try to raise it.
-/

namespace ChordGrid.Live

namespace Stage

/-- For whom a thread builds, from the moment it has a request until it has settled it. -/
def builder? : Stage → Option Builder
  | compile _ builder => some builder
  | lock build => some build.builder
  | compare build => some build.builder
  | publish _ _ builder => some builder
  | clear _ builder => some builder
  | report _ _ builder => some builder
  | unlock _ builder => some builder
  | _ => none

/-- A worker has taken a request and has not settled it yet. -/
def isWorking (stage : Stage) : Bool :=
  stage.builder? = some .worker

/-- The thread answers for the running flag: it is a worker, or about to start one. -/
def answers : Stage → Bool
  | hire => true
  | fetch => true
  | retire => true
  | stage => stage.isWorking

/-- The thread has yet to see whether the running flag is up, or whether the slot is empty. -/
def hesitates : Stage → Bool
  | enlist => true
  | recheck => true
  | reenlist => true
  | _ => false

theorem answers_of_isWorking {stage : Stage} (h : stage.isWorking = true) :
    stage.answers = true := by
  cases stage with
  | hire => rfl
  | fetch => rfl
  | retire => rfl
  | _ => exact h

theorem answers_verdict (build : Build) :
    (Desk.verdict build).answers = (compare build).answers := by
  rw [Desk.verdict]
  split <;> rfl

theorem answers_next (stage : Stage) (spawns : Bool) (desk : Desk) :
    (stage.next spawns desk).answers = match stage with
      | enlist => !desk.running
      | hire => !spawns
      | retire => false
      | reenlist => !desk.running
      | _ => stage.answers := by
  cases stage with
  | announce call => cases call <;> rfl
  | enlist =>
      rw [next]
      cases desk.running <;> rfl
  | hire => cases spawns <;> rfl
  | fetch =>
      rw [next]
      cases desk.pending <;> rfl
  | lock build =>
      rw [next]
      cases desk.holder <;> rfl
  | compare build =>
      rw [next]
      split
      · exact answers_verdict build
      · rfl
  | unlock published builder => cases builder <;> rfl
  | recheck =>
      rw [next]
      cases desk.pending <;> rfl
  | reenlist =>
      rw [next]
      cases desk.running <;> rfl
  | _ => rfl

end Stage

/-- A thread takes the flag up and gives it up together with the answer for it. A thread that starts
a worker passes the answer on. -/
theorem answers_flow (desk : Desk) (spawns : Bool) (thread : Nat) {stage : Stage}
    (hflag : stage.answers = true → desk.running = true) :
    (stage.next spawns desk).answers.toNat + (stage.hires spawns).countP Stage.answers
        + desk.running.toNat
      = stage.answers.toNat + (desk.stepFrom spawns thread stage).running.toNat := by
  rw [Stage.answers_next, Desk.running_stepFrom]
  cases stage with
  | enlist => cases desk.running <;> rfl
  | hire => cases spawns <;> simp [Stage.hires, Stage.answers]
  | retire => simp [hflag rfl, Stage.hires, Stage.answers]
  | reenlist => cases desk.running <;> rfl
  | _ => rfl

variable {settings : Settings} {edition : Edition} {record : Record}

/-- **The flag is a token.** One thread answers for it while it is up, and none while it is down. -/
theorem countP_answers (hrecord : record.Reached settings edition) :
    record.desk.threads.countP Stage.answers = record.desk.running.toNat := by
  induction hrecord with
  | fresh => rfl
  | @enter record call _ ih =>
      rw [countP_threads_enter _ _ rfl]
      exact ih
  | @step record thread stage spawns _ hstage ih =>
      have hflag : stage.answers = true → record.desk.running = true := by
        intro hanswers
        have hpos := List.countP_pos_iff.mpr ⟨stage, List.mem_of_getElem? hstage, hanswers⟩
        rw [ih] at hpos
        exact Bool.toNat_eq_one.mp (Nat.le_antisymm (Bool.toNat_le _) hpos)
      have hthreads := countP_threads_stepFrom_add Stage.answers hstage spawns
      have hflow := answers_flow record.desk spawns thread hflag
      dsimp only
      omega

/-- **A request in the slot is looked after** by the thread that answers for the flag or, while the
flag is down, by one that has yet to try to raise it. -/
theorem exists_hesitates (hrecord : record.Reached settings edition)
    (hpending : record.desk.pending ≠ none) (hrunning : record.desk.running = false) :
    ∃ stage ∈ record.desk.threads, stage.hesitates = true := by
  induction hrecord with
  | fresh => exact absurd rfl hpending
  | @enter record call _ ih =>
      obtain ⟨stage, hstage, hhesitates⟩ := ih hpending hrunning
      exact ⟨stage, List.mem_append_left _ hstage, hhesitates⟩
  | @step record thread stage spawns _ hstage ih =>
      have hnext := Desk.next_mem_threads_stepFrom hstage spawns
      rw [Desk.pending_stepFrom] at hpending
      rw [Desk.running_stepFrom] at hrunning
      cases stage with
      | post request => exact ⟨_, hnext, rfl⟩
      | enlist => cases hrunning
      | fetch => exact absurd rfl hpending
      | retire => exact ⟨_, hnext, rfl⟩
      | recheck =>
          -- The slot was filled after the flag went down, and the second look finds it filled.
          refine ⟨_, hnext, ?_⟩
          rw [Stage.next, if_neg (by simpa using hpending)]
          rfl
      | reenlist => cases hrunning
      | _ =>
          obtain ⟨found, hfound, hhesitates⟩ := ih hpending hrunning
          refine ⟨found, Desk.mem_threads_stepFrom_of_ne hstage spawns hfound ?_, hhesitates⟩
          rintro rfl
          cases hhesitates

/-- **One builder, and no request is stranded.** Over every run of any number of callers and
workers, whether or not threads can be started, and whatever the order of their steps: at most one
worker at a time has taken a request that it has not settled yet; and whenever no call is in
progress and no worker is alive, the slot is empty and the running flag is down. -/
theorem one_builder_none_stranded {score : Score} {settings : Settings} {desk : Desk}
    (hload : Desk.load score settings = .ok desk) (moves : List Move) :
    (desk.record moves).desk.threads.countP Stage.isWorking ≤ 1
      ∧ ((∀ stage ∈ (desk.record moves).desk.threads, stage.isDone = true) →
        (desk.record moves).desk.pending = none
          ∧ (desk.record moves).desk.running = false) := by
  obtain ⟨edition, -, rfl⟩ := Desk.load_eq_ok_iff.mp hload
  have hrecord := reached_record settings edition moves
  have hanswers := countP_answers hrecord
  refine ⟨?_, ?_⟩
  · calc ((Desk.fresh settings edition).record moves).desk.threads.countP Stage.isWorking
        ≤ ((Desk.fresh settings edition).record moves).desk.threads.countP Stage.answers := by
          apply List.countP_mono_left
          intro stage _
          exact Stage.answers_of_isWorking
      _ ≤ 1 := by
          rw [hanswers]
          exact Bool.toNat_le _
  · intro hdone
    have hrunning : ((Desk.fresh settings edition).record moves).desk.running = false := by
      rw [countP_threads_of_done hdone fun _ => rfl] at hanswers
      exact Bool.toNat_eq_zero.mp hanswers.symm
    refine ⟨?_, hrunning⟩
    by_contra hpending
    obtain ⟨stage, hstage, hhesitates⟩ := exists_hesitates hrecord hpending hrunning
    have hnone := countP_threads_of_done (p := Stage.hesitates) hdone fun _ => rfl
    exact List.countP_eq_zero.mp hnone stage hstage hhesitates

/-- A request comes in while the worker of another one has lowered the flag and has yet to look into
the slot again. No thread can be started for it, so its caller goes on as a worker. -/
def lateRequest : List Move :=
  .enter (.request (.score (sketch 110))) :: List.replicate 4 (.step true 0)
    ++ List.replicate 9 (.step true 1)
    ++ .enter (.request (.score (sketch 120))) :: List.replicate 3 (.step true 2)
    ++ List.replicate 2 (.step true 1) ++ List.replicate 11 (.step false 2)

theorem one_builder_none_stranded_late :
    (∀ stage ∈ ((Desk.fresh {} ⟨⟨[]⟩, 100, 0⟩).record lateRequest).desk.threads,
        stage.isDone = true)
      ∧ ((Desk.fresh {} ⟨⟨[]⟩, 100, 0⟩).record lateRequest).desk.valid.edition.tempo = 120
      ∧ ((Desk.fresh {} ⟨⟨[]⟩, 100, 0⟩).record lateRequest).desk.pending = none
      ∧ ((Desk.fresh {} ⟨⟨[]⟩, 100, 0⟩).record lateRequest).desk.running = false := by
  have hdone : ∀ stage ∈ ((Desk.fresh {} ⟨⟨[]⟩, 100, 0⟩).record lateRequest).desk.threads,
      stage.isDone = true := by decide +kernel
  obtain ⟨-, hrest⟩ := one_builder_none_stranded load_sketch lateRequest
  exact ⟨hdone, by decide +kernel, hrest hdone⟩

end ChordGrid.Live
