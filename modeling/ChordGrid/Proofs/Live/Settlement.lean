import ChordGrid.Proofs.Live.Account

/-!
# Settling under the lock

A build is compared, published and reported only by the thread that holds the lock of the reporter.
The generation counter is not under that lock, so it may move between the comparison and the
publication. What cannot move is the list of upheld generations: the thread that speaks for a
generation still holds the lock it was upheld under, so that generation is the last upheld one.
-/

namespace ChordGrid.Live

namespace Stage

/-- Between taking the lock and dropping it. -/
def isLocked : Stage → Bool
  | compare _ => true
  | publish _ _ _ => true
  | clear _ _ => true
  | report _ _ _ => true
  | unlock _ _ => true
  | _ => false

/-- The generation that a thread speaks for, once it is upheld. -/
def upheld? : Stage → Option Nat
  | publish generation _ _ => some generation
  | clear generation _ => some generation
  | report generation _ _ => some generation
  | _ => none

theorem isLocked_of_upheld? {stage : Stage} {generation : Nat}
    (h : stage.upheld? = some generation) : stage.isLocked = true := by
  cases stage <;> first | rfl | cases h

end Stage

def Deed.upheld? : Deed → Option Nat
  | upheld generation => some generation
  | _ => none

def Record.upheld (record : Record) : List Nat :=
  record.deeds.filterMap Deed.upheld?

section Step

variable {desk : Desk} {spawns : Bool} {thread : Nat} {stage : Stage}

/-- A thread comes under the lock by taking it while nobody holds it, and goes on under the lock as
long as the step leaves the lock alone. -/
theorem isLocked_next (hlocked : (stage.next spawns desk).isLocked = true) :
    (stage.isLocked = true ∧ (desk.stepFrom spawns thread stage).holder = desk.holder)
      ∨ (desk.stepFrom spawns thread stage).holder = some thread := by
  rw [Desk.holder_stepFrom]
  cases stage with
  | announce call => cases call <;> cases hlocked
  | enlist => simp only [Stage.next] at hlocked; split at hlocked <;> cases hlocked
  | hire => cases spawns <;> cases hlocked
  | fetch => simp only [Stage.next] at hlocked; split at hlocked <;> cases hlocked
  | lock build =>
      cases hholder : desk.holder with
      | none => exact Or.inr rfl
      | some other =>
          simp only [Stage.next, hholder] at hlocked
          cases hlocked
  | unlock published builder => cases builder <;> cases hlocked
  | recheck => simp only [Stage.next] at hlocked; split at hlocked <;> cases hlocked
  | reenlist => simp only [Stage.next] at hlocked; split at hlocked <;> cases hlocked
  | compare build => exact Or.inl ⟨rfl, rfl⟩
  | publish generation edition builder => exact Or.inl ⟨rfl, rfl⟩
  | clear generation builder => exact Or.inl ⟨rfl, rfl⟩
  | report generation fault builder => exact Or.inl ⟨rfl, rfl⟩
  | _ => cases hlocked

theorem upheld_deed (desk : Desk) (stage : Stage) :
    (∃ build, stage = .compare build ∧ build.generation = desk.generation
        ∧ (desk.deed stage).toList.filterMap Deed.upheld? = [build.generation])
      ∨ (desk.deed stage).toList.filterMap Deed.upheld? = [] := by
  cases stage with
  | compare build =>
      by_cases hnewest : build.generation = desk.generation
      · exact Or.inl ⟨build, rfl, hnewest, by simp [Desk.deed, hnewest, Deed.upheld?]⟩
      · exact Or.inr (by simp [Desk.deed, hnewest, Deed.upheld?])
  | _ => exact Or.inr rfl

theorem upheld?_next {generation : Nat}
    (hupheld : (stage.next spawns desk).upheld? = some generation) :
    (desk.deed stage).toList.filterMap Deed.upheld? = [generation]
      ∨ (stage.upheld? = some generation
        ∧ (desk.deed stage).toList.filterMap Deed.upheld? = []) := by
  cases stage with
  | announce call => cases call <;> cases hupheld
  | enlist => simp only [Stage.next] at hupheld; split at hupheld <;> cases hupheld
  | hire => cases spawns <;> cases hupheld
  | fetch => simp only [Stage.next] at hupheld; split at hupheld <;> cases hupheld
  | lock build => simp only [Stage.next] at hupheld; split at hupheld <;> cases hupheld
  | unlock published builder => cases builder <;> cases hupheld
  | recheck => simp only [Stage.next] at hupheld; split at hupheld <;> cases hupheld
  | reenlist => simp only [Stage.next] at hupheld; split at hupheld <;> cases hupheld
  | compare build =>
      by_cases hnewest : build.generation = desk.generation
      · left
        cases hresult : build.result <;>
          simp_all [Stage.next, Desk.verdict, Stage.upheld?, Desk.deed, Deed.upheld?]
      · simp [Stage.next, hnewest, Stage.upheld?] at hupheld
  | publish g edition builder => exact Or.inr ⟨hupheld, rfl⟩
  | _ => cases hupheld

end Step

variable {settings : Settings} {edition : Edition} {record : Record}

theorem mem_upheld {generation : Nat} :
    generation ∈ record.upheld ↔ .upheld generation ∈ record.deeds := by
  apply mem_filterMap_deeds
  intro deed upheld
  cases deed <;> simp [Deed.upheld?]

/-- **Mutual exclusion.** A thread between taking the lock and dropping it is the one that holds
it. -/
theorem holder_eq_of_isLocked (hrecord : record.Reached settings edition) {thread : Nat}
    {stage : Stage} (hstage : record.desk.threads[thread]? = some stage)
    (hlocked : stage.isLocked = true) : record.desk.holder = some thread := by
  induction hrecord generalizing thread stage with
  | fresh => cases hstage
  | @enter record call _ ih =>
      obtain hold | rfl := Desk.getElem?_threads_enter hstage
      · exact ih hold hlocked
      · cases hlocked
  | @step record moved before spawns _ hbefore ih =>
      obtain ⟨rfl, rfl⟩ | ⟨hne, hold⟩ | rfl := Desk.getElem?_threads_stepFrom hbefore hstage
      · obtain ⟨hheld, hsame⟩ | htaken := isLocked_next hlocked
        · rw [hsame]
          exact ih hbefore hheld
        · exact htaken
      · have hholder := ih hold hlocked
        rw [Desk.holder_stepFrom]
        cases before with
        | lock build => rw [hholder]; rfl
        | unlock published builder =>
            -- Only the holder comes to this stage, and the holder is the other thread.
            have hmoved := ih hbefore rfl
            rw [hholder] at hmoved
            exact absurd (Option.some.inj hmoved) hne
        | _ => exact hholder
      · cases hlocked

theorem upheld_increasing (hrecord : record.Reached settings edition) :
    record.upheld.Pairwise (· < ·)
      ∧ ∀ generation ∈ record.upheld, generation ≤ record.desk.generation := by
  induction hrecord with
  | fresh => exact ⟨List.Pairwise.nil, fun _ hmem => absurd hmem List.not_mem_nil⟩
  | enter call _ ih => exact ih
  | @step record thread stage spawns hrecord hstage ih =>
      have hgrows := Desk.generation_le_stepFrom record.desk thread stage spawns
      have hkept : ∀ generation ∈ record.upheld,
          generation ≤ (record.desk.stepFrom spawns thread stage).generation :=
        fun generation hmem => Nat.le_trans (ih.2 generation hmem) hgrows
      simp only [Record.upheld, List.filterMap_append]
      obtain ⟨build, rfl, hnewest, hnew⟩ | hnone := upheld_deed record.desk stage
      · have hawaits : (Stage.compare build).awaits build.generation = true := by
          simp [Stage.awaits]
        have hnot := not_upheld_of_awaits hrecord (List.mem_of_getElem? hstage) hawaits
        rw [hnew]
        refine ⟨List.pairwise_append.mpr ⟨ih.1, List.pairwise_singleton _ _, ?_⟩, ?_⟩
        · intro former hformer generation hgeneration
          have hle := ih.2 former hformer
          have hne : former ≠ build.generation := by
            rintro rfl
            exact hnot (mem_upheld.mp hformer)
          rw [List.mem_singleton.mp hgeneration]
          omega
        · intro generation hgeneration
          obtain hold | hlast := List.mem_append.mp hgeneration
          · exact hkept generation hold
          · rw [List.mem_singleton.mp hlast, hnewest]
            exact hgrows
      · rw [hnone, List.append_nil]
        exact ⟨ih.1, hkept⟩

/-- A thread that speaks for a generation speaks for the last one that was upheld. -/
theorem getLast?_upheld (hrecord : record.Reached settings edition) {thread : Nat}
    {stage : Stage} (hstage : record.desk.threads[thread]? = some stage) {generation : Nat}
    (hupheld : stage.upheld? = some generation) :
    record.upheld.getLast? = some generation := by
  induction hrecord generalizing thread stage with
  | fresh => cases hstage
  | @enter record call _ ih =>
      obtain hold | rfl := Desk.getElem?_threads_enter hstage
      · exact ih hold hupheld
      · cases hupheld
  | @step record moved before spawns hrecord hbefore ih =>
      simp only [Record.upheld, List.filterMap_append]
      obtain ⟨rfl, rfl⟩ | ⟨hne, hold⟩ | rfl := Desk.getElem?_threads_stepFrom hbefore hstage
      · obtain hnew | ⟨hspoke, hnone⟩ := upheld?_next hupheld
        · rw [hnew, List.getLast?_append, List.getLast?_singleton, Option.some_or]
        · rw [hnone, List.append_nil]
          exact ih hbefore hspoke
      · obtain ⟨build, rfl, -, -⟩ | hnone := upheld_deed record.desk before
        · -- A second thread cannot uphold anything now: it would hold the lock as well.
          have hholder := holder_eq_of_isLocked hrecord hold (Stage.isLocked_of_upheld? hupheld)
          have hmoved := holder_eq_of_isLocked hrecord hbefore rfl
          rw [hholder] at hmoved
          exact absurd (Option.some.inj hmoved) hne
        · rw [hnone, List.append_nil]
          exact ih hold hupheld
      · cases hupheld

theorem le_of_mem_upheld (hrecord : record.Reached settings edition) {thread : Nat}
    {stage : Stage} (hstage : record.desk.threads[thread]? = some stage) {generation other : Nat}
    (hupheld : stage.upheld? = some generation) (hother : other ∈ record.upheld) :
    other ≤ generation := by
  obtain ⟨former, hformer⟩ :=
    List.getLast?_eq_some_iff.mp (getLast?_upheld hrecord hstage hupheld)
  have hsorted := (upheld_increasing hrecord).1
  rw [hformer] at hsorted hother
  obtain hold | hlast := List.mem_append.mp hother
  · exact Nat.le_of_lt ((List.pairwise_append.mp hsorted).2.2 other hold generation
      (List.mem_singleton_self _))
  · exact Nat.le_of_eq (List.mem_singleton.mp hlast)

end ChordGrid.Live
