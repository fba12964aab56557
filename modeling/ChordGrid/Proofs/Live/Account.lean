import ChordGrid.Proofs.Live.Record
import Mathlib.Data.List.Count

/-!
# Every generation is accounted for

A generation that was announced is in exactly one place: with a thread that has yet to compare it,
in the pending slot, or decided, which is to say upheld, dismissed, or thrown out of the slot by
another request. The second account starts where the first one ends: a generation that was upheld is
with a thread that has yet to speak, or it was published or reported.

Both are counts and not mere memberships, so that no generation is decided twice.
-/

namespace ChordGrid.Live

/-- The build of a generation has yet to be compared with the newest one. -/
def Stage.awaits (generation : Nat) : Stage → Bool
  | .post request => request.generation = generation
  | .compile request _ => request.generation = generation
  | .lock build => build.generation = generation
  | .compare build => build.generation = generation
  | _ => false

/-- The build of a generation has been upheld and has yet to be published or reported. -/
def Stage.speaks (generation : Nat) : Stage → Bool
  | .publish g _ _ => g = generation
  | .report g _ _ => g = generation
  | _ => false

namespace Deed

/-- The pending request of a generation was replaced. -/
def displaces (generation : Nat) : Deed → Bool
  | posted _ (some replaced) => replaced.generation = generation
  | _ => false

def upholds (generation : Nat) : Deed → Bool
  | upheld g => g = generation
  | _ => false

def dismisses (generation : Nat) : Deed → Bool
  | dismissed g => g = generation
  | _ => false

/-- The result of a generation was published or handed to the reporter. -/
def settles (generation : Nat) : Deed → Bool
  | published g _ => g = generation
  | reported g _ => g = generation
  | _ => false

end Deed

def Desk.holds (desk : Desk) (generation : Nat) : Bool :=
  desk.pending.any fun request => request.generation = generation

/-- How often some deeds decide what becomes of a generation. -/
def decisions (generation : Nat) (deeds : List Deed) : Nat :=
  deeds.countP (Deed.displaces generation) + deeds.countP (Deed.upholds generation)
    + deeds.countP (Deed.dismisses generation)

/-- How often a generation is in one of its places. -/
def Record.places (record : Record) (generation : Nat) : Nat :=
  record.desk.threads.countP (Stage.awaits generation) + (record.desk.holds generation).toNat
    + decisions generation record.deeds

/-- One if a generation was announced, and nothing otherwise. -/
def Desk.announced (desk : Desk) (generation : Nat) : Nat :=
  if 0 < generation ∧ generation ≤ desk.generation then 1 else 0

theorem decisions_append (generation : Nat) (deeds more : List Deed) :
    decisions generation (deeds ++ more)
      = decisions generation deeds + decisions generation more := by
  simp only [decisions, List.countP_append]
  omega

@[simp]
theorem decisions_nil (generation : Nat) : decisions generation [] = 0 := rfl

@[simp]
theorem decisions_announced (generation : Nat) (request : Request) :
    decisions generation [.announced request] = 0 := rfl

@[simp]
theorem decisions_posted (generation : Nat) (request : Request) (replaced : Option Request) :
    decisions generation [.posted request replaced]
      = (replaced.any fun request => request.generation = generation).toNat := by
  cases replaced with
  | none => rfl
  | some replaced => by_cases h : replaced.generation = generation <;>
      simp [decisions, Deed.displaces, Deed.upholds, Deed.dismisses, h]

@[simp]
theorem decisions_upheld (generation g : Nat) :
    decisions generation [.upheld g] = (decide (g = generation)).toNat := by
  by_cases h : g = generation <;>
    simp [decisions, Deed.displaces, Deed.upholds, Deed.dismisses, h]

@[simp]
theorem decisions_dismissed (generation g : Nat) :
    decisions generation [.dismissed g] = (decide (g = generation)).toNat := by
  by_cases h : g = generation <;>
    simp [decisions, Deed.displaces, Deed.upholds, Deed.dismisses, h]

theorem countP_set_add {α : Type} (p : α → Bool) {l : List α} {i : Nat} {old : α}
    (hold : l[i]? = some old) (new : α) :
    (l.set i new).countP p + (p old).toNat = l.countP p + (p new).toNat := by
  obtain ⟨hlt, heq⟩ := List.getElem?_eq_some_iff.mp hold
  have hpos : (p old).toNat ≤ l.countP p := by
    cases hp : p old with
    | false => simp
    | true => exact List.countP_pos_iff.mpr ⟨old, List.mem_of_getElem? hold, hp⟩
  rw [List.countP_set hlt, heq]
  cases hp : p old with
  | false => cases p new <;> simp
  | true =>
      rw [hp, Bool.toNat_true] at hpos
      cases p new <;> simp <;> omega

theorem countP_threads_stepFrom_add {desk : Desk} {thread : Nat} {stage : Stage}
    (p : Stage → Bool) (hstage : desk.threads[thread]? = some stage) (spawns : Bool) :
    (desk.stepFrom spawns thread stage).threads.countP p + (p stage).toNat
      = desk.threads.countP p + (p (stage.next spawns desk)).toNat
        + (stage.hires spawns).countP p := by
  have hset := countP_set_add p hstage (stage.next spawns desk)
  rw [Desk.threads_stepFrom hstage, List.countP_append]
  omega

theorem countP_threads_stepFrom {desk : Desk} {thread : Nat} {stage : Stage}
    (p : Stage → Bool) (hfetch : p .fetch = false) (hstage : desk.threads[thread]? = some stage)
    (spawns : Bool) :
    (desk.stepFrom spawns thread stage).threads.countP p + (p stage).toNat
      = desk.threads.countP p + (p (stage.next spawns desk)).toNat := by
  have hhires : (stage.hires spawns).countP p = 0 := by
    cases stage <;> cases spawns <;> simp [Stage.hires, hfetch]
  have hcount := countP_threads_stepFrom_add p hstage spawns
  rwa [hhires, Nat.add_zero] at hcount

theorem countP_threads_enter (desk : Desk) {call : Call} (p : Stage → Bool)
    (hannounce : p (.announce call) = false) :
    (desk.enter call).threads.countP p = desk.threads.countP p := by
  simp [Desk.enter, List.countP_append, hannounce]

theorem countP_threads_of_done {desk : Desk} {p : Stage → Bool}
    (hdone : ∀ stage ∈ desk.threads, stage.isDone = true)
    (hp : ∀ published, p (.done published) = false) : desk.threads.countP p = 0 := by
  rw [List.countP_eq_zero]
  intro stage hstage
  have hstage := hdone stage hstage
  cases stage with
  | done published => simp [hp published]
  | _ => cases hstage

/-- A step moves a generation from one place to another and loses none. -/
theorem places_flow (desk : Desk) (spawns : Bool) (thread : Nat) (stage : Stage)
    (generation : Nat) :
    ((stage.next spawns desk).awaits generation).toNat
        + ((desk.stepFrom spawns thread stage).holds generation).toNat
        + decisions generation (desk.deed stage).toList + desk.announced generation
      = (stage.awaits generation).toNat + (desk.holds generation).toNat
        + (desk.stepFrom spawns thread stage).announced generation := by
  simp only [Desk.holds, Desk.announced, Desk.pending_stepFrom, Desk.generation_stepFrom]
  cases stage with
  | announce call =>
      have hnew : (decide (desk.generation + 1 = generation)).toNat
          + (if 0 < generation ∧ generation ≤ desk.generation then 1 else 0)
          = if 0 < generation ∧ generation ≤ desk.generation + 1 then 1 else 0 := by
        by_cases heq : desk.generation + 1 = generation
        · subst heq
          simp
        · simp only [heq, decide_false, Bool.toNat_false, Nat.zero_add]
          exact if_congr (by omega) rfl rfl
      cases call <;> simp only [Stage.next, Desk.deed, Stage.awaits, Option.toList_some,
        decisions_announced, Bool.toNat_false] <;> omega
  | post request =>
      simp only [Stage.next, Desk.deed, Stage.awaits, Option.toList_some, decisions_posted,
        Option.any_some, Bool.toNat_false]
      omega
  | fetch =>
      cases hpending : desk.pending <;>
        simp [Stage.next, Desk.deed, Stage.awaits, hpending]
  | compare build =>
      by_cases hnewest : build.generation = desk.generation
      · cases hresult : build.result <;>
          simp [Stage.next, Desk.deed, Desk.verdict, Stage.awaits, hnewest, hresult] <;> omega
      · simp [Stage.next, Desk.deed, Stage.awaits, hnewest]
        omega
  | enlist => cases h : desk.running <;> simp [Stage.next, Desk.deed, Stage.awaits, h]
  | hire => cases spawns <;> rfl
  | lock build => cases h : desk.holder <;> simp [Stage.next, Desk.deed, Stage.awaits, h]
  | unlock published builder => cases builder <;> rfl
  | recheck => cases h : desk.pending <;> simp [Stage.next, Desk.deed, Stage.awaits, h]
  | reenlist => cases h : desk.running <;> simp [Stage.next, Desk.deed, Stage.awaits, h]
  | _ => rfl

variable {settings : Settings} {edition : Edition} {record : Record}

/-- **Each generation is in exactly one place.** -/
theorem places_eq (hrecord : record.Reached settings edition) (generation : Nat) :
    record.places generation = record.desk.announced generation := by
  induction hrecord with
  | fresh =>
      have hnone : ¬ (0 < generation ∧ generation ≤ 0) := by omega
      rw [Desk.announced, Desk.fresh, if_neg hnone]
      rfl
  | @enter record call _ ih =>
      rw [Record.places, countP_threads_enter _ _ rfl]
      exact ih
  | @step record thread stage spawns _ hstage ih =>
      have hthreads := countP_threads_stepFrom (Stage.awaits generation) rfl hstage spawns
      have hflow := places_flow record.desk spawns thread stage generation
      simp only [Record.places, decisions_append] at ih ⊢
      omega

/-! ### What becomes of an upheld generation -/

theorem speaks_flow (desk : Desk) (spawns : Bool) (stage : Stage) (generation : Nat) :
    ((stage.next spawns desk).speaks generation).toNat
        + (desk.deed stage).toList.countP (Deed.settles generation)
      = (stage.speaks generation).toNat
        + (desk.deed stage).toList.countP (Deed.upholds generation) := by
  cases stage with
  | announce call => cases call <;> rfl
  | post request => rfl
  | enlist => cases h : desk.running <;> simp [Stage.next, Desk.deed, Stage.speaks, h]
  | hire => cases spawns <;> rfl
  | fetch => cases h : desk.pending <;> simp [Stage.next, Desk.deed, Stage.speaks, h]
  | lock build => cases h : desk.holder <;> simp [Stage.next, Desk.deed, Stage.speaks, h]
  | compare build =>
      by_cases hnewest : build.generation = desk.generation
      · cases hresult : build.result <;> by_cases h : desk.generation = generation <;>
          simp [Stage.next, Desk.deed, Desk.verdict, Stage.speaks, Deed.settles, Deed.upholds,
            hnewest, hresult, h]
      · simp [Stage.next, Desk.deed, Stage.speaks, Deed.settles, Deed.upholds, hnewest]
  | publish g edition builder =>
      by_cases h : g = generation <;>
        simp [Stage.next, Desk.deed, Stage.speaks, Deed.settles, Deed.upholds, h]
  | report g fault builder =>
      by_cases h : g = generation <;>
        simp [Stage.next, Desk.deed, Stage.speaks, Deed.settles, Deed.upholds, h]
  | unlock published builder => cases builder <;> rfl
  | recheck => cases h : desk.pending <;> simp [Stage.next, Desk.deed, Stage.speaks, h]
  | reenlist => cases h : desk.running <;> simp [Stage.next, Desk.deed, Stage.speaks, h]
  | _ => rfl

/-- An upheld generation is with the thread that has yet to speak for it, or it was published or
reported. -/
theorem upholds_eq (hrecord : record.Reached settings edition) (generation : Nat) :
    record.deeds.countP (Deed.upholds generation)
      = record.desk.threads.countP (Stage.speaks generation)
        + record.deeds.countP (Deed.settles generation) := by
  induction hrecord with
  | fresh => rfl
  | @enter record call _ ih =>
      rw [countP_threads_enter _ _ rfl]
      exact ih
  | @step record thread stage spawns _ hstage ih =>
      have hthreads := countP_threads_stepFrom (Stage.speaks generation) rfl hstage spawns
      have hflow := speaks_flow record.desk spawns stage generation
      simp only [List.countP_append] at ih ⊢
      omega

/-! ### What the accounts say of one generation -/

variable {generation : Nat}

theorem places_le_one (hrecord : record.Reached settings edition) (generation : Nat) :
    record.places generation ≤ 1 := by
  rw [places_eq hrecord, Desk.announced]
  split <;> omega

section Awaits

variable {stage : Stage} (hrecord : record.Reached settings edition)
  (hstage : stage ∈ record.desk.threads) (hawaits : stage.awaits generation = true)

include hrecord hstage hawaits

theorem announced_of_awaits : 0 < generation ∧ generation ≤ record.desk.generation := by
  have hpos := List.countP_pos_iff.mpr ⟨stage, hstage, hawaits⟩
  have hplaces := places_eq hrecord generation
  by_contra hnone
  rw [Desk.announced, if_neg hnone, Record.places] at hplaces
  omega

theorem not_holds_of_awaits : record.desk.holds generation = false := by
  have hpos := List.countP_pos_iff.mpr ⟨stage, hstage, hawaits⟩
  have hplaces := places_le_one hrecord generation
  rw [Record.places] at hplaces
  cases hholds : record.desk.holds generation with
  | false => rfl
  | true =>
      rw [hholds, Bool.toNat_true] at hplaces
      omega

theorem not_upheld_of_awaits : .upheld generation ∉ record.deeds := by
  intro hupheld
  have hpos := List.countP_pos_iff.mpr ⟨stage, hstage, hawaits⟩
  have hupholds : 0 < record.deeds.countP (Deed.upholds generation) :=
    List.countP_pos_iff.mpr ⟨_, hupheld, by simp [Deed.upholds]⟩
  have hplaces := places_le_one hrecord generation
  rw [Record.places, decisions] at hplaces
  omega

end Awaits

theorem upheld_of_settles (hrecord : record.Reached settings edition) {deed : Deed}
    (hdeed : deed ∈ record.deeds) (hsettles : deed.settles generation = true) :
    .upheld generation ∈ record.deeds := by
  have hpos := List.countP_pos_iff.mpr ⟨deed, hdeed, hsettles⟩
  have hupholds := upholds_eq hrecord generation
  obtain ⟨found, hmem, hfound⟩ := List.countP_pos_iff.mp
    (show 0 < record.deeds.countP (Deed.upholds generation) by omega)
  cases found <;> simp [Deed.upholds] at hfound
  exact hfound ▸ hmem

theorem not_settles_of_speaks (hrecord : record.Reached settings edition) {stage : Stage}
    (hstage : stage ∈ record.desk.threads) (hspeaks : stage.speaks generation = true)
    {deed : Deed} (hdeed : deed ∈ record.deeds) : deed.settles generation = false := by
  have hpos := List.countP_pos_iff.mpr ⟨stage, hstage, hspeaks⟩
  have hupholds := upholds_eq hrecord generation
  have hplaces := places_le_one hrecord generation
  rw [Record.places, decisions] at hplaces
  cases hsettles : deed.settles generation with
  | false => rfl
  | true =>
      have := List.countP_pos_iff.mpr ⟨deed, hdeed, hsettles⟩
      omega

end ChordGrid.Live
