import ChordGrid.Proofs.Live.Rebuild
import ChordGrid.Proofs.Performance.Basic

/-!
# Rebuilds that fail while a song is played

A score that does not compile is refused, and the edition that was valid stays valid. Whoever plays
it must not notice. It is not enough that an equal edition stays: the playhead goes by the serial
number of the publication, and a new number alone makes it look for keys to release.

Here a whole session is compared with the same session less its failed rebuilds, over everything
the user of a playhead can learn: the answers, what is sent and when, and the position. The threads
of a session are those of its own rebuilds. A worker that stands by does not move meanwhile: any
rebuild, failed or not, supersedes what it holds.
-/

namespace ChordGrid

open Live

/-- What the user of a playhead and its desk may do. -/
inductive Action where
  | start (tick : Nat)
  | advance
  | askWhetherEnded
  | askForExport
  | rebuild (score : Score)

namespace Action

/-- Whether the action is a rebuild from a score that does not compile. -/
def isFailedRebuild (settings : Settings) : Action → Bool
  | rebuild score => !(Edition.compile score settings).isOk
  | _ => false

theorem exists_fault_of_isFailedRebuild {settings : Settings} {action : Action}
    (hfailed : action.isFailedRebuild settings = true) :
    ∃ score fault, action = rebuild score ∧ Edition.compile score settings = .error fault := by
  cases action with
  | rebuild score =>
      cases hcompile : Edition.compile score settings with
      | error fault => exact ⟨score, fault, rfl, hcompile⟩
      | ok edition =>
          rw [isFailedRebuild, hcompile] at hfailed
          cases hfailed
  | _ => cases hfailed

end Action

inductive Answer where
  | started
  /-- The number of messages that were dispatched. -/
  | advanced (count : Nat)
  | ended (hasEnded : Bool)
  | exported (stream : Except Fault (List Timed))
  /-- Whether a new edition was published. -/
  | rebuilt (published : Bool)

/-- All that an action shows. -/
structure Reaction where
  action : Action
  answer : Answer
  sent : List Timed
  /-- Where the playhead is after the action. -/
  position : Nat

namespace Performance

def act (performance : Performance) (action : Action) : Reaction × Performance :=
  match action with
  | .start tick =>
    let after := performance.take (.start tick)
    (⟨action, .started, after.since, after.playhead.position⟩, after)
  | .advance =>
    let delivery := (performance.playhead.advance performance.desk.valid).1
    let after := performance.take .advance
    (⟨action, .advanced delivery.count, delivery.sent, after.playhead.position⟩, after)
  | .askWhetherEnded =>
    let ended := performance.playhead.hasEnded performance.desk.valid
    (⟨action, .ended ended, [], performance.playhead.position⟩, performance)
  | .askForExport =>
    let stream := performance.playhead.exported performance.desk.valid
    (⟨action, .exported stream, [], performance.playhead.position⟩, performance)
  | .rebuild score =>
    let outcome := performance.desk.rebuild score
    (⟨action, .rebuilt outcome.1, [], performance.playhead.position⟩,
      { performance with desk := outcome.2 })

/-- The reactions to some actions, one after the other, and the performance after them. -/
def session (performance : Performance) : List Action → List Reaction × Performance
  | [] => ([], performance)
  | action :: later =>
    let (reaction, after) := performance.act action
    let (reactions, last) := after.session later
    (reaction :: reactions, last)

theorem act_rebuild (performance : Performance) (score : Score) :
    performance.act (.rebuild score)
      = (⟨.rebuild score, .rebuilt (performance.desk.rebuild score).1, [],
          performance.playhead.position⟩,
        { performance with desk := (performance.desk.rebuild score).2 }) :=
  rfl

@[simp]
theorem action_act (performance : Performance) (action : Action) :
    (performance.act action).1.action = action := by
  cases action <;> rfl

@[simp]
theorem settings_act (performance : Performance) (action : Action) :
    (performance.act action).2.desk.settings = performance.desk.settings := by
  cases action with
  | rebuild score => simp only [act_rebuild, Desk.settings_rebuild]
  | _ => rfl

theorem session_cons (performance : Performance) (action : Action) (later : List Action) :
    performance.session (action :: later)
      = ((performance.act action).1 :: ((performance.act action).2.session later).1,
        ((performance.act action).2.session later).2) :=
  rfl

/-- Performances that no playhead and no rebuild tells apart. -/
structure SameFront (a b : Performance) : Prop where
  playhead : a.playhead = b.playhead
  former : a.former = b.former
  since : a.since = b.since
  desk : a.desk.SameFront b.desk

variable {a b : Performance}

theorem SameFront.refl (performance : Performance) : performance.SameFront performance :=
  ⟨rfl, rfl, rfl, .refl _⟩

theorem SameFront.trans {c : Performance} (h : a.SameFront b) (hnext : b.SameFront c) :
    a.SameFront c :=
  ⟨h.playhead.trans hnext.playhead, h.former.trans hnext.former, h.since.trans hnext.since,
    h.desk.trans hnext.desk⟩

theorem SameFront.withDesk (h : a.SameFront b) {desk other : Desk} (hdesk : desk.SameFront other) :
    { a with desk }.SameFront { b with desk := other } :=
  ⟨h.playhead, h.former, h.since, hdesk⟩

theorem SameFront.sent (h : a.SameFront b) : a.sent = b.sent := by
  rw [Performance.sent, Performance.sent, h.former, h.since]

/-! ### One action -/

theorem SameFront.take_start (h : a.SameFront b) (tick : Nat) :
    (a.take (.start tick)).SameFront (b.take (.start tick)) := by
  constructor
  · simp only [take, h.playhead, h.desk.valid]
  · exact h.sent
  · simp only [take, h.playhead, h.desk.valid]
  · exact h.desk

theorem SameFront.take_advance (h : a.SameFront b) :
    (a.take .advance).SameFront (b.take .advance) := by
  constructor
  · simp only [take, h.playhead, h.desk.valid]
  · exact h.former
  · simp only [take, h.playhead, h.desk.valid, h.since]
  · exact h.desk

theorem SameFront.act (h : a.SameFront b) (action : Action) :
    (a.act action).1 = (b.act action).1 ∧ (a.act action).2.SameFront (b.act action).2 := by
  cases action with
  | start tick =>
      have hafter := h.take_start tick
      refine ⟨?_, hafter⟩
      simp only [Performance.act, hafter.since, hafter.playhead]
  | advance =>
      have hafter := h.take_advance
      refine ⟨?_, hafter⟩
      simp only [Performance.act, hafter.playhead, h.playhead, h.desk.valid]
  | askWhetherEnded =>
      refine ⟨?_, h⟩
      simp only [Performance.act, h.playhead, h.desk.valid]
  | askForExport =>
      refine ⟨?_, h⟩
      simp only [Performance.act, h.playhead, h.desk.valid]
  | rebuild score =>
      obtain ⟨hpublished, hdesk⟩ := h.desk.rebuild score
      rw [act_rebuild, act_rebuild]
      refine ⟨?_, h.withDesk hdesk⟩
      rw [hpublished, h.playhead]

/-- **A failed rebuild shows nothing** but its own answer, and leaves the performance as it was. -/
theorem act_of_isFailedRebuild {performance : Performance} {action : Action}
    (hfailed : action.isFailedRebuild performance.desk.settings = true) :
    (performance.act action).1 = ⟨action, .rebuilt false, [], performance.playhead.position⟩
      ∧ (performance.act action).2.SameFront performance := by
  obtain ⟨score, fault, rfl, hfault⟩ := Action.exists_fault_of_isFailedRebuild hfailed
  obtain ⟨hanswer, hdesk⟩ := Desk.rebuild_of_error hfault
  rw [act_rebuild, hanswer]
  exact ⟨rfl, (SameFront.refl performance).withDesk hdesk⟩

/-! ### A whole session -/

/-- A session with failed rebuilds and one without, from performances that nothing tells apart. -/
theorem SameFront.session (h : a.SameFront b) (actions : List Action) :
    (b.session (actions.filter (!·.isFailedRebuild a.desk.settings))).1
        = (a.session actions).1.filter (!·.action.isFailedRebuild a.desk.settings)
      ∧ (a.session actions).2.SameFront
          (b.session (actions.filter (!·.isFailedRebuild a.desk.settings))).2 := by
  induction actions generalizing a b with
  | nil => exact ⟨rfl, h⟩
  | cons action later ih =>
      cases hfailed : action.isFailedRebuild a.desk.settings with
      | true =>
          obtain ⟨-, hleft⟩ := act_of_isFailedRebuild hfailed
          obtain ⟨hreactions, hlast⟩ := ih (hleft.trans h)
          rw [settings_act] at hreactions hlast
          rw [session_cons, List.filter_cons_of_neg (by simp [hfailed]),
            List.filter_cons_of_neg (by simp [hfailed])]
          exact ⟨hreactions, hlast⟩
      | false =>
          obtain ⟨hreaction, hafter⟩ := h.act action
          obtain ⟨hreactions, hlast⟩ := ih hafter
          rw [settings_act] at hreactions hlast
          rw [List.filter_cons_of_pos (by simp [hfailed]), session_cons, session_cons,
            List.filter_cons_of_pos (by simp [hfailed]), hreactions, ← hreaction]
          exact ⟨rfl, hlast⟩

theorem reaction_of_isFailedRebuild {performance : Performance} {actions : List Action}
    {reaction : Reaction} (hmem : reaction ∈ (performance.session actions).1)
    (hfailed : reaction.action.isFailedRebuild performance.desk.settings = true) :
    reaction.sent = [] ∧ reaction.answer = .rebuilt false := by
  induction actions generalizing performance with
  | nil => cases hmem
  | cons action later ih =>
      rw [session_cons, List.mem_cons] at hmem
      obtain rfl | hlater := hmem
      · rw [action_act] at hfailed
        obtain ⟨hreaction, -⟩ := act_of_isFailedRebuild hfailed
        rw [hreaction]
        exact ⟨rfl, rfl⟩
      · exact ih hlater (by rwa [settings_act])

/-- **Failed rebuilds are not heard.** A session less its failed rebuilds shows what the session
shows, less what the failed rebuilds show, and these send nothing. At the end all that was sent is
the same, and so are the playhead, what it plays from and what silences it. -/
theorem failed_rebuilds_unheard (performance : Performance) (actions : List Action) :
    let settings := performance.desk.settings
    let whole := performance.session actions
    let less := performance.session (actions.filter (!·.isFailedRebuild settings))
    less.1 = whole.1.filter (!·.action.isFailedRebuild settings)
      ∧ (∀ reaction ∈ whole.1, reaction.action.isFailedRebuild settings = true →
          reaction.sent = [] ∧ reaction.answer = .rebuilt false)
      ∧ less.2.sent = whole.2.sent
      ∧ less.2.playhead = whole.2.playhead
      ∧ less.2.desk.valid = whole.2.desk.valid
      ∧ less.2.playhead.silence less.2.desk.settings
          = whole.2.playhead.silence whole.2.desk.settings := by
  intro settings whole less
  obtain ⟨hreactions, hlast⟩ := (SameFront.refl performance).session actions
  refine ⟨hreactions, fun reaction hmem hfailed => reaction_of_isFailedRebuild hmem hfailed,
    hlast.sent.symm, hlast.playhead.symm, hlast.desk.valid.symm, ?_⟩
  exact congrArg₂ Playhead.silence hlast.playhead.symm hlast.desk.settings.symm

end Performance

end ChordGrid
