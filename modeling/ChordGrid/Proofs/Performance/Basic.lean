import ChordGrid.Proofs.Live.Publication
import ChordGrid.Proofs.Playhead.Releases

/-!
# Performances

A performance is a playhead at work on a desk. It goes by cues: the playhead starts, it plays one
quantum, or something moves on the desk, be it a call that comes in or a step of some thread. Scores
may be edited at any moment, so cues come in any order.

The desk moves as it does without a playhead. Whatever is valid at a cue is therefore an edition
that some score compiled to.
-/

namespace ChordGrid

open Live

/-- What may happen next in a performance. -/
inductive Cue where
  | start (tick : Nat)
  | advance
  | edit (move : Move)

def Cue.edit? : Cue → Option Move
  | edit move => some move
  | _ => none

namespace Live

def Desk.take (desk : Desk) : Move → Desk
  | .enter call => desk.enter call
  | .step spawns thread => desk.step spawns thread

theorem Record.desk_take (record : Record) (move : Move) :
    (record.take move).desk = record.desk.take move := by
  cases move <;> rfl

/-- A move leaves the valid publication alone or brings the one with the next serial number. -/
theorem Desk.valid_take (desk : Desk) (move : Move) :
    (desk.take move).valid = desk.valid
      ∨ (desk.take move).valid.serial = desk.valid.serial + 1 := by
  cases move with
  | enter call => exact Or.inl rfl
  | step spawns thread =>
      simp only [take, step]
      cases hstage : desk.threads[thread]? with
      | none => exact Or.inl rfl
      | some stage =>
          rw [valid_stepFrom]
          cases stage with
          | publish generation edition builder => exact Or.inr rfl
          | _ => exact Or.inl rfl

theorem exists_score_of_valid {score : Score} {settings : Settings} {desk : Desk}
    (hload : Desk.load score settings = .ok desk) (moves : List Move) :
    ∃ given, Edition.compile given settings = .ok (desk.record moves).desk.valid.edition := by
  obtain ⟨edition, hcompile, rfl⟩ := Desk.load_eq_ok_iff.mp hload
  have hrecord := reached_record settings edition moves
  obtain ⟨⟨generation, published⟩, hlast, hvalid⟩ :=
    Option.map_eq_some_iff.mp (getLast?_editions hrecord)
  obtain ⟨load, -, hresult⟩ :=
    exists_load_of_mem_editions hcompile hrecord (List.mem_of_getLast? hlast)
  cases load with
  | score given => exact ⟨given, hvalid ▸ hresult⟩
  | failure fault => cases hresult
  | crash text => cases hresult

end Live

/-- A playhead at work on a desk, with all that it has sent. -/
structure Performance where
  desk : Desk
  playhead : Playhead
  /-- What was sent before the last start. -/
  former : List Timed
  /-- What was sent since the last start. -/
  since : List Timed

namespace Performance

/-- All that was sent, in order. -/
def sent (performance : Performance) : List Timed :=
  performance.former ++ performance.since

/-- The performance of a first score before its first cue. -/
def load (score : Score) (settings : Settings) : Except Fault Performance := do
  let desk ← Desk.load score settings
  let playhead ← Playhead.atRest settings
  return { desk, playhead, former := [], since := [] }

def take (performance : Performance) : Cue → Performance
  | .start tick =>
    let (setup, playhead) := performance.playhead.start performance.desk.valid tick
    { performance with playhead, former := performance.sent, since := setup }
  | .advance =>
    let (delivery, playhead) := performance.playhead.advance performance.desk.valid
    { performance with playhead, since := performance.since ++ delivery.sent }
  | .edit move => { performance with desk := performance.desk.take move }

def play (performance : Performance) (cues : List Cue) : Performance :=
  cues.foldl take performance

theorem play_concat (performance : Performance) (cues : List Cue) (cue : Cue) :
    performance.play (cues ++ [cue]) = (performance.play cues).take cue := by
  simp [play]

theorem play_append (performance : Performance) (cues more : List Cue) :
    performance.play (cues ++ more) = (performance.play cues).play more :=
  List.foldl_append

theorem play_cons (performance : Performance) (cue : Cue) (cues : List Cue) :
    performance.play (cue :: cues) = (performance.take cue).play cues :=
  rfl

theorem load_eq_ok_iff {score : Score} {settings : Settings} {opening : Performance} :
    load score settings = .ok opening
      ↔ ∃ desk playhead, Desk.load score settings = .ok desk
        ∧ Playhead.atRest settings = .ok playhead
        ∧ opening = { desk, playhead, former := [], since := [] } := by
  simp only [load, bind_eq_ok_iff, pure, Except.pure, Except.ok.injEq]
  constructor
  · rintro ⟨desk, hdesk, playhead, hplayhead, rfl⟩
    exact ⟨desk, playhead, hdesk, hplayhead, rfl⟩
  · rintro ⟨desk, playhead, hdesk, hplayhead, rfl⟩
    exact ⟨desk, hdesk, playhead, hplayhead, rfl⟩

theorem desk_play (performance : Performance) (cues : List Cue) :
    (performance.play cues).desk
      = (performance.desk.record (cues.filterMap Cue.edit?)).desk := by
  induction cues using List.reverseRecOn with
  | nil => rfl
  | append_singleton cues cue ih =>
      rw [play_concat, List.filterMap_append]
      cases cue with
      | start tick => simpa [take, List.filterMap_cons, Cue.edit?] using ih
      | advance => simpa [take, List.filterMap_cons, Cue.edit?] using ih
      | edit move => simp [take, Cue.edit?, ih, Desk.record_concat, Record.desk_take]

theorem exists_score_of_play {score : Score} {settings : Settings} {opening : Performance}
    (hload : load score settings = .ok opening) (cues : List Cue) :
    ∃ given, Edition.compile given settings = .ok (opening.play cues).desk.valid.edition := by
  obtain ⟨desk, playhead, hdesk, -, rfl⟩ := load_eq_ok_iff.mp hload
  rw [desk_play]
  exact exists_score_of_valid hdesk (cues.filterMap Cue.edit?)

theorem isPlayable_valid {score : Score} {settings : Settings} {opening : Performance}
    (hload : load score settings = .ok opening) (cues : List Cue) :
    (opening.play cues).desk.valid.edition.roll.IsPlayable := by
  obtain ⟨given, hgiven⟩ := exists_score_of_play hload cues
  exact Edition.isPlayable_of_compile hgiven

theorem sounding_take_advance {performance : Performance}
    (hsounding : performance.playhead.sounding = KeyOn.afterAll [] performance.since) :
    (performance.take .advance).playhead.sounding
      = KeyOn.afterAll [] (performance.take .advance).since := by
  change (performance.playhead.advance performance.desk.valid).2.sounding
    = KeyOn.afterAll [] (performance.since ++ _)
  rw [KeyOn.afterAll_append, ← hsounding]
  exact Playhead.sounding_advance performance.playhead performance.desk.valid

end Performance

/-! ### Small scores -/

theorem Edition.compile_of_messages {score : Score} {settings : Settings} {edition : Edition}
    (messages : List Timed) (hroll : Roll.ofMessages messages = edition.roll)
    (hscore : (score.compile settings).toOption.any (fun arrangement =>
      (arrangement.messages 0 .playback).1.toOption = some messages
        ∧ arrangement.tempo = edition.tempo ∧ arrangement.timeline.length = edition.length)
      = true) :
    Edition.compile score settings = .ok edition := by
  cases hcompile : score.compile settings with
  | error fault =>
      rw [hcompile] at hscore
      cases hscore
  | ok arrangement =>
      rw [hcompile] at hscore
      obtain ⟨hmessages, htempo, hlength⟩ := of_decide_eq_true hscore
      cases hmade : (arrangement.messages 0 .playback).1 with
      | error fault =>
          rw [hmade] at hmessages
          cases hmessages
      | ok made =>
          rw [hmade] at hmessages
          cases hmessages
          refine bind_eq_ok_iff.mpr ⟨arrangement, hcompile,
            bind_eq_ok_iff.mpr ⟨_, map_eq_ok_iff.mpr ⟨messages, hmade, rfl⟩, ?_⟩⟩
          rw [hroll, htempo, hlength]
          rfl

/-- A score of one measure, played by one pad for each grid. -/
def pads (grids : List String) : Score where
  song := { name := "", tempo := none, key := "C", mode := "Ion", order := ["a"] }
  patterns := [⟨"a", "I| | | "⟩]
  phrases := grids.map fun grid =>
    { kind := "pad", name := "a", data := some { note := some [grid] } }
  parts := [⟨"pad", 0, "0"⟩]
  faders := []

/-- The performance that opens with an edition, at the usual settings. -/
def Performance.opening (edition : Edition) : Performance where
  desk := Desk.fresh {} edition
  playhead :=
    { resolution := .standard, position := 0, playing := false, seen := none, sounding := [] }
  former := []
  since := []

theorem Performance.load_eq_opening {score : Score} {edition : Edition}
    (hcompile : Edition.compile score {} = .ok edition) :
    load score {} = .ok (opening edition) :=
  load_eq_ok_iff.mpr
    ⟨_, _, Desk.load_eq_ok_iff.mpr ⟨edition, hcompile, rfl⟩, by rfl, rfl⟩

def oneBeat : Edition where
  roll := ⟨[⟨0, [.program 0 0, .noteOn 0 60 127]⟩, ⟨480, [.noteOff 0 60]⟩]⟩
  tempo := 120
  length := 1920

theorem compile_oneBeat : Edition.compile (pads ["1>>>"]) {} = .ok oneBeat := by
  refine Edition.compile_of_messages
    [⟨0, .program 0 0⟩, ⟨0, .noteOn 0 60 127⟩, ⟨480, .noteOff 0 60⟩] ?_ (by decide +kernel)
  simp [oneBeat, Roll.ofMessages, Roll.inTime, Roll.ranked, List.mergeSort, Roll.group,
    Message.rank]

end ChordGrid
