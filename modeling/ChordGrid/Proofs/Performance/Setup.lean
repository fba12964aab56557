import ChordGrid.Proofs.Live.Rebuild
import ChordGrid.Proofs.Performance.Basic
import ChordGrid.Proofs.Playhead.Setup

namespace ChordGrid

open Live Playhead

def Cue.isStart : Cue → Bool
  | start _ => true
  | _ => false

def Cue.isEdit : Cue → Bool
  | edit _ => true
  | _ => false

namespace Performance

theorem hasSetupAtTop_valid {score : Score} {settings : Settings} {opening : Performance}
    (hload : load score settings = .ok opening) (cues : List Cue) :
    (opening.play cues).desk.valid.edition.roll.HasSetupAtTop := by
  obtain ⟨given, hgiven⟩ := exists_score_of_play hload cues
  exact Edition.hasSetupAtTop_of_compile hgiven

variable {performance : Performance}

theorem play_edits {cues : List Cue} (hcues : ∀ cue ∈ cues, cue.isEdit = true) :
    (performance.play cues).playhead = performance.playhead
      ∧ (performance.play cues).former = performance.former
      ∧ (performance.play cues).since = performance.since := by
  induction cues using List.reverseRecOn with
  | nil => exact ⟨rfl, rfl, rfl⟩
  | append_singleton cues cue ih =>
      rw [play_concat]
      cases cue with
      | start tick => cases hcues _ (List.mem_append_right _ List.mem_cons_self)
      | advance => cases hcues _ (List.mem_append_right _ List.mem_cons_self)
      | edit move => exact ih fun other hother => hcues other (List.mem_append_left _ hother)

/-- A performance that is beyond the first quantum of its last start, with all setup sent. -/
structure SetUp (former : List Timed) (setup : List Message) (performance : Performance) :
    Prop where
  playing : performance.playhead.playing = true
  past : 0 < performance.playhead.position
  former_eq : performance.former = former
  setup_eq : setupOf performance.since = setup

theorem setUp_advance (hplaying : performance.playhead.playing = true)
    (hroll : performance.desk.valid.edition.roll.HasSetupAtTop) :
    (performance.take .advance).SetUp performance.former
      (setupOf performance.since ++ if performance.playhead.position = 0
        then setupOf performance.desk.valid.edition.roll.stream else []) where
  playing := by simp [take, Playhead.advance, hplaying]
  past := by
    simp only [take, Playhead.advance, hplaying, if_true]
    exact performance.playhead.nextPosition_pos
  former_eq := rfl
  setup_eq := by
    rw [← Playhead.setupOf_sent_advance hplaying hroll, ← setupOf_append]
    rfl

variable {former : List Timed} {setup : List Message}

theorem SetUp.take (hset : performance.SetUp former setup)
    (hroll : performance.desk.valid.edition.roll.HasSetupAtTop) {cue : Cue}
    (hcue : cue.isStart = false) : (performance.take cue).SetUp former setup := by
  cases cue with
  | start tick => cases hcue
  | advance =>
      have hagain := setUp_advance hset.playing hroll
      rwa [if_neg (Nat.ne_of_gt hset.past), List.append_nil, hset.former_eq, hset.setup_eq]
        at hagain
  | edit move => exact ⟨hset.playing, hset.past, hset.former_eq, hset.setup_eq⟩

theorem SetUp.play (hset : performance.SetUp former setup)
    (hroll : ∀ cues, (performance.play cues).desk.valid.edition.roll.HasSetupAtTop)
    {cues : List Cue} (hcues : ∀ cue ∈ cues, cue.isStart = false) :
    (performance.play cues).SetUp former setup := by
  induction cues using List.reverseRecOn with
  | nil => exact hset
  | append_singleton cues cue ih =>
      rw [play_concat]
      apply SetUp.take
      · exact ih fun other hother => hcues other (List.mem_append_left _ hother)
      · exact hroll cues
      · exact hcues cue (List.mem_append_right _ List.mem_cons_self)

/-- The edition whose setup is sent after a start: the one of the start, unless this is at the top.
Then it is the one of the first quantum. -/
def setupSource (begun : Performance) (later : List Cue) : Edition :=
  if begun.playhead.position = 0 then (begun.play (later.takeWhile Cue.isEdit)).desk.valid.edition
  else begun.desk.valid.edition

theorem exists_first_advance {later : List Cue} (hlater : ∀ cue ∈ later, cue.isStart = false) :
    ∃ more, later ++ [.advance] = later.takeWhile Cue.isEdit ++ .advance :: more
      ∧ ∀ cue ∈ more, cue.isStart = false := by
  induction later with
  | nil => exact ⟨[], rfl, fun _ hmem => absurd hmem List.not_mem_nil⟩
  | cons cue later ih =>
      have hrest : ∀ other ∈ later, other.isStart = false :=
        fun other hother => hlater other (List.mem_cons_of_mem cue hother)
      cases cue with
      | start tick => cases hlater _ List.mem_cons_self
      | advance =>
          refine ⟨later ++ [.advance], rfl, ?_⟩
          intro other hother
          obtain hother | hother := List.mem_append.mp hother
          · exact hrest other hother
          · rw [List.mem_singleton.mp hother]
            rfl
      | edit move =>
          obtain ⟨more, hsplit, hmore⟩ := ih hrest
          refine ⟨more, ?_, hmore⟩
          rw [List.cons_append, hsplit]
          rfl

/-- After a start and a quantum everything is set up as the source has it. -/
theorem setUp_play {score : Score} {settings : Settings} {opening begun : Performance}
    (hload : load score settings = .ok opening) {earlier later : List Cue} {tick : Nat}
    (hbegun : begun = (opening.play earlier).take (.start tick))
    (hlater : ∀ cue ∈ later, cue.isStart = false) :
    (begun.play (later ++ [.advance])).SetUp (opening.play earlier).sent
      (setupOf (begun.setupSource later).roll.stream) := by
  have hrolls : ∀ cues, (begun.play cues).desk.valid.edition.roll.HasSetupAtTop := by
    intro cues
    rw [hbegun, ← play_concat, ← play_append]
    exact hasSetupAtTop_valid hload _
  obtain ⟨more, hsplit, hmore⟩ := exists_first_advance hlater
  obtain ⟨hplayhead, hformer, hsince⟩ := @play_edits begun (later.takeWhile Cue.isEdit)
    (List.all_eq_true.mp List.all_takeWhile)
  have hfirst := setUp_advance (by rw [hplayhead, hbegun]; rfl)
    (hrolls (later.takeWhile Cue.isEdit))
  have hstarted : setupOf begun.since = if begun.playhead.position = 0 then []
      else setupOf begun.desk.valid.edition.roll.stream := by
    have hvalid := hrolls []
    rw [hbegun] at hvalid ⊢
    exact Playhead.setupOf_sent_start hvalid tick
  have hsetup : (setupOf begun.since ++ if begun.playhead.position = 0
      then setupOf (begun.play (later.takeWhile Cue.isEdit)).desk.valid.edition.roll.stream else [])
        = setupOf (begun.setupSource later).roll.stream := by
    rw [hstarted, setupSource]
    by_cases htop : begun.playhead.position = 0
    · rw [if_pos htop, if_pos htop, if_pos htop, List.nil_append]
    · rw [if_neg htop, if_neg htop, if_neg htop, List.append_nil]
  have hbefore : begun.former = (opening.play earlier).sent := by
    rw [hbegun]
    rfl
  rw [hsince, hplayhead, hformer, hsetup, hbefore] at hfirst
  rw [hsplit, play_append, play_cons]
  refine hfirst.play ?_ hmore
  intro cues
  rw [← play_cons, ← play_append]
  exact hrolls _

/-! ### An edited fader -/

/-- The cues of a rebuild that nobody interferes with, on a thread of its own. -/
def rebuilding (thread : Nat) (score : Score) : List Cue :=
  .edit (.enter (.rebuild (.score score)))
    :: List.replicate Desk.callLength (.edit (.step true thread))

theorem play_steps (performance : Performance) (thread count : Nat) :
    performance.play (List.replicate count (.edit (.step true thread)))
      = { performance with desk := performance.desk.steps thread count } := by
  induction count generalizing performance with
  | zero => rfl
  | succ count ih => rw [List.replicate_succ, play_cons, ih]; rfl

theorem play_rebuilding {score : Score} {edition : Edition}
    (hholder : performance.desk.holder = none)
    (hcompile : Edition.compile score performance.desk.settings = .ok edition) :
    performance.play (rebuilding performance.desk.threads.length score)
      = { performance with desk := performance.desk.rebuilt (.ok edition) } := by
  have hrebuild : (performance.desk.call (.rebuild (.score score))).2
      = performance.desk.rebuilt (.ok edition) := by
    rw [← hcompile]
    exact congrArg Prod.snd (Desk.rebuild_eq hholder score)
  rw [rebuilding, play_cons, play_steps, ← hrebuild, Desk.snd_call]
  rfl

/-- One held note of a pad whose fader is at some volume. -/
def faded (volume : Nat) : Score :=
  { pads ["1>>>"] with faders := [⟨"pad", volume, "center", false⟩] }

def fadedBeat (volume : Nat) : Edition :=
  { oneBeat with
    roll := ⟨[⟨0, [.control 0 volumeController volume, .control 0 panController 64, .program 0 0,
      .noteOn 0 60 127]⟩, ⟨480, [.noteOff 0 60]⟩]⟩ }

theorem compile_faded : ∀ volume ∈ [20, 100],
    Edition.compile (faded volume) {} = .ok (fadedBeat volume) := by
  intro volume hvolume
  refine Edition.compile_of_messages
    [⟨0, .control 0 volumeController volume⟩, ⟨0, .control 0 panController 64⟩, ⟨0, .program 0 0⟩,
      ⟨0, .noteOn 0 60 127⟩, ⟨480, .noteOff 0 60⟩] ?_ ?_
  · simp [fadedBeat, oneBeat, Roll.ofMessages, Roll.inTime, Roll.ranked, List.mergeSort, Roll.group,
      Message.rank]
  · revert volume
    decide +kernel

/-! ### What is heard of an edit -/

/-- **What a device is set to.** Take any performance that starts at any tick and then goes on with
quanta and edits in any order. After each quantum every dial is set as `setupSource` leaves it, or
else as it was before the start, whatever has been published since. So the dials that the edition of
the quantum sets before the cursor are set as it has them exactly if the source agrees. -/
theorem dials_set_by_source {score : Score} {settings : Settings}
    {opening begun run : Performance} (hload : load score settings = .ok opening)
    {earlier later : List Cue} {tick : Nat}
    (hbegun : begun = (opening.play earlier).take (.start tick))
    (hlater : ∀ cue ∈ later, cue.isStart = false) (hrun : run = begun.play (later ++ [.advance])) :
    (∀ dial, lastSet? run.sent dial
        = (lastSet? (begun.setupSource later).roll.stream dial).or
          (lastSet? (opening.play earlier).sent dial))
      ∧ ((∀ dial value,
          lastSet? (run.desk.valid.edition.roll.window 0 run.playhead.position) dial = some value →
            lastSet? run.sent dial = some value)
        ↔ ∀ dial value, lastSet? run.desk.valid.edition.roll.stream dial = some value →
          (lastSet? (begun.setupSource later).roll.stream dial).or
            (lastSet? (opening.play earlier).sent dial) = some value) := by
  have hset := setUp_play hload hbegun hlater
  rw [← hrun] at hset
  have hdials : ∀ dial, lastSet? run.sent dial
      = (lastSet? (begun.setupSource later).roll.stream dial).or
        (lastSet? (opening.play earlier).sent dial) := by
    intro dial
    rw [sent, hset.former_eq, lastSet?_append, lastSet?_congr hset.setup_eq]
  have hroll : run.desk.valid.edition.roll.HasSetupAtTop := by
    rw [hrun, hbegun, ← play_concat, ← play_append]
    exact hasSetupAtTop_valid hload _
  have hwindow : ∀ dial, lastSet? (run.desk.valid.edition.roll.window 0 run.playhead.position) dial
      = lastSet? run.desk.valid.edition.roll.stream dial := by
    intro dial
    apply lastSet?_congr
    rw [hroll.setupOf_window hset.past, if_pos rfl]
  refine ⟨hdials, ?_⟩
  simp only [hwindow, hdials]

theorem dials_set_by_source_faded :
    (∀ cue ∈ Cue.advance :: rebuilding 0 (faded 20), cue.isStart = false)
      ∧ lastSet? (((opening (fadedBeat 100)).take (.start 0)).play
          (Cue.advance :: rebuilding 0 (faded 20) ++ [.advance])).sent
          (.controller 0 volumeController) = some 100 := by
  have hlater : ∀ cue ∈ Cue.advance :: rebuilding 0 (faded 20), cue.isStart = false := by
    simp [rebuilding, Cue.isStart]
  have hbegun : (opening (fadedBeat 100)).take (.start 0)
      = ((opening (fadedBeat 100)).play []).take (.start 0) := rfl
  obtain ⟨hdials, -⟩ :=
    dials_set_by_source (load_eq_opening (compile_faded 100 (by simp))) hbegun hlater rfl
  refine ⟨hlater, (hdials _).trans ?_⟩
  decide +kernel

/-- The fader is turned down after the first quantum, and one more quantum is played. -/
def fading : List Cue :=
  [.start 0, .advance] ++ rebuilding 0 (faded 20) ++ [.advance]

/-- **An edited fader is not heard.** The quantum after the edit is played from the new edition,
which sets the volume to 20 before the cursor, but the device was last set to 100. -/
theorem edited_fader_unheard :
    load (faded 100) {} = .ok (opening (fadedBeat 100))
      ∧ ∃ run, run = (opening (fadedBeat 100)).play fading
        ∧ run.playhead.seen = some run.desk.valid.serial
        ∧ lastSet? (run.desk.valid.edition.roll.window 0 run.playhead.position)
          (.controller 0 volumeController) = some 20
        ∧ lastSet? run.sent (.controller 0 volumeController) = some 100 := by
  refine ⟨load_eq_opening (compile_faded 100 (by simp)), _, rfl, ?_⟩
  have hrebuild : ((opening (fadedBeat 100)).play [.start 0, .advance]).play
      (rebuilding 0 (faded 20)) = _ := play_rebuilding rfl (compile_faded 20 (by simp))
  rw [fading, play_append, play_append, hrebuild]
  decide +kernel

end Performance

end ChordGrid
