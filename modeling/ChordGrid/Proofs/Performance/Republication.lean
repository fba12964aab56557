import ChordGrid.Proofs.Live.Rebuild
import ChordGrid.Proofs.Performance.Basic

/-!
# Publishing the same score again

A score that is rebuilt while it plays is published as a new edition even if nothing in it has
changed, and the playhead then releases every sounding key that the edition does not release before
it strikes it again. Most often there is none, and the rebuild is not heard. But voices may overlap
on one key: a key that is struck again while it sounds has an attack as its next message, so the
rebuild sends a release that the run without it does not send.

The main result compares a run with the same run less its rebuilds. They send the same exactly when,
at each rebuild right before a quantum, every sounding key has its release as its next message.
-/

namespace ChordGrid

open Live

/-- What goes on while one score is played and rebuilt. -/
inductive Turn where
  | advance
  | rebuild
  deriving DecidableEq

/-- The quanta among some turns. -/
def quanta (turns : List Turn) : List Turn :=
  turns.filter (· ≠ .rebuild)

@[simp]
theorem quanta_concat_advance (turns : List Turn) :
    quanta (turns ++ [.advance]) = quanta turns ++ [.advance] := by
  simp [quanta]

@[simp]
theorem quanta_concat_rebuild (turns : List Turn) :
    quanta (turns ++ [.rebuild]) = quanta turns := by
  simp [quanta]

namespace Performance

def turn (score : Score) (performance : Performance) : Turn → Performance
  | .advance => performance.take .advance
  | .rebuild => { performance with desk := (performance.desk.rebuild score).2 }

def turns (performance : Performance) (score : Score) (turns : List Turn) : Performance :=
  turns.foldl (turn score) performance

/-- Every sounding key has its release as its next message in the valid edition. -/
def AwaitsReleases (performance : Performance) : Prop :=
  ∀ key ∈ performance.playhead.sounding,
    key.isReleasedBy performance.desk.valid.edition.roll performance.playhead.position = true

instance (performance : Performance) : Decidable performance.AwaitsReleases :=
  inferInstanceAs (Decidable (∀ _ ∈ _, _ = true))

def dropped (performance : Performance) : List KeyOn :=
  performance.playhead.orphans performance.desk.valid

/-- The last quantum, or the start, was played from the edition that is valid. -/
def IsCurrent (performance : Performance) : Prop :=
  performance.playhead.seen = some performance.desk.valid.serial

/-- The playhead is playing one edition, in whatever publication, and nobody is at the lock. -/
structure Steady (settings : Settings) (edition : Edition) (performance : Performance) : Prop where
  holder : performance.desk.holder = none
  settings_eq : performance.desk.settings = settings
  edition_eq : performance.desk.valid.edition = edition
  playing : performance.playhead.playing = true
  sounding : performance.playhead.sounding = KeyOn.afterAll [] performance.since
  seen_le : ∃ serial ≤ performance.desk.valid.serial, performance.playhead.seen = some serial

variable {score : Score} {settings : Settings} {edition : Edition} {performance : Performance}

theorem turns_concat (performance : Performance) (score : Score) (before : List Turn)
    (turn : Turn) :
    performance.turns score (before ++ [turn])
      = (performance.turns score before).turn score turn := by
  simp [turns]

theorem turn_rebuild (hholder : performance.desk.holder = none)
    (hcompile : Edition.compile score performance.desk.settings = .ok edition) :
    performance.turn score .rebuild
      = { performance with desk := performance.desk.rebuilt (.ok edition) } := by
  rw [turn, Desk.rebuild_eq hholder, hcompile]

/-! ### One turn -/

@[simp]
theorem playhead_turn_rebuild :
    (performance.turn score .rebuild).playhead = performance.playhead := by
  rw [turn]

@[simp]
theorem since_turn_rebuild : (performance.turn score .rebuild).since = performance.since := by
  rw [turn]

@[simp]
theorem former_turn_rebuild : (performance.turn score .rebuild).former = performance.former := by
  rw [turn]

theorem dropped_of_isCurrent (hcurrent : performance.IsCurrent) : performance.dropped = [] := by
  rw [dropped, Playhead.orphans, hcurrent]
  simp

section Turn

variable (hsteady : performance.Steady settings edition)

include hsteady

theorem Steady.advance : (performance.take .advance).Steady settings edition where
  holder := hsteady.holder
  settings_eq := hsteady.settings_eq
  edition_eq := hsteady.edition_eq
  playing := by simp [take, Playhead.advance, hsteady.playing]
  sounding := sounding_take_advance hsteady.sounding
  seen_le := ⟨performance.desk.valid.serial, Nat.le_refl _, by
    simp [take, Playhead.advance, hsteady.playing]⟩

theorem isCurrent_advance : (performance.take .advance).IsCurrent := by
  simp [IsCurrent, take, Playhead.advance, hsteady.playing]

theorem Steady.rebuild (hcompile : Edition.compile score settings = .ok edition) :
    (performance.turn score .rebuild).Steady settings edition := by
  rw [turn_rebuild hsteady.holder (hsteady.settings_eq ▸ hcompile)]
  obtain ⟨serial, hle, hseen⟩ := hsteady.seen_le
  exact ⟨hsteady.holder, hsteady.settings_eq, rfl, hsteady.playing, hsteady.sounding,
    serial, Nat.le_succ_of_le hle, hseen⟩

theorem not_isCurrent_rebuild (hcompile : Edition.compile score settings = .ok edition) :
    ¬ (performance.turn score .rebuild).IsCurrent := by
  rw [turn_rebuild hsteady.holder (hsteady.settings_eq ▸ hcompile)]
  obtain ⟨serial, hle, hseen⟩ := hsteady.seen_le
  intro hcurrent
  have hserial : some serial = some (performance.desk.valid.serial + 1) :=
    hseen.symm.trans hcurrent
  have := Option.some.inj hserial
  omega

theorem since_advance :
    (performance.take .advance).since
      = performance.since
        ++ performance.dropped.map
          (fun key => ⟨performance.playhead.position, .noteOff key.channel key.pitch⟩)
        ++ edition.roll.window performance.playhead.position
          performance.playhead.nextPosition := by
  simp [take, dropped, Playhead.advance, hsteady.playing, Delivery.sent, ← hsteady.edition_eq]

theorem dropped_eq_nil_iff (hother : ¬ performance.IsCurrent) :
    performance.dropped = [] ↔ performance.AwaitsReleases := by
  obtain ⟨serial, -, hseen⟩ := hsteady.seen_le
  have hne : serial ≠ performance.desk.valid.serial := by
    rintro rfl
    exact hother hseen
  rw [dropped, Playhead.orphans, hseen]
  simp only [if_neg hne, List.filter_eq_nil_iff, AwaitsReleases, Bool.not_eq_true,
    Bool.not_eq_false']

end Turn

/-! ### A run beside the same run less its rebuilds -/

section Turns

variable (hcompile : Edition.compile score settings = .ok edition)
  (hsteady : performance.Steady settings edition)

include hcompile hsteady

theorem steady_turns (turns : List Turn) :
    (performance.turns score turns).Steady settings edition := by
  induction turns using List.reverseRecOn with
  | nil => exact hsteady
  | append_singleton before turn ih =>
      rw [turns_concat]
      cases turn with
      | advance => exact ih.advance
      | rebuild => exact ih.rebuild hcompile

theorem position_turns (turns : List Turn) :
    (performance.turns score turns).playhead.position
        = (performance.turns score (quanta turns)).playhead.position
      ∧ (performance.turns score turns).playhead.resolution
        = (performance.turns score (quanta turns)).playhead.resolution := by
  induction turns using List.reverseRecOn with
  | nil => exact ⟨rfl, rfl⟩
  | append_singleton before turn ih =>
      obtain ⟨hposition, hresolution⟩ := ih
      cases turn with
      | advance =>
          have hplaying := (steady_turns hcompile hsteady before).playing
          have hplain := (steady_turns hcompile hsteady (quanta before)).playing
          rw [quanta_concat_advance, turns_concat, turns_concat]
          simp [turn, take, Playhead.advance, Playhead.nextPosition, hplaying, hplain, hposition,
            hresolution]
      | rebuild =>
          rw [quanta_concat_rebuild, turns_concat, playhead_turn_rebuild]
          exact ⟨hposition, hresolution⟩

theorem isCurrent_quanta (hcurrent : performance.IsCurrent) (turns : List Turn) :
    (performance.turns score (quanta turns)).IsCurrent := by
  induction turns using List.reverseRecOn with
  | nil => exact hcurrent
  | append_singleton before turn ih =>
      cases turn with
      | advance =>
          rw [quanta_concat_advance, turns_concat]
          exact isCurrent_advance (steady_turns hcompile hsteady _)
      | rebuild =>
          rw [quanta_concat_rebuild]
          exact ih

/-- One more quantum sends the same to the end with rebuilds and without, except that rebuilds may
have dropped some keys. -/
theorem since_turns_concat_advance (hcurrent : performance.IsCurrent) (before : List Turn) :
    ∃ window : List Timed,
      (performance.turns score (quanta before ++ [.advance])).since
          = (performance.turns score (quanta before)).since ++ window
        ∧ (performance.turns score (before ++ [.advance])).since
          = (performance.turns score before).since
            ++ (performance.turns score before).dropped.map
              (fun key => ⟨(performance.turns score before).playhead.position,
                .noteOff key.channel key.pitch⟩)
            ++ window := by
  obtain ⟨hposition, hresolution⟩ := position_turns hcompile hsteady before
  refine ⟨edition.roll.window (performance.turns score before).playhead.position
    (performance.turns score before).playhead.nextPosition, ?_, ?_⟩
  · rw [turns_concat, turn, since_advance (steady_turns hcompile hsteady _),
      dropped_of_isCurrent (isCurrent_quanta hcompile hsteady hcurrent before),
      Playhead.nextPosition, Playhead.nextPosition, hposition, hresolution, List.map_nil,
      List.append_nil]
  · rw [turns_concat, turn, since_advance (steady_turns hcompile hsteady _)]

theorem since_quanta_sublist (hcurrent : performance.IsCurrent) (turns : List Turn) :
    (performance.turns score (quanta turns)).since.Sublist
      (performance.turns score turns).since := by
  induction turns using List.reverseRecOn with
  | nil => exact List.Sublist.refl _
  | append_singleton before turn ih =>
      cases turn with
      | advance =>
          obtain ⟨window, hplain, hsince⟩ :=
            since_turns_concat_advance hcompile hsteady hcurrent before
          rw [quanta_concat_advance, hplain, hsince]
          exact (ih.trans (List.sublist_append_left _ _)).append_right window
      | rebuild =>
          rw [quanta_concat_rebuild, turns_concat, since_turn_rebuild]
          exact ih

theorem since_concat_advance_iff (hcurrent : performance.IsCurrent) (before : List Turn) :
    (performance.turns score (before ++ [.advance])).since
        = (performance.turns score (quanta before ++ [.advance])).since
      ↔ (performance.turns score before).since = (performance.turns score (quanta before)).since
        ∧ (performance.turns score before).dropped = [] := by
  obtain ⟨window, hplain, hsince⟩ := since_turns_concat_advance hcompile hsteady hcurrent before
  rw [hplain, hsince, List.append_left_inj]
  constructor
  · intro heq
    -- The run with rebuilds was not the shorter one before, so it has sent no release now.
    have hlength := congrArg List.length heq
    have hle := (since_quanta_sublist hcompile hsteady hcurrent before).length_le
    rw [List.length_append, List.length_map] at hlength
    have hnone := List.eq_nil_of_length_eq_zero
      (show (performance.turns score before).dropped.length = 0 by omega)
    rw [hnone, List.map_nil, List.append_nil] at heq
    exact ⟨heq, hnone⟩
  · rintro ⟨heq, hnone⟩
    rw [hnone, List.map_nil, List.append_nil, heq]

/-- While the two runs agree, a quantum drops no key exactly if none is dropped by the rebuild right
before it. -/
theorem dropped_turns_eq_nil_iff (hcurrent : performance.IsCurrent) {turns : List Turn}
    (hagree : (performance.turns score turns).since
      = (performance.turns score (quanta turns)).since) :
    (performance.turns score turns).dropped = []
      ↔ ∀ before, turns = before ++ [.rebuild] →
        (performance.turns score (quanta before)).AwaitsReleases := by
  have hsteadily := steady_turns hcompile hsteady turns
  have hplain := steady_turns hcompile hsteady (quanta turns)
  obtain rfl | ⟨before, last, rfl⟩ := List.eq_nil_or_concat' turns
  · exact iff_of_true (dropped_of_isCurrent hcurrent) (by simp)
  · cases last with
    | advance =>
        refine iff_of_true (dropped_of_isCurrent ?_) (by simp)
        rw [turns_concat]
        exact isCurrent_advance (steady_turns hcompile hsteady before)
    | rebuild =>
        have hother : ¬ (performance.turns score (before ++ [.rebuild])).IsCurrent := by
          rw [turns_concat]
          exact not_isCurrent_rebuild (steady_turns hcompile hsteady before) hcompile
        rw [dropped_eq_nil_iff hsteadily hother, AwaitsReleases, hsteadily.sounding,
          hsteadily.edition_eq, hagree, ← hplain.sounding, ← hplain.edition_eq,
          (position_turns hcompile hsteady _).1, quanta_concat_rebuild]
        constructor
        · intro hawaits found hfound
          obtain ⟨rfl, -⟩ := List.append_inj' hfound rfl
          exact hawaits
        · intro hawaits
          exact hawaits before rfl

end Turns

/-! ### Where a rebuild comes right before a quantum -/

theorem concat_eq_split_iff {turns before after : List Turn} {last : Turn} :
    turns ++ [last] = before ++ .rebuild :: .advance :: after
      ↔ (∃ former, after = former ++ [last]
          ∧ turns = before ++ .rebuild :: .advance :: former)
        ∨ after = [] ∧ last = .advance ∧ turns = before ++ [.rebuild] := by
  constructor
  · intro hsplit
    obtain rfl | ⟨former, other, rfl⟩ := List.eq_nil_or_concat' after
    · obtain ⟨hturns, hlast⟩ := List.append_inj' (show turns ++ [last]
        = (before ++ [.rebuild]) ++ [.advance] by rw [hsplit]; simp) rfl
      exact Or.inr ⟨rfl, List.singleton_inj.mp hlast, hturns⟩
    · obtain ⟨hturns, hlast⟩ := List.append_inj' (show turns ++ [last]
        = (before ++ .rebuild :: .advance :: former) ++ [other] by rw [hsplit]; simp) rfl
      exact Or.inl ⟨former, by rw [hlast], hturns⟩
  · rintro (⟨former, rfl, rfl⟩ | ⟨rfl, rfl, rfl⟩)
    · simp
    · simp

theorem forall_split_concat_rebuild {P : List Turn → Prop} {turns : List Turn} :
    (∀ before after, turns ++ [.rebuild] = before ++ .rebuild :: .advance :: after → P before)
      ↔ ∀ before after, turns = before ++ .rebuild :: .advance :: after → P before := by
  constructor
  · intro h before after hsplit
    exact h before (after ++ [.rebuild])
      (concat_eq_split_iff.mpr (Or.inl ⟨after, rfl, hsplit⟩))
  · intro h before after hsplit
    obtain ⟨former, -, hturns⟩ | ⟨-, hlast, -⟩ := concat_eq_split_iff.mp hsplit
    · exact h before former hturns
    · cases hlast

theorem forall_split_concat_advance {P : List Turn → Prop} {turns : List Turn} :
    (∀ before after, turns ++ [.advance] = before ++ .rebuild :: .advance :: after → P before)
      ↔ (∀ before after, turns = before ++ .rebuild :: .advance :: after → P before)
        ∧ ∀ before, turns = before ++ [.rebuild] → P before := by
  constructor
  · intro h
    refine ⟨fun before after hsplit => ?_, fun before hsplit => ?_⟩
    · exact h before (after ++ [.advance])
        (concat_eq_split_iff.mpr (Or.inl ⟨after, rfl, hsplit⟩))
    · exact h before [] (concat_eq_split_iff.mpr (Or.inr ⟨rfl, rfl, hsplit⟩))
  · rintro ⟨hformer, hlast⟩ before after hsplit
    obtain ⟨former, -, hturns⟩ | ⟨-, -, hturns⟩ := concat_eq_split_iff.mp hsplit
    · exact hformer before former hturns
    · exact hlast before hturns

/-- The two runs agree exactly if no rebuild that comes right before a quantum drops a key. -/
theorem since_turns_eq_iff (hcompile : Edition.compile score settings = .ok edition)
    (hsteady : performance.Steady settings edition) (hcurrent : performance.IsCurrent)
    (turns : List Turn) :
    (performance.turns score turns).since = (performance.turns score (quanta turns)).since
      ↔ ∀ before after, turns = before ++ .rebuild :: .advance :: after →
        (performance.turns score (quanta before)).AwaitsReleases := by
  induction turns using List.reverseRecOn with
  | nil => exact iff_of_true rfl (by simp)
  | append_singleton turns turn ih =>
      cases turn with
      | advance =>
          rw [quanta_concat_advance, since_concat_advance_iff hcompile hsteady hcurrent,
            forall_split_concat_advance, ← ih]
          constructor
          · rintro ⟨hagree, hnone⟩
            exact ⟨hagree, (dropped_turns_eq_nil_iff hcompile hsteady hcurrent hagree).mp hnone⟩
          · rintro ⟨hagree, hawaits⟩
            exact ⟨hagree, (dropped_turns_eq_nil_iff hcompile hsteady hcurrent hagree).mpr hawaits⟩
      | rebuild =>
          rw [quanta_concat_rebuild, forall_split_concat_rebuild, ← ih, turns_concat,
            since_turn_rebuild]

theorem former_turns (performance : Performance) (score : Score) (turns : List Turn) :
    (performance.turns score turns).former = performance.former := by
  induction turns using List.reverseRecOn with
  | nil => rfl
  | append_singleton before turn ih =>
      rw [turns_concat]
      cases turn with
      | advance => exact ih
      | rebuild => rw [former_turn_rebuild, ih]

theorem steady_start {opening : Performance} (hload : load score settings = .ok opening)
    (hcompile : Edition.compile score settings = .ok edition) (tick : Nat) :
    (opening.take (.start tick)).Steady settings edition
      ∧ (opening.take (.start tick)).IsCurrent := by
  obtain ⟨desk, playhead, hdesk, -, rfl⟩ := load_eq_ok_iff.mp hload
  obtain ⟨compiled, hcompiled, rfl⟩ := Desk.load_eq_ok_iff.mp hdesk
  cases hcompile.symm.trans hcompiled
  refine ⟨⟨rfl, rfl, rfl, rfl, ?_, 0, Nat.le_refl 0, rfl⟩, rfl⟩
  exact Playhead.sounding_start playhead ⟨0, edition⟩ tick

/-- **When a rebuild is not heard.** Play a score from any tick on, and rebuild the same score at
any points between the quanta. Every rebuild publishes, and nothing that the run without the
rebuilds sends is missing. All that is sent is what that run sends if and only if, at each rebuild
right before a quantum, every sounding key has its release as its next message. -/
theorem republication_unheard_iff {opening : Performance}
    (hload : load score settings = .ok opening) (tick : Nat) (turns : List Turn) :
    (((opening.take (.start tick)).turns score turns).desk.rebuild score).1 = true
      ∧ ((opening.take (.start tick)).turns score (quanta turns)).sent.Sublist
        ((opening.take (.start tick)).turns score turns).sent
      ∧ (((opening.take (.start tick)).turns score turns).sent
          = ((opening.take (.start tick)).turns score (quanta turns)).sent
        ↔ ∀ before after, turns = before ++ .rebuild :: .advance :: after →
          ((opening.take (.start tick)).turns score (quanta before)).AwaitsReleases) := by
  obtain ⟨desk, playhead, hdesk, -, -⟩ := load_eq_ok_iff.mp hload
  obtain ⟨edition, hcompile, -⟩ := Desk.load_eq_ok_iff.mp hdesk
  obtain ⟨hsteady, hcurrent⟩ := steady_start hload hcompile tick
  have hsteadily := steady_turns hcompile hsteady turns
  refine ⟨?_, ?_, ?_⟩
  · rw [Desk.rebuild_eq hsteadily.holder, hsteadily.settings_eq, hcompile]
    rfl
  · rw [sent, sent, former_turns, former_turns]
    exact (since_quanta_sublist hcompile hsteady hcurrent turns).append_left _
  · rw [sent, sent, former_turns, former_turns, List.append_right_inj]
    exact since_turns_eq_iff hcompile hsteady hcurrent turns

theorem republication_unheard_oneBeat :
    (((opening oneBeat).take (.start 0)).turns (pads ["1>>>"]) [.advance, .rebuild, .advance]).sent
      = (((opening oneBeat).take (.start 0)).turns (pads ["1>>>"]) [.advance, .advance]).sent := by
  obtain ⟨-, -, hunheard⟩ := republication_unheard_iff (load_eq_opening compile_oneBeat) 0
    [.advance, .rebuild, .advance]
  refine hunheard.mpr ?_
  intro before after hsplit
  obtain _ | ⟨first, _ | ⟨second, rest⟩⟩ := before
  · cases hsplit
  · cases hsplit
    decide +kernel
  · have hlength := congrArg List.length hsplit
    simp only [List.length_append, List.length_cons, List.length_nil] at hlength
    omega

/-- Two voices on one key: the second one strikes it again while the first one holds it. -/
def overlapping : Edition where
  roll := ⟨[⟨0, [.program 0 0, .noteOn 0 60 127]⟩, ⟨120, [.noteOn 0 60 127]⟩,
    ⟨240, [.noteOff 0 60]⟩, ⟨480, [.noteOff 0 60]⟩]⟩
  tempo := 120
  length := 1920

theorem compile_overlapping : Edition.compile (pads ["1>>>", "-1--"]) {} = .ok overlapping := by
  refine Edition.compile_of_messages
    [⟨0, .program 0 0⟩, ⟨0, .noteOn 0 60 127⟩, ⟨480, .noteOff 0 60⟩, ⟨120, .noteOn 0 60 127⟩,
      ⟨240, .noteOff 0 60⟩] ?_ (by decide +kernel)
  simp [overlapping, Roll.ofMessages, Roll.inTime, Roll.ranked, List.mergeSort, Roll.group,
    Message.rank]

/-- **A rebuild is heard.** The held key is struck again before it is released, so publishing the
same score once more releases it at once. -/
theorem republication_heard :
    load (pads ["1>>>", "-1--"]) {} = .ok (opening overlapping)
      ∧ (((opening overlapping).take (.start 0)).turns (pads ["1>>>", "-1--"])
          [.advance, .rebuild, .advance]).sent
        = [⟨0, .program 0 0⟩, ⟨0, .noteOn 0 60 127⟩, ⟨30, .noteOff 0 60⟩]
      ∧ (((opening overlapping).take (.start 0)).turns (pads ["1>>>", "-1--"])
          [.advance, .advance]).sent
        = [⟨0, .program 0 0⟩, ⟨0, .noteOn 0 60 127⟩] := by
  refine ⟨load_eq_opening compile_overlapping, ?_, by decide +kernel⟩
  have hrebuild : (((opening overlapping).take (.start 0)).take .advance).turn
      (pads ["1>>>", "-1--"]) .rebuild = _ := turn_rebuild rfl compile_overlapping
  change (((((opening overlapping).take (.start 0)).take .advance).turn
    (pads ["1>>>", "-1--"]) .rebuild).take .advance).sent = _
  rw [hrebuild]
  decide +kernel

end Performance

end ChordGrid
