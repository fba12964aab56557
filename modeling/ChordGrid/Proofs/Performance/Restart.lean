import ChordGrid.Proofs.Performance.Stranding

/-!
# What a start forgets

A start sends nothing but setup and empties the set of sounding keys, so a key that is held at that
moment is forgotten: the device goes on sounding it, and no new edition releases it any more. In
everything else the playhead remembers what it has sent. The invariant is that it knows the keys
which the messages since the last start have left held; what it can miss is a key held before that
start of which nothing was heard since.
-/

namespace ChordGrid

/-- The last of some messages that strikes or releases the key strikes it. -/
def KeyOn.HeldAfter (key : KeyOn) (messages : List Timed) : Prop :=
  ∃ velocity, lastNote? messages key.channel key.pitch
    = some (.noteOn key.channel key.pitch velocity)

theorem lastNote?_eq_none_of_setup {messages : List Timed}
    (hsetup : ∀ timed ∈ messages, timed.message.isSetup = true) (channel pitch : Nat) :
    lastNote? messages channel pitch = none := by
  cases hlast : lastNote? messages channel pitch with
  | none => rfl
  | some message =>
      obtain ⟨hnote, tick, hmem⟩ := mem_of_lastNote? hlast
      have hmessage : message.isSetup = true := hsetup _ hmem
      cases message with
      | noteOn c p velocity => cases hmessage
      | noteOff c p => cases hmessage
      | control c controller value => cases hnote
      | program c number => cases hnote

namespace KeyOn

variable {key : KeyOn} {messages more : List Timed}

theorem not_heldAfter_nil : ¬ key.HeldAfter [] := by
  intro hheld
  obtain ⟨velocity, hlast⟩ := hheld
  cases hlast

theorem heldAfter_append :
    key.HeldAfter (messages ++ more)
      ↔ key.HeldAfter more
        ∨ lastNote? more key.channel key.pitch = none ∧ key.HeldAfter messages := by
  unfold HeldAfter
  rw [lastNote?_append]
  cases lastNote? more key.channel key.pitch with
  | none => simp
  | some message => simp

theorem heldAfter_append_setup (hsetup : ∀ timed ∈ more, timed.message.isSetup = true) :
    key.HeldAfter (messages ++ more) ↔ key.HeldAfter messages := by
  have hnone := lastNote?_eq_none_of_setup hsetup key.channel key.pitch
  rw [heldAfter_append]
  constructor
  · intro hheld
    cases hheld with
    | inl hlater =>
        obtain ⟨velocity, hlast⟩ := hlater
        rw [hnone] at hlast
        cases hlast
    | inr hbefore => exact hbefore.2
  · intro hheld
    exact Or.inr ⟨hnone, hheld⟩

theorem mem_afterAll_nil : key ∈ afterAll [] messages ↔ key.HeldAfter messages := by
  rw [mem_afterAll, HeldAfter]
  cases hlast : lastNote? messages key.channel key.pitch with
  | none => simp
  | some message =>
      have hnote := (mem_of_lastNote? hlast).1
      cases message with
      | noteOn c p velocity =>
          obtain ⟨hchannel, hpitch⟩ := Message.isNoteOf_noteOn.mp hnote
          simp [Message.isAttack, hchannel, hpitch]
      | noteOff c p => simp [Message.isAttack]
      | control c controller value => cases hnote
      | program c number => cases hnote

end KeyOn

namespace Performance

/-- The playhead remembers each key that all it has sent has left held, and no other. -/
def RemembersAll (performance : Performance) : Prop :=
  ∀ key, key ∈ performance.playhead.sounding ↔ key.HeldAfter performance.sent

/-- The key was held at the last start, and nothing was heard of it since. -/
def HasForgotten (performance : Performance) (key : KeyOn) : Prop :=
  key.HeldAfter performance.former
    ∧ lastNote? performance.since key.channel key.pitch = none

variable {performance : Performance} {key : KeyOn}

theorem mem_sounding_iff (hsound : performance.Sound) :
    key ∈ performance.playhead.sounding
      ↔ key.HeldAfter performance.sent ∧ ¬ performance.HasForgotten key := by
  rw [hsound.sounding, KeyOn.mem_afterAll_nil, sent, KeyOn.heldAfter_append]
  constructor
  · intro hsince
    refine ⟨Or.inl hsince, ?_⟩
    intro hforgotten
    obtain ⟨velocity, hlast⟩ := hsince
    rw [hforgotten.2] at hlast
    cases hlast
  · intro hheld
    obtain ⟨hsince | hformer, hremembered⟩ := hheld
    · exact hsince
    · exact absurd ⟨hformer.2, hformer.1⟩ hremembered

theorem remembersAll_of_silent_former (hsound : performance.Sound)
    (hformer : ∀ key : KeyOn, ¬ key.HeldAfter performance.former) : performance.RemembersAll := by
  intro key
  rw [mem_sounding_iff hsound]
  constructor
  · exact And.left
  · intro hheld
    refine ⟨hheld, ?_⟩
    intro hforgotten
    exact hformer key hforgotten.1

/-- Right after a start nothing is remembered, and what was held before it is held on. -/
theorem remembersAll_start_iff (tick : Nat) :
    (performance.take (.start tick)).RemembersAll
      ↔ ∀ key : KeyOn, ¬ key.HeldAfter performance.sent := by
  have hsent : (performance.take (.start tick)).sent
      = performance.sent ++ (performance.playhead.start performance.desk.valid tick).1 := rfl
  have hsounding : (performance.take (.start tick)).playhead.sounding = [] := rfl
  have hsetup : ∀ timed ∈ (performance.playhead.start performance.desk.valid tick).1,
      timed.message.isSetup = true :=
    fun _ htimed => Playhead.setup_of_mem_start _ _ htimed
  unfold RemembersAll
  rw [hsent, hsounding]
  apply forall_congr'
  intro key
  rw [KeyOn.heldAfter_append_setup hsetup]
  simp

theorem silent_former_of_silent_starts {score : Score} {settings : Settings} {opening : Performance}
    (hload : load score settings = .ok opening) {cues : List Cue}
    (hstarts : ∀ earlier tick, earlier ++ [.start tick] <+: cues →
      ∀ key : KeyOn, ¬ key.HeldAfter (opening.play earlier).sent) :
    ∀ key : KeyOn, ¬ key.HeldAfter (opening.play cues).former := by
  induction cues using List.reverseRecOn with
  | nil =>
      obtain ⟨desk, playhead, -, -, rfl⟩ := load_eq_ok_iff.mp hload
      exact fun _ => KeyOn.not_heldAfter_nil
  | append_singleton cues cue ih =>
      have hearlier : ∀ earlier tick, earlier ++ [.start tick] <+: cues →
          ∀ key : KeyOn, ¬ key.HeldAfter (opening.play earlier).sent := by
        intro earlier tick hinitial
        exact hstarts earlier tick (hinitial.trans (List.prefix_append cues [cue]))
      rw [play_concat]
      cases cue with
      | start tick => exact hstarts cues tick (List.prefix_refl _)
      | advance => exact ih hearlier
      | edit move => exact ih hearlier

/-- **What the playhead knows to sound.** After any cues the playhead remembers a key exactly if the
last message that struck or released it struck it, unless this was before the last start. So it
remembers all keys that are held, at every moment of a performance, exactly if every start in it
finds no key held. -/
theorem sounding_but_for_restarts {score : Score} {settings : Settings} {opening : Performance}
    (hload : load score settings = .ok opening) (cues : List Cue) :
    (∀ key, key ∈ (opening.play cues).playhead.sounding
        ↔ key.HeldAfter (opening.play cues).sent ∧ ¬ (opening.play cues).HasForgotten key)
      ∧ ((∀ earlier, earlier <+: cues → (opening.play earlier).RemembersAll)
        ↔ ∀ earlier tick, earlier ++ [.start tick] <+: cues →
          ∀ key : KeyOn, ¬ key.HeldAfter (opening.play earlier).sent) := by
  refine ⟨fun key => mem_sounding_iff (sound_play hload cues), ?_⟩
  constructor
  · intro hremembers earlier tick hinitial
    have hstart := hremembers (earlier ++ [.start tick]) hinitial
    rw [play_concat] at hstart
    exact (remembersAll_start_iff tick).mp hstart
  · intro hstarts earlier hinitial
    apply remembersAll_of_silent_former (sound_play hload earlier)
    apply silent_former_of_silent_starts hload
    intro before tick hbefore
    exact hstarts before tick (hbefore.trans hinitial)

/-- A key is struck, and the playhead starts again one quantum later, while the key is held. -/
def restarting : List Cue :=
  [.start 0, .advance, .start 30, .advance]

theorem heldAfter_restarting :
    (⟨0, 60⟩ : KeyOn).HeldAfter ((opening oneBeat).play restarting).sent := by
  refine ⟨127, ?_⟩
  decide +kernel

theorem sounding_but_for_restarts_held :
    load (pads ["1>>>"]) {} = .ok (opening oneBeat)
      ∧ ((opening oneBeat).play restarting).HasForgotten ⟨0, 60⟩ := by
  have hload : load (pads ["1>>>"]) {} = .ok (opening oneBeat) := load_eq_opening compile_oneBeat
  refine ⟨hload, ?_⟩
  obtain ⟨hsounding, -⟩ := sounding_but_for_restarts hload restarting
  by_contra hremembered
  have hmem := (hsounding ⟨0, 60⟩).mpr ⟨heldAfter_restarting, hremembered⟩
  revert hmem
  decide +kernel

/-- **A start forgets a held key.** The key was struck and never released, and the playhead does not
know that it sounds. -/
theorem held_key_forgotten :
    load (pads ["1>>>"]) {} = .ok (opening oneBeat)
      ∧ (⟨0, 60⟩ : KeyOn).HeldAfter ((opening oneBeat).play restarting).sent
      ∧ (⟨0, 60⟩ : KeyOn) ∉ ((opening oneBeat).play restarting).playhead.sounding := by
  refine ⟨load_eq_opening compile_oneBeat, heldAfter_restarting, ?_⟩
  decide +kernel

end Performance

end ChordGrid
