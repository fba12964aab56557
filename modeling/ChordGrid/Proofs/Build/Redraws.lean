import ChordGrid.Proofs.Build.Sheets
import ChordGrid.Proofs.Build.Silence
import ChordGrid.Proofs.Roll.Sorting

/-!
# Building again

A build leaves notes behind its phrases, which no build reads, and its generators where their draws
ended. The next build draws on from there. So it succeeds or fails as the one before, and it makes
the same messages in the same order but for the pitches of what is drawn.
-/

namespace ChordGrid

/-- Notes that differ at most in a pitch, and only if it is drawn. -/
structure Note.Redrawn (drawn : Prop) (a b : Note) : Prop where
  tick : a.tick = b.tick
  gate : a.gate = b.gate
  velocity : a.velocity = b.velocity
  pitch : ¬ drawn → a.pitch = b.pitch

/-- Messages that differ at most in the pitch of a note, and only on a channel with draws. -/
inductive Message.Redrawn (drawn : Nat → Prop) : Message → Message → Prop
  | same (message : Message) : Redrawn drawn message message
  | noteOn {channel : Nat} (h : drawn channel) (pitch other velocity : Nat) :
      Redrawn drawn (.noteOn channel pitch velocity) (.noteOn channel other velocity)
  | noteOff {channel : Nat} (h : drawn channel) (pitch other : Nat) :
      Redrawn drawn (.noteOff channel pitch) (.noteOff channel other)

structure Timed.Redrawn (drawn : Nat → Prop) (a b : Timed) : Prop where
  tick : a.tick = b.tick
  message : a.message.Redrawn drawn b.message

theorem Message.Redrawn.rank_eq {drawn : Nat → Prop} {a b : Message} (h : a.Redrawn drawn b) :
    a.rank = b.rank := by
  cases h <;> rfl

theorem Message.Redrawn.eq_of_none {drawn : Nat → Prop} (hnone : ∀ channel, ¬ drawn channel)
    {a b : Message} (h : a.Redrawn drawn b) : a = b := by
  cases h with
  | same => rfl
  | noteOn hdrawn => exact absurd hdrawn (hnone _)
  | noteOff hdrawn => exact absurd hdrawn (hnone _)

namespace Timed.Redrawn

variable {drawn : Nat → Prop} {a b : Timed}

theorem refl (drawn : Nat → Prop) (timed : Timed) : timed.Redrawn drawn timed :=
  ⟨rfl, .same timed.message⟩

theorem order_eq (h : a.Redrawn drawn b) : a.order = b.order := by
  rw [order, order, h.tick, h.message.rank_eq]

theorem eq_of_none (hnone : ∀ channel, ¬ drawn channel) (h : a.Redrawn drawn b) : a = b :=
  congrArg₂ Timed.mk h.tick (h.message.eq_of_none hnone)

end Timed.Redrawn

/-! ### Notes -/

theorem Note.Redrawn.refl (drawn : Prop) (note : Note) : note.Redrawn drawn note :=
  ⟨rfl, rfl, rfl, fun _ => rfl⟩

section Notes

variable {drawn : Prop} {place : Placement}

theorem Generator.drawnNote_redrawn (hdrawn : drawn) {slot other : (Nat × Nat) × Step}
    (hcell : slot.1 = other.1) :
    (drawnNote place slot).Redrawn drawn (drawnNote place other) := by
  obtain ⟨cell, step⟩ := slot
  obtain ⟨_, redrawn⟩ := other
  cases hcell
  exact ⟨rfl, rfl, rfl, fun hnot => absurd hdrawn hnot⟩

theorem Generator.notes_redrawn (hdrawn : drawn) {g g' : Generator} (h : g.SameCycle g')
    (place : Placement) :
    Agree (List.Forall₂ (Note.Redrawn drawn)) (g.notes place).1 (g'.notes place).1 := by
  cases hsteps : g.steps? (slots place).length with
  | none =>
      cases hredrawn : g'.steps? (slots place).length with
      | none =>
          rw [notes_of_endless hsteps, notes_of_endless hredrawn]
          exact .error _
      | some redrawn =>
          obtain ⟨other, hother⟩ := h.symm.exists_steps hredrawn
          cases hsteps.symm.trans hother
  | some steps =>
      obtain ⟨redrawn, hredrawn⟩ := h.exists_steps hsteps
      have hcells : List.Forall₂ (fun slot other => slot.1 = other.1)
          ((slots place).zip steps.1) ((slots place).zip redrawn.1) := by
        have hfst : List.Forall₂ Eq (((slots place).zip steps.1).map Prod.fst)
            (((slots place).zip redrawn.1).map Prod.fst) := by
          rw [List.forall₂_eq_eq_eq, List.map_fst_zip (Nat.le_of_eq (of_steps? hsteps).1.symm),
            List.map_fst_zip (Nat.le_of_eq (of_steps? hredrawn).1.symm)]
        rwa [List.forall₂_map_left_iff, List.forall₂_map_right_iff] at hfst
      rw [notes_of_steps? hsteps, notes_of_steps? hredrawn]
      apply Agree.ok
      rw [List.forall₂_map_left_iff, List.forall₂_map_right_iff]
      exact hcells.imp fun _ _ => drawnNote_redrawn hdrawn

theorem Content.SameSource.notes_redrawn {a b : Content} (h : a.SameSource b)
    (hdrawn : a.kind = .seque → drawn) (place : Placement) :
    Agree (List.Forall₂ (Note.Redrawn drawn)) (a.notes place).1 (b.notes place).1 := by
  cases h with
  | same =>
      apply (Agree.same _).imp
      intro notes _ hsame
      cases hsame
      exact List.forall₂_same.mpr fun note _ => .refl drawn note
  | seque hcycle => exact Generator.notes_redrawn (hdrawn rfl) hcycle place

theorem Phrase.inTime_redrawn {notes others : List Note}
    (h : List.Forall₂ (Note.Redrawn drawn) notes others) :
    List.Forall₂ (Note.Redrawn drawn) (inTime notes) (inTime others) := by
  have hsorted : ∀ list : List Note, inTime list = sortedBy Note.tick list := fun _ => rfl
  rw [hsorted, hsorted]
  apply forall₂_sortedBy h
  intro a b hab c d hcd
  rw [hab.tick, hcd.tick]

theorem Phrase.SameSheet.play_redrawn {a b : Phrase} (h : a.SameSheet b) {position : Nat}
    {tonality : Tonality} {pattern : Pattern}
    (hdrawn : a.kind = .seque → a.name = pattern.name → drawn) :
    Agree (List.Forall₂ (Note.Redrawn drawn)) (a.play position tonality pattern).1
      (b.play position tonality pattern).1 := by
  rw [fst_play, fst_play, ← h.name, ← h.placement_eq]
  by_cases hname : a.name = pattern.name
  · rw [if_neg (not_not.mpr hname), if_neg (not_not.mpr hname)]
    have hcontent := h.content.notes_redrawn (fun hkind => hdrawn hkind hname)
      (a.placement position tonality pattern)
    exact hcontent.map fun _ _ => inTime_redrawn
  · rw [if_pos hname, if_pos hname]
    exact .ok .nil

end Notes

/-! ### Parts -/

def Phrase.IsDrawnAt (phrase : Phrase) (occurrence : Occurrence) : Prop :=
  phrase.kind = .seque ∧ phrase.name = occurrence.pattern.name

/-- Phrases with one sheet, of which nothing is drawn at some occurrences unless draws are
allowed. -/
structure Phrase.Again (drawn : Prop) (occurrences : List Occurrence) (a b : Phrase) : Prop where
  sheet : a.SameSheet b
  drawn : ∀ occurrence ∈ occurrences, a.IsDrawnAt occurrence → drawn

theorem Phrase.Again.play {drawn : Prop} {occurrences : List Occurrence} {a b : Phrase}
    (h : Again drawn occurrences a b) (position : Nat) (tonality : Tonality) (pattern : Pattern) :
    Again drawn occurrences (a.play position tonality pattern).2
      (b.play position tonality pattern).2 := by
  have hleft := SameSheet.play a position tonality pattern
  have hright := SameSheet.play b position tonality pattern
  refine ⟨hleft.symm.trans (h.sheet.trans hright), ?_⟩
  intro occurrence hoccurrence hdrawn
  rw [IsDrawnAt, ← hleft.kind, ← hleft.name] at hdrawn
  exact h.drawn occurrence hoccurrence hdrawn

namespace Part

variable {drawn : Nat → Prop} {channel : Nat} {tonality : Tonality} {occurrences : List Occurrence}
  {phrases others : List Phrase}

theorem strike_redrawn {a b : Note} (h : a.Redrawn (drawn channel) b) :
    List.Forall₂ (Timed.Redrawn drawn) (strike channel a) (strike channel b) := by
  have hend : a.tick + a.gate = b.tick + b.gate := by
    rw [h.tick, h.gate]
  by_cases hdrawn : drawn channel
  · rw [strike, strike, h.velocity]
    exact .cons ⟨h.tick, .noteOn hdrawn _ _ _⟩ (.cons ⟨hend, .noteOff hdrawn _ _⟩ .nil)
  · rw [strike, strike, h.velocity, h.pitch hdrawn]
    exact .cons ⟨h.tick, .same _⟩ (.cons ⟨hend, .same _⟩ .nil)

theorem playOccurrence_redrawn (channel : Nat) (tonality : Tonality)
    (hphrases : List.Forall₂ (Phrase.Again (drawn channel) occurrences) phrases others)
    {occurrence : Occurrence} (hoccurrence : occurrence ∈ occurrences) :
    Agree (List.Forall₂ (Timed.Redrawn drawn))
        (playOccurrence channel tonality occurrence phrases).1
        (playOccurrence channel tonality occurrence others).1
      ∧ List.Forall₂ (Phrase.Again (drawn channel) occurrences)
        (playOccurrence channel tonality occurrence phrases).2
        (playOccurrence channel tonality occurrence others).2 := by
  have hplay : ∀ a b, Phrase.Again (drawn channel) occurrences a b →
      Agree (List.Forall₂ (Note.Redrawn (drawn channel)))
          (a.play occurrence.start tonality occurrence.pattern).1
          (b.play occurrence.start tonality occurrence.pattern).1
        ∧ Phrase.Again (drawn channel) occurrences
          (a.play occurrence.start tonality occurrence.pattern).2
          (b.play occurrence.start tonality occurrence.pattern).2 := by
    intro a b h
    refine ⟨h.sheet.play_redrawn ?_, h.play occurrence.start tonality occurrence.pattern⟩
    intro hkind hname
    exact h.drawn occurrence hoccurrence ⟨hkind, hname⟩
  obtain ⟨hmade, hafter⟩ := Agree.sweep _ _ hphrases hplay
  refine ⟨hmade.map ?_, hafter⟩
  intro lists redrawn hlists
  exact List.rel_flatMap (List.rel_flatten hlists) fun _ _ => strike_redrawn

theorem playOccurrences_redrawn {some : List Occurrence}
    (hsome : ∀ occurrence ∈ some, occurrence ∈ occurrences)
    (hphrases : List.Forall₂ (Phrase.Again (drawn channel) occurrences) phrases others) :
    Agree (List.Forall₂ (Timed.Redrawn drawn)) (playOccurrences channel tonality some phrases).1
      (playOccurrences channel tonality some others).1 := by
  induction some generalizing phrases others with
  | nil => exact .ok .nil
  | cons occurrence rest ih =>
      obtain ⟨hfirst, hrest⟩ := List.forall_mem_cons.mp hsome
      obtain ⟨hmade, hafter⟩ := playOccurrence_redrawn channel tonality hphrases hfirst
      rw [playOccurrences, playOccurrences]
      generalize playOccurrence channel tonality occurrence phrases = outcome at hmade hafter ⊢
      generalize playOccurrence channel tonality occurrence others = redrawn at hmade hafter ⊢
      obtain ⟨made, after⟩ := outcome
      obtain ⟨remade, afterwards⟩ := redrawn
      dsimp only at hmade hafter ⊢
      cases hmade with
      | error fault => exact .error fault
      | ok hlists =>
          apply (ih hrest hafter).map
          intro more others hmore
          exact List.rel_append hlists hmore

theorem SameSheets.selection_eq {part other : Part} (h : part.SameSheets other) (start : Nat) :
    part.selection start = other.selection start := by
  have hempty : ∀ {phrases others : List Phrase}, List.Forall₂ Phrase.SameSheet phrases others →
      phrases.isEmpty = others.isEmpty := by
    intro phrases others hsheets
    cases hsheets <;> rfl
  rw [selection, selection, hempty h.phrases, h.channel, h.program]

variable {timeline : Timeline} {tick : Nat} {mode : BuildMode}

theorem SameSheets.build_redrawn {part other : Part} (h : part.SameSheets other)
    (hdrawn : ∀ phrase ∈ part.phrases, ∀ occurrence ∈ timeline.startingFrom (mode.start tick),
      phrase.IsDrawnAt occurrence → drawn part.channel) :
    Agree (List.Forall₂ (Timed.Redrawn drawn)) (part.build timeline tick mode).1
      (other.build timeline tick mode).1 := by
  rw [fst_build, fst_build, ← h.selection_eq, ← h.channel]
  have hphrases : List.Forall₂
      (Phrase.Again (drawn part.channel) (timeline.startingFrom (mode.start tick)))
      part.phrases other.phrases := by
    have hboth := (List.forall₂_and_left _ _).mpr ⟨hdrawn, h.phrases⟩
    exact hboth.imp fun _ _ hpair => ⟨hpair.2, hpair.1⟩
  apply (playOccurrences_redrawn (fun _ hmem => hmem) hphrases).map
  intro made remade hmade
  exact List.rel_append (List.forall₂_same.mpr fun timed _ => .refl _ timed) hmade

end Part

theorem mixdown_eq_of_sameSheets (faders : List Fader) {parts others : List Part}
    (h : List.Forall₂ Part.SameSheets parts others) :
    mixdown faders parts = mixdown faders others := by
  have hsame : List.Forall₂ Eq (mixdown faders parts) (mixdown faders others) := by
    apply List.rel_flatMap (List.forall₂_same.mpr fun fader _ => Eq.refl fader)
    intro fader _ hfader
    cases hfader
    apply List.rel_flatMap
    · apply List.rel_filter _ h
      intro part other hsheets
      simp only [hsheets.kind]
    · intro part other hsheets
      dsimp only
      rw [hsheets.channel, List.forall₂_eq_eq_eq]
  rwa [List.forall₂_eq_eq_eq] at hsame

/-! ### Arrangements -/

namespace Arrangement

/-- Some part on the channel has a generated phrase that is called from `start` on. -/
def DrawsOn (arrangement : Arrangement) (start channel : Nat) : Prop :=
  ∃ part ∈ arrangement.parts, part.channel = channel ∧ ∃ phrase ∈ part.phrases,
    ∃ occurrence ∈ arrangement.timeline.startingFrom start, phrase.IsDrawnAt occurrence

theorem messages_redrawn (arrangement : Arrangement) (tick : Nat) (mode : BuildMode) :
    Agree (List.Forall₂ (Timed.Redrawn (arrangement.DrawsOn (mode.start tick))))
      (arrangement.messages tick mode).1
      ((arrangement.messages tick mode).2.messages tick mode).1 := by
  have hparts : List.Forall₂ Part.SameSheets arrangement.parts
      (arrangement.messages tick mode).2.parts :=
    forall₂_sweep_snd Part.SameSheets.refl
      (fun part => .build part arrangement.timeline tick mode) arrangement.parts
  have hmembers : List.Forall₂ (fun part other => part ∈ arrangement.parts ∧ part.SameSheets other)
      arrangement.parts (arrangement.messages tick mode).2.parts :=
    (List.forall₂_and_left _ _).mpr ⟨fun _ hmem => hmem, hparts⟩
  have hbuilds : Agree
      (List.Forall₂ (List.Forall₂ (Timed.Redrawn (arrangement.DrawsOn (mode.start tick)))))
      (arrangement.parts.mapM fun part => (part.build arrangement.timeline tick mode).1)
      ((arrangement.messages tick mode).2.parts.mapM
        fun part => (part.build arrangement.timeline tick mode).1) := by
    apply Agree.mapM hmembers
    intro part other hpair
    apply hpair.2.build_redrawn
    intro phrase hphrase occurrence hoccurrence hdrawn
    exact ⟨part, hpair.1, rfl, phrase, hphrase, occurrence, hoccurrence, hdrawn⟩
  rw [← sweep_fst, ← sweep_fst] at hbuilds
  apply hbuilds.map
  intro lists redrawn hlists
  apply List.rel_append _ (List.rel_flatten hlists)
  rw [mixdown_eq_of_sameSheets arrangement.faders hparts]
  exact List.forall₂_same.mpr fun timed _ => .refl _ timed

/-- **A build after a build.** Right after a build another one succeeds or fails as it did. Their
rolls have the same messages in the same order, except that notes on channels with draws may have
other pitches. Without draws the rolls are equal. -/
theorem build_again (arrangement : Arrangement) (tick : Nat) (mode : BuildMode) :
    Agree (fun roll again =>
        List.Forall₂ (Timed.Redrawn (arrangement.DrawsOn (mode.start tick))) roll.stream
            again.stream
          ∧ ((∀ channel, ¬ arrangement.DrawsOn (mode.start tick) channel) → again = roll))
      (arrangement.build tick mode).1 ((arrangement.build tick mode).2.build tick mode).1 := by
  apply (arrangement.messages_redrawn tick mode).map
  intro messages redrawn hredrawn
  constructor
  · rw [Roll.stream_ofMessages, Roll.stream_ofMessages]
    apply forall₂_sortedBy hredrawn
    intro a b hab c d hcd
    rw [hab.order_eq, hcd.order_eq]
  · intro hnone
    have hsame : List.Forall₂ Eq messages redrawn :=
      hredrawn.imp fun _ _ hab => hab.eq_of_none hnone
    rw [List.forall₂_eq_eq_eq] at hsame
    rw [hsame]

end Arrangement

/-! ### A generated phrase alone -/

def soloScore : Score where
  song := { name := "", tempo := none, key := "C", mode := "Ion", order := ["a"] }
  patterns := [⟨"a", "I| | | "⟩]
  phrases := [{ kind := "seque", name := "a" }]
  parts := [⟨"seque", 0, "0"⟩]
  faders := []

/-- The arrangement of the song with its generator in some state and some notes behind its
phrase. -/
def soloFrom (g : Generator) (notes : List Note) : Arrangement where
  timeline := .ofPatterns tonicMeasure.tonality .standard [tonicMeasure.pattern]
  parts := [⟨0, .instrument 0, .seque, [⟨"a", .seque g, .standard, 127, notes⟩]⟩]
  faders := []
  tempo := 120

def soloRoll (notes : List Note) : Roll :=
  .ofMessages (⟨0, .program 0 0⟩ :: (Phrase.inTime notes).flatMap (Part.strike 0))

theorem build_soloFrom {g after : Generator} {notes : List Note}
    (hnotes : g.notes tonicMeasure = (.ok notes, after)) (behind : List Note) :
    (soloFrom g behind).build 0 .playback
      = (.ok (soloRoll notes), soloFrom after (behind ++ Phrase.inTime notes)) := by
  have hplay : Phrase.play ⟨"a", .seque g, .standard, 127, behind⟩ 0 tonicMeasure.tonality
      tonicMeasure.pattern = (.ok (Phrase.inTime notes),
        ⟨"a", .seque after, .standard, 127, behind ++ Phrase.inTime notes⟩) := by
    have hplace : Phrase.placement ⟨"a", .seque g, .standard, 127, behind⟩ 0 tonicMeasure.tonality
        tonicMeasure.pattern = tonicMeasure := rfl
    have hname : ¬ "a" ≠ tonicMeasure.pattern.name := not_not.mpr rfl
    rw [Phrase.play_eq, if_neg hname, hplace]
    simp only [Content.notes, hnotes]
  have hplayed : Part.playOccurrences 0 tonicMeasure.tonality [⟨tonicMeasure.pattern, 0⟩]
      [⟨"a", .seque g, .standard, 127, behind⟩]
        = (.ok ((Phrase.inTime notes).flatMap (Part.strike 0)),
          [⟨"a", .seque after, .standard, 127, behind ++ Phrase.inTime notes⟩]) := by
    simp only [Part.playOccurrences, Part.playOccurrence, sweep, hplay, Except.map,
      List.flatten_cons, List.flatten_nil, List.append_nil]
  have hpart : Part.build ⟨0, .instrument 0, .seque, [⟨"a", .seque g, .standard, 127, behind⟩]⟩
      (soloFrom g behind).timeline 0 .playback
        = (.ok (⟨0, .program 0 0⟩ :: (Phrase.inTime notes).flatMap (Part.strike 0)),
          ⟨0, .instrument 0, .seque,
            [⟨"a", .seque after, .standard, 127, behind ++ Phrase.inTime notes⟩]⟩) := by
    have hstart : (soloFrom g behind).timeline.startingFrom (BuildMode.start .playback 0)
        = [⟨tonicMeasure.pattern, 0⟩] := rfl
    have htonality : (soloFrom g behind).timeline.tonality = tonicMeasure.tonality := rfl
    refine (if_neg Bool.false_ne_true).trans ?_
    simp only [hstart, htonality, hplayed]
    rfl
  have hparts : sweep (fun part => part.build (soloFrom g behind).timeline 0 .playback)
      (soloFrom g behind).parts
        = (.ok [⟨0, .program 0 0⟩ :: (Phrase.inTime notes).flatMap (Part.strike 0)],
          (soloFrom after (behind ++ Phrase.inTime notes)).parts) := by
    change sweep _ [_] = _
    rw [sweep, hpart]
    rfl
  rw [Arrangement.build, Arrangement.messages, hparts]
  exact congrArg (fun messages => (Except.ok (Roll.ofMessages messages),
    soloFrom after (behind ++ Phrase.inTime notes))) (List.append_nil _)

theorem mem_soloRoll {notes : List Note} {timed : Timed}
    (hnote : ¬ timed.message.isSetup = true) :
    timed ∈ (soloRoll notes).stream ↔ timed ∈ notes.flatMap (Part.strike 0) := by
  have hselect : timed ≠ ⟨0, .program 0 0⟩ := by
    intro heq
    rw [heq] at hnote
    exact hnote rfl
  rw [soloRoll, Roll.mem_stream_ofMessages, List.mem_cons, or_iff_right hselect]
  simp only [List.mem_flatMap, Phrase.inTime, List.mem_mergeSort]

/-- The second build of the song does not begin with the note that the first one begins with. -/
theorem second_build_differs :
    ∃ arrangement roll again, soloScore.compile {} = .ok arrangement
      ∧ (arrangement.build 0 .playback).1 = .ok roll
      ∧ ((arrangement.build 0 .playback).2.build 0 .playback).1 = .ok again
      ∧ again ≠ roll := by
  have hcompile : soloScore.compile {} = .ok (soloFrom (.ofSeed 0) []) :=
    eq_ok_of_toOption (by decide +kernel)
  obtain ⟨notes, hnotes, hstruck⟩ : ∃ notes, ((Generator.ofSeed 0).notes tonicMeasure).1 = .ok notes
      ∧ decide (⟨0, .noteOn 0 64 127⟩ ∈ notes.flatMap (Part.strike 0)) = true :=
    exists_ok_of_any (by decide +kernel)
  obtain ⟨redrawn, hredrawn, hmissing⟩ : ∃ redrawn,
      (((Generator.ofSeed 0).notes tonicMeasure).2.notes tonicMeasure).1 = .ok redrawn
      ∧ decide (⟨0, .noteOn 0 64 127⟩ ∉ redrawn.flatMap (Part.strike 0)) = true :=
    exists_ok_of_any (by decide +kernel)
  have hfirst := build_soloFrom (Prod.ext hnotes rfl) []
  have hsecond : (((soloFrom (.ofSeed 0) []).build 0 .playback).2.build 0 .playback).1
      = .ok (soloRoll redrawn) := by
    rw [hfirst, build_soloFrom (Prod.ext hredrawn rfl)]
  refine ⟨_, _, soloRoll redrawn, hcompile, congrArg Prod.fst hfirst, hsecond, ?_⟩
  intro hsame
  have hattack := (mem_soloRoll (by decide)).mpr (of_decide_eq_true hstruck)
  rw [← hsame, mem_soloRoll (by decide)] at hattack
  exact of_decide_eq_true hmissing hattack

end ChordGrid
