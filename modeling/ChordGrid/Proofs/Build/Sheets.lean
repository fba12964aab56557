import ChordGrid.Proofs.Agreement
import ChordGrid.Proofs.Build.Drawing
import ChordGrid.Proofs.Generator

/-!
# The sheet of a phrase

Playing adds to the notes behind a phrase and moves its generator on. All else stays as it was: that
is the sheet the phrase is played from. What is not drawn depends on the sheet alone, so a part that
draws nothing plays each occurrence as if it were the first, and in any order of builds.
-/

namespace ChordGrid

/-! ### Phrases -/

/-- Contents that differ at most in how far a generator has gone round its cycle. -/
inductive Content.SameSource : Content → Content → Prop
  | same (content : Content) : SameSource content content
  | seque {g g' : Generator} (h : g.SameCycle g') : SameSource (.seque g) (.seque g')

namespace Content.SameSource

variable {a b c : Content}

theorem symm (h : a.SameSource b) : b.SameSource a := by
  cases h with
  | same => exact .same a
  | seque hcycle => exact .seque hcycle.symm

theorem trans (h : a.SameSource b) (hnext : b.SameSource c) : a.SameSource c := by
  cases h with
  | same => exact hnext
  | seque hcycle =>
      cases hnext with
      | same => exact .seque hcycle
      | seque hmore => exact .seque (hcycle.trans hmore)

theorem kind (h : a.SameSource b) : a.kind = b.kind := by
  cases h with
  | same => rfl
  | seque hcycle => rfl

theorem notes (content : Content) (place : Placement) :
    content.SameSource (content.notes place).2 := by
  cases content with
  | drum lines => exact .same _
  | pad lines => exact .same _
  | bass line => exact .same _
  | seque g =>
      apply SameSource.seque
      split
      · exact .refl g
      · next hsteps => exact (Generator.of_steps? hsteps).2

end Content.SameSource

/-- Phrases that differ at most in the notes behind them and in how far they have drawn. -/
structure Phrase.SameSheet (a b : Phrase) : Prop where
  name : a.name = b.name
  resolution : a.resolution = b.resolution
  velocity : a.velocity = b.velocity
  content : a.content.SameSource b.content

namespace Phrase

theorem fst_play (phrase : Phrase) (position : Nat) (tonality : Tonality) (pattern : Pattern) :
    (phrase.play position tonality pattern).1
      = if phrase.name ≠ pattern.name then .ok []
        else (phrase.content.notes (phrase.placement position tonality pattern)).1.map inTime := by
  rw [play_eq]
  split
  · rfl
  · dsimp only
    cases (phrase.content.notes (phrase.placement position tonality pattern)).1 with
    | error fault => rfl
    | ok notes => rfl

theorem content_play (phrase : Phrase) (position : Nat) (tonality : Tonality) (pattern : Pattern) :
    (phrase.play position tonality pattern).2.content
      = if phrase.name ≠ pattern.name then phrase.content
        else (phrase.content.notes (phrase.placement position tonality pattern)).2 := by
  rw [play_eq]
  split
  · rfl
  · dsimp only
    split <;> rfl

namespace SameSheet

variable {a b c : Phrase} {position : Nat} {tonality : Tonality} {pattern : Pattern}

theorem refl (phrase : Phrase) : phrase.SameSheet phrase :=
  ⟨rfl, rfl, rfl, .same phrase.content⟩

theorem symm (h : a.SameSheet b) : b.SameSheet a :=
  ⟨h.name.symm, h.resolution.symm, h.velocity.symm, h.content.symm⟩

theorem trans (h : a.SameSheet b) (hnext : b.SameSheet c) : a.SameSheet c :=
  ⟨h.name.trans hnext.name, h.resolution.trans hnext.resolution, h.velocity.trans hnext.velocity,
    h.content.trans hnext.content⟩

theorem kind (h : a.SameSheet b) : a.kind = b.kind :=
  h.content.kind

theorem play (phrase : Phrase) (position : Nat) (tonality : Tonality) (pattern : Pattern) :
    phrase.SameSheet (phrase.play position tonality pattern).2 where
  name := (name_play phrase position tonality pattern).symm
  resolution := by
    rw [Phrase.play_eq]
    split
    · rfl
    · dsimp only
      split <;> rfl
  velocity := by
    rw [Phrase.play_eq]
    split
    · rfl
    · dsimp only
      split <;> rfl
  content := by
    rw [content_play]
    split
    · exact .same phrase.content
    · exact .notes phrase.content _

theorem placement_eq (h : a.SameSheet b) :
    a.placement position tonality pattern = b.placement position tonality pattern := by
  rw [placement, placement, h.resolution, h.velocity]

end SameSheet

/-- Notes that an occurrence may get from the sheet of a phrase, whatever is drawn. -/
def MayPlay (phrase : Phrase) (tonality : Tonality) (occurrence : Occurrence) (notes : List Note) :
    Prop :=
  ∃ played, phrase.SameSheet played
    ∧ (played.play occurrence.start tonality occurrence.pattern).1 = .ok notes

theorem MayPlay.of_sameSheet {a b : Phrase} {tonality : Tonality} {occurrence : Occurrence}
    {notes : List Note} (h : a.SameSheet b) (hnotes : b.MayPlay tonality occurrence notes) :
    a.MayPlay tonality occurrence notes := by
  obtain ⟨played, hsheet, hplayed⟩ := hnotes
  exact ⟨played, h.trans hsheet, hplayed⟩

end Phrase

/-! ### Parts -/

namespace Part

variable {channel : Nat} {tonality : Tonality} {phrases others : List Phrase}

theorem sameSheet_playOccurrence (channel : Nat) (tonality : Tonality) (occurrence : Occurrence)
    (phrases : List Phrase) :
    List.Forall₂ Phrase.SameSheet phrases (playOccurrence channel tonality occurrence phrases).2 :=
  forall₂_sweep_snd Phrase.SameSheet.refl
    (fun phrase => .play phrase occurrence.start tonality occurrence.pattern) phrases

theorem sameSheet_trans {between : List Phrase}
    (h : List.Forall₂ Phrase.SameSheet phrases between)
    (hnext : List.Forall₂ Phrase.SameSheet between others) :
    List.Forall₂ Phrase.SameSheet phrases others := by
  refine (forall₂_comp h hnext).imp ?_
  intro a c hrelated
  obtain ⟨b, hfirst, hsecond⟩ := hrelated
  exact hfirst.trans hsecond

theorem sameSheet_playOccurrences (occurrences : List Occurrence) (phrases : List Phrase) :
    List.Forall₂ Phrase.SameSheet phrases
      (playOccurrences channel tonality occurrences phrases).2 := by
  induction occurrences generalizing phrases with
  | nil => exact List.forall₂_same.mpr fun phrase _ => .refl phrase
  | cons occurrence rest ih =>
      have hfirst := sameSheet_playOccurrence channel tonality occurrence phrases
      rw [playOccurrences]
      cases hplayed : playOccurrence channel tonality occurrence phrases with
      | mk outcome after =>
          rw [hplayed] at hfirst
          cases outcome with
          | error fault => exact hfirst
          | ok made => exact sameSheet_trans hfirst (ih after)

/-- Parts that differ at most in what playing changes of their phrases. -/
structure SameSheets (a b : Part) : Prop where
  channel : a.channel = b.channel
  program : a.program = b.program
  kind : a.kind = b.kind
  phrases : List.Forall₂ Phrase.SameSheet a.phrases b.phrases

theorem SameSheets.refl (part : Part) : part.SameSheets part :=
  ⟨rfl, rfl, rfl, List.forall₂_same.mpr fun phrase _ => .refl phrase⟩

theorem SameSheets.build (part : Part) (timeline : Timeline) (tick : Nat) (mode : BuildMode) :
    part.SameSheets (part.build timeline tick mode).2 := by
  unfold Part.build
  split
  · exact .refl part
  · exact ⟨rfl, rfl, rfl, sameSheet_playOccurrences _ part.phrases⟩

theorem exists_table_of_playOccurrences {occurrences : List Occurrence} {made : List Timed}
    (hmade : (playOccurrences channel tonality occurrences phrases).1 = .ok made) :
    ∃ table, List.Forall₂ (fun occurrence row =>
        List.Forall₂ (fun phrase notes => phrase.MayPlay tonality occurrence notes) phrases row)
          occurrences table
      ∧ made = table.flatten.flatten.flatMap (strike channel) := by
  induction occurrences generalizing phrases made with
  | nil =>
      cases hmade
      exact ⟨[], .nil, rfl⟩
  | cons occurrence rest ih =>
      have hsheets := sameSheet_playOccurrence channel tonality occurrence phrases
      rw [playOccurrences] at hmade
      split at hmade
      · cases hmade
      · next first after hfirst =>
          rw [hfirst] at hsheets
          obtain ⟨row, hrow, hstruck⟩ := map_eq_ok_iff.mp (congrArg Prod.fst hfirst)
          obtain ⟨more, hmore, rfl⟩ := map_eq_ok_iff.mp hmade
          obtain ⟨table, htable, rfl⟩ := ih hmore
          refine ⟨row :: table, .cons ?_ (htable.imp ?_), ?_⟩
          · apply (sweep_eq_ok_iff.mp hrow).imp
            intro phrase notes hnotes
            exact ⟨phrase, .refl phrase, hnotes⟩
          · intro other later hlater
            apply (forall₂_comp hsheets hlater).imp
            intro phrase notes hnotes
            obtain ⟨played, hsheet, hplayed⟩ := hnotes
            exact hplayed.of_sameSheet hsheet
          · rw [← hstruck, List.flatten_cons, List.flatten_append, List.flatMap_append]

/-- What a part sends: its selection, and the strikes of a table of notes, with a row for each
occurrence and in it the notes of each phrase. -/
theorem exists_table_of_build {part : Part} {timeline : Timeline} {tick : Nat} {mode : BuildMode}
    {made : List Timed} (hmade : (part.build timeline tick mode).1 = .ok made) :
    ∃ table, List.Forall₂ (fun occurrence row =>
        List.Forall₂ (fun phrase notes => phrase.MayPlay timeline.tonality occurrence notes)
          part.phrases row) (timeline.startingFrom (mode.start tick)) table
      ∧ made = part.selection (mode.start tick)
        ++ table.flatten.flatten.flatMap (strike part.channel) := by
  rw [fst_build] at hmade
  obtain ⟨played, hplayed, rfl⟩ := map_eq_ok_iff.mp hmade
  obtain ⟨table, htable, rfl⟩ := exists_table_of_playOccurrences hplayed
  exact ⟨table, htable, rfl⟩

end Part

end ChordGrid
