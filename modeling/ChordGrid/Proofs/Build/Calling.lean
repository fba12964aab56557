import ChordGrid.Proofs.Agreement
import ChordGrid.Proofs.Build.Strikes
import ChordGrid.Proofs.Roll.Sorting

namespace ChordGrid

namespace Timeline

end Timeline

def Phrase.isCalled (names : List String) (phrase : Phrase) : Bool :=
  names.contains phrase.name

namespace Part

variable (channel : Nat) (tonality : Tonality) {names : List String}

theorem playOccurrence_filter {occurrence : Occurrence} (hcalled : occurrence.pattern.name ∈ names)
    (phrases : List Phrase) :
    (playOccurrence channel tonality occurrence (phrases.filter (Phrase.isCalled names))).1
        = (playOccurrence channel tonality occurrence phrases).1
      ∧ (playOccurrence channel tonality occurrence (phrases.filter (Phrase.isCalled names))).2
        = (playOccurrence channel tonality occurrence phrases).2.filter
          (Phrase.isCalled names) := by
  have hsilent : ∀ phrase : Phrase, Phrase.isCalled names phrase = false →
      phrase.play occurrence.start tonality occurrence.pattern = (.ok [], phrase) := by
    intro phrase hphrase
    have hne : phrase.name ≠ occurrence.pattern.name := by
      intro heq
      rw [Phrase.isCalled, heq, List.contains_iff_mem.mpr hcalled] at hphrase
      cases hphrase
    exact if_pos hne
  have hkeep : ∀ phrase : Phrase,
      Phrase.isCalled names (phrase.play occurrence.start tonality occurrence.pattern).2
        = Phrase.isCalled names phrase := by
    intro phrase
    rw [Phrase.isCalled, Phrase.name_play, ← Phrase.isCalled]
  obtain ⟨hmade, hafter⟩ := sweep_filter hsilent hkeep phrases
  refine ⟨Agree.eq (hmade.map ?_), hafter⟩
  intro lists others hlists
  rw [hlists]

theorem playOccurrences_filter {occurrences : List Occurrence}
    (hcalled : ∀ occurrence ∈ occurrences, occurrence.pattern.name ∈ names)
    (phrases : List Phrase) :
    (playOccurrences channel tonality occurrences (phrases.filter (Phrase.isCalled names))).1
      = (playOccurrences channel tonality occurrences phrases).1 := by
  induction occurrences generalizing phrases with
  | nil => rfl
  | cons occurrence rest ih =>
      obtain ⟨hfirst, hrest⟩ := List.forall_mem_cons.mp hcalled
      -- What is left out comes out of an occurrence as it went in, so it stays left out.
      obtain ⟨hmade, hafter⟩ := playOccurrence_filter channel tonality hfirst phrases
      rw [playOccurrences, playOccurrences]
      generalize playOccurrence channel tonality occurrence
        (phrases.filter (Phrase.isCalled names)) = kept at hmade hafter ⊢
      generalize playOccurrence channel tonality occurrence phrases = outcome at hmade hafter ⊢
      obtain ⟨left, after⟩ := kept
      obtain ⟨right, all⟩ := outcome
      dsimp only at hmade hafter ⊢
      subst hmade hafter
      cases left with
      | error fault => rfl
      | ok made => exact congrArg (Except.map (made ++ ·)) (ih hrest all)

end Part

/-! ### Notes -/

/-- What is struck and released, without the setup. -/
def notesOf (messages : List Timed) : List Timed :=
  messages.filter fun timed => !timed.message.isSetup

theorem notesOf_append (messages more : List Timed) :
    notesOf (messages ++ more) = notesOf messages ++ notesOf more :=
  List.filter_append ..

theorem notesOf_append_setup {setup : List Timed}
    (h : ∀ timed ∈ setup, timed.message.isSetup = true) (messages : List Timed) :
    notesOf (setup ++ messages) = notesOf messages := by
  have hnone : notesOf setup = [] := by
    refine List.filter_eq_nil_iff.mpr ?_
    intro timed htimed
    rw [h timed htimed]
    decide
  rw [notesOf_append, hnone, List.nil_append]

/-- Parts that are called for the same phrases. -/
structure Part.SameCalled (names : List String) (part other : Part) : Prop where
  channel : part.channel = other.channel
  called : part.phrases.filter (Phrase.isCalled names)
    = other.phrases.filter (Phrase.isCalled names)

variable {names : List String} {timeline : Timeline} {tick : Nat} {mode : BuildMode}

theorem Part.SameCalled.build {part other : Part} (h : part.SameCalled names other)
    (hcalled : ∀ occurrence ∈ timeline.occurrences, occurrence.pattern.name ∈ names) :
    Agree (fun made more => notesOf made = notesOf more) (part.build timeline tick mode).1
      (other.build timeline tick mode).1 := by
  have hplayed : ∀ occurrence ∈ timeline.startingFrom (mode.start tick),
      occurrence.pattern.name ∈ names :=
    fun occurrence hmem => hcalled occurrence (List.mem_of_mem_filter hmem)
  rw [fst_build, fst_build, ← playOccurrences_filter _ _ hplayed part.phrases,
    ← playOccurrences_filter _ _ hplayed other.phrases, h.channel, h.called]
  refine (Agree.same _).map ?_
  rintro made _ rfl
  rw [notesOf_append_setup fun _ => setup_of_mem_selection,
    notesOf_append_setup fun _ => setup_of_mem_selection]

theorem Part.channel_of_build {part : Part} {made : List Timed}
    (hmade : (part.build timeline tick mode).1 = .ok made) :
    ∀ timed ∈ made, timed.message.channel = part.channel := by
  obtain ⟨struck, hstruck, rfl⟩ := exists_struck_of_build hmade
  refine List.forall_mem_append.mpr ⟨?_, hstruck.channel_eq⟩
  intro timed htimed
  unfold selection at htimed
  split at htimed
  · cases htimed
  · rw [List.mem_singleton.mp htimed]
    rfl

/-- What some view of messages cannot tell apart part by part it cannot tell apart in all. -/
theorem Part.view_builds {view : List Timed → List Timed} (hnil : view [] = [])
    (happend : ∀ messages more, view (messages ++ more) = view messages ++ view more)
    {R : Part → Part → Prop} (hbuild : ∀ part mate made more, R part mate →
      (part.build timeline tick mode).1 = .ok made →
      (mate.build timeline tick mode).1 = .ok more → view made = view more)
    {parts mates : List Part} (hparts : List.Forall₂ R parts mates)
    {lists others : List (List Timed)}
    (hlists : List.Forall₂ (fun part list => (part.build timeline tick mode).1 = .ok list)
      parts lists)
    (hothers : List.Forall₂ (fun part list => (part.build timeline tick mode).1 = .ok list)
      mates others) :
    view lists.flatten = view others.flatten := by
  induction hparts generalizing lists others with
  | nil =>
      cases hlists
      cases hothers
      exact hnil.trans hnil.symm
  | cons hpair _ ih =>
      cases hlists with
      | cons hlist hrest =>
          cases hothers with
          | cons hother hmates =>
              rw [List.flatten_cons, List.flatten_cons, happend, happend, ih hrest hmates,
                hbuild _ _ _ _ hpair hlist hother]

namespace Arrangement

variable {arrangement other : Arrangement}

end Arrangement

end ChordGrid
