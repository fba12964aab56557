import ChordGrid.Proofs.Build.Compiling
import ChordGrid.Proofs.Pitch.Layout

namespace ChordGrid

/-! ### Pitches -/

/-- The semitones from one key up to another. -/
def Key.distance (key other : Key) : Int :=
  other.root - key.root

/-- What a change of the key by so many semitones does to the phrases of a kind. -/
def PhraseKind.shift (kind : PhraseKind) (semitones : Int) : Int :=
  if kind = .drum then 0 else semitones

theorem Tonality.pitch_inKey (key other : Key) (mode : Mode) (span : Span) (step : Step) :
    ((⟨other, mode⟩ : Tonality).pitch span step : Int)
      = (⟨key, mode⟩ : Tonality).pitch span step + key.distance other := by
  have hscale : ∀ index, ((⟨other, mode⟩ : Tonality).scalePitch index : Int)
      = (⟨key, mode⟩ : Tonality).scalePitch index + key.distance other := by
    intro index
    simp only [scalePitch, Key.distance]
    omega
  have hdiatonic : ((⟨other, mode⟩ : Tonality).diatonicPitch span.degree step : Int)
      = (⟨key, mode⟩ : Tonality).diatonicPitch span.degree step + key.distance other :=
    hscale _
  rw [pitch_eq_ite, pitch_eq_ite]
  dsimp only
  split
  · exact hdiatonic
  · have hroot := hscale span.degree.index
    simp only [borrowedPitch]
    omega

/-! ### Notes -/

/-- A note and the same note so many semitones higher. -/
structure Note.Transposed (semitones : Int) (a b : Note) : Prop where
  tick : b.tick = a.tick
  pitch : (b.pitch : Int) = a.pitch + semitones
  gate : b.gate = a.gate
  velocity : b.velocity = a.velocity

theorem Sound.pitch_inKey {sound : Sound} {key other : Key} {mode : Mode} {pattern : Pattern}
    {pitch moved : Nat} (hpitch : sound.pitch ⟨key, mode⟩ pattern = .ok pitch)
    (hmoved : sound.pitch ⟨other, mode⟩ pattern = .ok moved) :
    (moved : Int) = pitch + if sound.tone.isKey then 0 else key.distance other := by
  rw [Sound.pitch] at hpitch hmoved
  cases htone : sound.tone with
  | key percussion =>
      rw [htone] at hpitch hmoved
      cases hpitch
      cases hmoved
      exact (Int.add_zero _).symm
  | step step interval =>
      rw [htone] at hpitch hmoved
      have hleft := shiftedPitch_eq_ok hpitch
      have hright := shiftedPitch_eq_ok hmoved
      have hkeys := Tonality.pitch_inKey key other mode (sound.chord pattern) step
      simp only [Tone.isKey, Bool.false_eq_true, if_false]
      omega

theorem Phrase.SameState.transposed_play {a b : Phrase} (h : a.SameState b) {position : Nat}
    {key other : Key} {mode : Mode} {pattern : Pattern} {notes moved : List Note}
    (hnotes : (a.play position ⟨key, mode⟩ pattern).1 = .ok notes)
    (hmoved : (b.play position ⟨other, mode⟩ pattern).1 = .ok moved) :
    List.Forall₂ (Note.Transposed (a.kind.shift (key.distance other))) notes moved := by
  obtain ⟨sounds, hsounds, hresolved⟩ := exists_sounds_of_play hnotes
  obtain ⟨same, hsame, hraised⟩ := exists_sounds_of_play hmoved
  rw [← h.sounds_eq rfl rfl position ⟨key, mode⟩ ⟨other, mode⟩, hsounds] at hsame
  cases hsame
  have hsuited := (List.forall₂_and_left _ _).mpr ⟨suits_of_mem_sounds hsounds, hraised⟩
  refine (forall₂_comp hresolved.flip hsuited).imp ?_
  rintro note raised ⟨sound, hnote, hsuits, hhigher⟩
  obtain ⟨htick, hgate, hvelocity⟩ := Sound.note_agree hnote hhigher h.velocity.symm
  refine ⟨htick, ?_, hgate, hvelocity⟩
  have hshift := Sound.pitch_inKey (Sound.note_eq_ok_iff.mp hnote).1
    (Sound.note_eq_ok_iff.mp hhigher).1
  rw [hsuits.isKey] at hshift
  simpa only [PhraseKind.shift, decide_eq_true_eq] using hshift

/-! ### Messages -/

/-- A message and the same message with its note, if it has one, so many semitones higher. -/
inductive Message.Transposed (semitones : Int) : Message → Message → Prop
  | noteOn (channel velocity : Nat) {pitch raised : Nat} (h : (raised : Int) = pitch + semitones) :
      Transposed semitones (.noteOn channel pitch velocity) (.noteOn channel raised velocity)
  | noteOff (channel : Nat) {pitch raised : Nat} (h : (raised : Int) = pitch + semitones) :
      Transposed semitones (.noteOff channel pitch) (.noteOff channel raised)
  | control (channel controller value : Nat) :
      Transposed semitones (.control channel controller value) (.control channel controller value)
  | program (channel number : Nat) :
      Transposed semitones (.program channel number) (.program channel number)

structure Timed.Transposed (semitones : Int) (a b : Timed) : Prop where
  tick : b.tick = a.tick
  message : a.message.Transposed semitones b.message

theorem Message.Transposed.eq_of_zero {a b : Message} (h : a.Transposed 0 b) : b = a := by
  cases h with
  | noteOn channel velocity h =>
      rw [Int.add_zero] at h
      rw [Int.ofNat.inj h]
  | noteOff channel h =>
      rw [Int.add_zero] at h
      rw [Int.ofNat.inj h]
  | control channel controller value => rfl
  | program channel number => rfl

theorem Timed.Transposed.eq_of_zero {a b : Timed} (h : a.Transposed 0 b) : b = a :=
  congrArg₂ Timed.mk h.tick h.message.eq_of_zero

namespace Part

variable {channel : Nat} {key other : Key} {mode : Mode} {semitones : Int}

theorem transposed_strike {a b : Note} (h : a.Transposed semitones b) :
    List.Forall₂ (Timed.Transposed semitones) (strike channel a) (strike channel b) := by
  obtain ⟨tick, pitch, gate, velocity⟩ := a
  obtain ⟨_, raised, _, _⟩ := b
  obtain ⟨rfl, hpitch, rfl, rfl⟩ := h
  exact .cons ⟨rfl, .noteOn channel _ hpitch⟩ (.cons ⟨rfl, .noteOff channel hpitch⟩ .nil)

theorem transposed_strikes {lists others : List (List Note)}
    (h : List.Forall₂ (List.Forall₂ (Note.Transposed semitones)) lists others) :
    List.Forall₂ (Timed.Transposed semitones) (lists.flatten.flatMap (strike channel))
      (others.flatten.flatMap (strike channel)) :=
  List.rel_flatMap (List.rel_flatten h) fun _ _ hnote => transposed_strike hnote

variable {kind : PhraseKind} {phrases mates : List Phrase} {made moved : List Timed}

/-- The phrases of a kind in one state. -/
def InStep (kind : PhraseKind) (a b : Phrase) : Prop :=
  a.SameState b ∧ a.kind = kind

theorem transposed_playOccurrence (hphrases : List.Forall₂ (InStep kind) phrases mates)
    (occurrence : Occurrence)
    (hmade : (playOccurrence channel ⟨key, mode⟩ occurrence phrases).1 = .ok made)
    (hmoved : (playOccurrence channel ⟨other, mode⟩ occurrence mates).1 = .ok moved) :
    List.Forall₂ (Timed.Transposed (kind.shift (key.distance other))) made moved
      ∧ List.Forall₂ (InStep kind) (playOccurrence channel ⟨key, mode⟩ occurrence phrases).2
        (playOccurrence channel ⟨other, mode⟩ occurrence mates).2 := by
  obtain ⟨lists, hlists, rfl⟩ := map_eq_ok_iff.mp hmade
  obtain ⟨others, hothers, rfl⟩ := map_eq_ok_iff.mp hmoved
  have hswept := forall₂_sweep_of_ok (S := List.Forall₂
    (Note.Transposed (kind.shift (key.distance other)))) ?_ hphrases hlists hothers
  · exact ⟨transposed_strikes hswept.1, hswept.2⟩
  · rintro a b ⟨hstate, rfl⟩ notes raised hnotes hraised
    refine ⟨hstate.transposed_play hnotes hraised, hstate.play rfl rfl _ _ _, ?_⟩
    exact (Phrase.SameSheet.play a _ _ _).kind.symm

theorem transposed_playOccurrences (hphrases : List.Forall₂ (InStep kind) phrases mates)
    {occurrences : List Occurrence}
    (hmade : (playOccurrences channel ⟨key, mode⟩ occurrences phrases).1 = .ok made)
    (hmoved : (playOccurrences channel ⟨other, mode⟩ occurrences mates).1 = .ok moved) :
    List.Forall₂ (Timed.Transposed (kind.shift (key.distance other))) made moved
      ∧ List.Forall₂ (InStep kind) (playOccurrences channel ⟨key, mode⟩ occurrences phrases).2
        (playOccurrences channel ⟨other, mode⟩ occurrences mates).2 := by
  induction occurrences generalizing phrases mates made moved with
  | nil =>
      cases hmade
      cases hmoved
      exact ⟨.nil, hphrases⟩
  | cons occurrence rest ih =>
      have hfirst := @transposed_playOccurrence channel key other mode kind phrases mates
      rw [playOccurrences] at hmade hmoved ⊢
      rw [playOccurrences]
      cases hleft : playOccurrence channel ⟨key, mode⟩ occurrence phrases with
      | mk outcome after =>
          cases hright : playOccurrence channel ⟨other, mode⟩ occurrence mates with
          | mk outcome' after' =>
              rw [hleft] at hmade
              rw [hright] at hmoved
              cases outcome with
              | error fault => cases hmade
              | ok struck =>
                  cases outcome' with
                  | error fault => cases hmoved
                  | ok raised =>
                      obtain ⟨more, hmore, rfl⟩ := map_eq_ok_iff.mp hmade
                      obtain ⟨higher, hhigher, rfl⟩ := map_eq_ok_iff.mp hmoved
                      obtain ⟨hhead, hstates⟩ := hfirst hphrases occurrence
                        (congrArg Prod.fst hleft) (congrArg Prod.fst hright)
                      rw [hleft, hright] at hstates
                      obtain ⟨htail, hlast⟩ := ih hstates hmore hhigher
                      exact ⟨List.rel_append hhead htail, hlast⟩

theorem phrases_build (part : Part) (timeline : Timeline) (tick : Nat) (mode : BuildMode) :
    (part.build timeline tick mode).2.phrases
      = (playOccurrences part.channel timeline.tonality
          (timeline.startingFrom (mode.start tick)) part.phrases).2 := by
  rw [build]
  split
  · next hempty =>
      rw [List.isEmpty_iff.mp hempty]
      exact (List.forall₂_nil_left_iff.mp (sameSheet_playOccurrences _ [])).symm
  · rfl

/-- **A part in two keys.** If both builds succeed, the second sends what the first sends, but
transposed, and leaves the same contents behind. -/
theorem transposed_build {part : Part} {timeline moving : Timeline} {tick : Nat}
    {buildMode : BuildMode} (hkinds : ∀ phrase ∈ part.phrases, phrase.kind = part.kind)
    (htimeline : timeline.tonality = ⟨key, mode⟩) (hmoving : moving.tonality = ⟨other, mode⟩)
    (hoccurrences : moving.occurrences = timeline.occurrences)
    (hmade : (part.build timeline tick buildMode).1 = .ok made)
    (hmoved : (part.build moving tick buildMode).1 = .ok moved) :
    List.Forall₂ (Timed.Transposed (part.kind.shift (key.distance other))) made moved
      ∧ (part.build moving tick buildMode).2.phrases.map Phrase.content
        = (part.build timeline tick buildMode).2.phrases.map Phrase.content := by
  have hstarts : moving.startingFrom (buildMode.start tick)
      = timeline.startingFrom (buildMode.start tick) := by
    rw [Timeline.startingFrom, hoccurrences, ← Timeline.startingFrom]
  have hsame : List.Forall₂ (InStep part.kind) part.phrases part.phrases :=
    List.forall₂_same.mpr fun phrase hmem => ⟨.refl phrase, hkinds phrase hmem⟩
  rw [phrases_build, phrases_build, htimeline, hmoving, hstarts]
  rw [fst_build, htimeline] at hmade
  rw [fst_build, hmoving, hstarts] at hmoved
  obtain ⟨struck, hstruck, rfl⟩ := map_eq_ok_iff.mp hmade
  obtain ⟨raised, hraised, rfl⟩ := map_eq_ok_iff.mp hmoved
  obtain ⟨hnotes, hafter⟩ := transposed_playOccurrences hsame hstruck hraised
  refine ⟨List.rel_append ?_ hnotes, ?_⟩
  · unfold selection
    split
    · exact .nil
    · exact .cons ⟨rfl, .program _ _⟩ .nil
  · have hcontents : List.Forall₂ (fun a b : Phrase => b.content = a.content)
        (playOccurrences part.channel ⟨key, mode⟩
          (timeline.startingFrom (buildMode.start tick)) part.phrases).2
        (playOccurrences part.channel ⟨other, mode⟩
          (timeline.startingFrom (buildMode.start tick)) part.phrases).2 :=
      hafter.imp fun _ _ hstate => hstate.1.content.symm
    rw [← List.forall₂_eq_eq_eq, List.forall₂_map_left_iff, List.forall₂_map_right_iff]
    exact hcontents.flip

end Part

/-! ### Songs -/

theorem Timeline.of_arrange {tonality : Tonality} {r : Resolution} {patterns : List Pattern}
    {names : List String} {timeline : Timeline}
    (h : arrange tonality r patterns names = .ok timeline) (other : Tonality) :
    timeline.tonality = tonality
      ∧ arrange other r patterns names = .ok { timeline with tonality := other } := by
  obtain ⟨called, hcalled, h⟩ := bind_eq_ok_iff.mp h
  cases h
  exact ⟨rfl, bind_eq_ok_iff.mpr ⟨called, hcalled, rfl⟩⟩

namespace Score

/-- The score with its song in another key. -/
def inKey (score : Score) (name : String) : Score :=
  { score with song := { score.song with key := name } }

variable {score : Score} {settings : Settings} {first second : String}

/-- Only the tonality of the timeline depends on the key. -/
theorem compile_inKey {arrangement moved : Arrangement}
    (hfirst : (score.inKey first).compile settings = .ok arrangement)
    (hsecond : (score.inKey second).compile settings = .ok moved) :
    ∃ key other mode, Key.parse first = .ok key ∧ Key.parse second = .ok other
      ∧ arrangement.timeline.tonality = ⟨key, mode⟩
      ∧ moved = { arrangement with timeline.tonality := ⟨other, mode⟩ }
      ∧ ∀ part ∈ arrangement.parts, ∀ phrase ∈ part.phrases, phrase.kind = part.kind := by
  obtain ⟨r, key, mode, patterns, phrases, hr, hkey, hmode, hpatterns, htimeline, hphrases, hparts,
    hfaders, htempo⟩ := compile_eq_ok_iff.mp hfirst
  obtain ⟨r', other, mode', patterns', phrases', hr', hother, hmode', hpatterns', htimeline',
    hphrases', hparts', hfaders', htempo'⟩ := compile_eq_ok_iff.mp hsecond
  cases hr.symm.trans hr'
  cases hmode.symm.trans hmode'
  cases hpatterns.symm.trans hpatterns'
  cases hphrases.symm.trans hphrases'
  obtain ⟨htonality, hagain⟩ := Timeline.of_arrange htimeline ⟨other, mode⟩
  refine ⟨key, other, mode, hkey, hother, htonality, ?_, ?_⟩
  · obtain ⟨timeline, parts, faders, tempo⟩ := moved
    cases hagain.symm.trans htimeline'
    cases hparts.symm.trans hparts'
    cases hfaders.symm.trans hfaders'
    cases htempo.trans htempo'.symm
    rfl
  · intro part hpart phrase hphrase
    obtain ⟨entry, -, hentry⟩ := exists_of_mem_right (mapM_eq_ok_iff.mp hparts) hpart
    rw [(PartEntry.of_compile hentry).2.2.2.2] at hphrase
    exact of_decide_eq_true (List.mem_filter.mp hphrase).2

/-- **Changing the key transposes the song.** If a score loads in two keys, it has the same parts in
both, and each part is built from the top in both. A part for percussion sends the very same
messages. Every other part sends as many as before, each at its tick and with its note moved by the
distance of the keys. All parts have drawn the same. -/
theorem key_transposes_song {edition other : Edition}
    (hfirst : Edition.compile (score.inKey first) settings = .ok edition)
    (hsecond : Edition.compile (score.inKey second) settings = .ok other) :
    ∃ key target arrangement moved, Key.parse first = .ok key ∧ Key.parse second = .ok target
      ∧ (score.inKey first).compile settings = .ok arrangement
      ∧ (score.inKey second).compile settings = .ok moved
      ∧ moved.parts = arrangement.parts
      ∧ ∀ part ∈ arrangement.parts, ∃ made raised,
        (part.build arrangement.timeline 0 .playback).1 = .ok made
        ∧ (part.build moved.timeline 0 .playback).1 = .ok raised
        ∧ (part.kind = .drum → raised = made)
        ∧ (part.kind ≠ .drum →
          List.Forall₂ (Timed.Transposed (target.root - key.root)) made raised)
        ∧ (part.build moved.timeline 0 .playback).2.phrases.map Phrase.content
          = (part.build arrangement.timeline 0 .playback).2.phrases.map Phrase.content := by
  obtain ⟨arrangement, messages, harrangement, hmessages, rfl⟩ :=
    Edition.compile_eq_ok_iff.mp hfirst
  obtain ⟨moved, more, hmoved, hmore, rfl⟩ := Edition.compile_eq_ok_iff.mp hsecond
  obtain ⟨key, target, mode, hkey, htarget, htonality, hsame, hkinds⟩ :=
    compile_inKey harrangement hmoved
  have hparts : moved.parts = arrangement.parts := by rw [hsame]
  have htonality' : moved.timeline.tonality = ⟨target, mode⟩ := by rw [hsame]
  have hoccurrences : moved.timeline.occurrences = arrangement.timeline.occurrences := by
    rw [hsame]
  obtain ⟨lists, hlists, -⟩ := map_eq_ok_iff.mp hmessages
  obtain ⟨others, hothers, -⟩ := map_eq_ok_iff.mp hmore
  refine ⟨key, target, arrangement, moved, hkey, htarget, harrangement, hmoved, hparts, ?_⟩
  intro part hpart
  obtain ⟨made, -, hmade⟩ := exists_of_mem_left (sweep_eq_ok_iff.mp hlists) hpart
  obtain ⟨raised, -, hraised⟩ := exists_of_mem_left (sweep_eq_ok_iff.mp hothers)
    (hparts ▸ hpart)
  obtain ⟨hsent, hdrawn⟩ :=
    Part.transposed_build (hkinds part hpart) htonality htonality' hoccurrences hmade hraised
  refine ⟨made, raised, hmade, hraised, ?_, ?_, hdrawn⟩
  · intro hdrum
    rw [PhraseKind.shift, if_pos hdrum] at hsent
    have hequal := hsent.imp fun _ _ htransposed => htransposed.eq_of_zero.symm
    rw [List.forall₂_eq_eq_eq] at hequal
    exact hequal.symm
  · intro hpitched
    rwa [PhraseKind.shift, if_neg hpitched] at hsent

/-- A song with a part of each kind. -/
def quartet : Score where
  song := { name := "", tempo := none, key := "C", mode := "Ion", order := ["a", "a"] }
  patterns := [⟨"a", "I| |V:dor| "⟩]
  phrases := [
    { kind := "drum", name := "a",
      data := some { note := some ["x---"], inst := some ["Acoustic Bass Drum"] } },
    { kind := "pad", name := "a",
      data := some { note := some ["1>>>"], oct := some [1], pre := some ["--5>"] } },
    { kind := "bass", name := "a", note := some "1---|----|3>>>", post := some "7---" },
    { kind := "seque", name := "a" }]
  parts := [⟨"drum", 9, "Standard"⟩, ⟨"pad", 0, "0"⟩, ⟨"bass", 1, "0"⟩, ⟨"seque", 2, "0"⟩]
  faders := []

/-- Up from C to E flat all parts but the drums move by three semitones. -/
theorem key_transposes_quartet :
    ∃ edition other, Edition.compile (quartet.inKey "C") {} = .ok edition
      ∧ Edition.compile (quartet.inKey "Eb") {} = .ok other
      ∧ ∃ arrangement moved, (quartet.inKey "C").compile {} = .ok arrangement
        ∧ (quartet.inKey "Eb").compile {} = .ok moved
        ∧ ∀ part ∈ arrangement.parts, ∃ made raised,
          (part.build arrangement.timeline 0 .playback).1 = .ok made
          ∧ (part.build moved.timeline 0 .playback).1 = .ok raised
          ∧ (part.kind = .drum → raised = made)
          ∧ (part.kind ≠ .drum → List.Forall₂ (Timed.Transposed 3) made raised) := by
  obtain ⟨edition, hedition⟩ : ∃ edition, Edition.compile (quartet.inKey "C") {} = .ok edition :=
    exists_ok_of_isSome (by decide +kernel)
  obtain ⟨other, hother⟩ : ∃ other, Edition.compile (quartet.inKey "Eb") {} = .ok other :=
    exists_ok_of_isSome (by decide +kernel)
  obtain ⟨key, target, arrangement, moved, hkey, htarget, harrangement, hmoved, -, hparts⟩ :=
    key_transposes_song hedition hother
  cases (show Key.parse "C" = .ok ⟨0⟩ by decide).symm.trans hkey
  cases (show Key.parse "Eb" = .ok ⟨3⟩ by decide).symm.trans htarget
  refine ⟨edition, other, hedition, hother, arrangement, moved, harrangement, hmoved, ?_⟩
  intro part hpart
  obtain ⟨made, raised, hmade, hraised, hdrum, hpitched, -⟩ := hparts part hpart
  exact ⟨made, raised, hmade, hraised, hdrum, hpitched⟩

end Score

end ChordGrid
