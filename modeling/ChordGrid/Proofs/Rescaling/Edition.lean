import ChordGrid.Proofs.Build.Compiling
import ChordGrid.Proofs.Build.Strikes
import ChordGrid.Proofs.Rescaling.Notes
import ChordGrid.Proofs.Roll.Sorting

/-!
# Editions at two resolutions

The resolution of the settings scales a compiled song and changes nothing else. A score fails at
both of two resolutions with one fault, or both of its editions hold the same messages in the same
order and at the same times, counted in quanta.

The only bound is that of the ticks themselves: the finer resolution is the first to run out of
them, and then leaves out what the coarser one still plays.
-/

namespace ChordGrid

variable {r s : Resolution}

theorem Resolution.ofCells_cellCount (r : Resolution) (pattern : Pattern) :
    r.ofCells pattern.cellCount = r.ofBeats pattern.beatCount := by
  rw [ofCells, ofBeats, Pattern.cellCount, cellsPerBeat, Nat.mul_assoc, r.sixteenth_eq,
    r.ticksPerQuarter_eq, ← Nat.mul_assoc 4 4]

/-! ### Phrases -/

/-- The tick where an occurrence ends. -/
def Occurrence.stop (r : Resolution) (occurrence : Occurrence) : Nat :=
  occurrence.start + r.ofBeats occurrence.pattern.beatCount

/-- One occurrence at two resolutions, which ends by the last tick at both. -/
structure Occurrence.Alike (r s : Resolution) (a b : Occurrence) : Prop where
  pattern : a.pattern = b.pattern
  start : SameTime r s a.start b.start
  left_ends : a.stop r ≤ lastTick
  right_ends : b.stop s ≤ lastTick

structure Phrase.Alike (r s : Resolution) (a b : Phrase) : Prop where
  left : a.resolution = r
  right : b.resolution = s
  name : a.name = b.name
  content : a.content = b.content
  velocity : a.velocity = b.velocity

/-- Wherever an occurrence calls for the phrase, its tails keep to the ticks of a song. -/
def Phrase.FitsIn (r : Resolution) (occurrences : List Occurrence) (phrase : Phrase) : Prop :=
  ∀ occurrence ∈ occurrences, phrase.name = occurrence.pattern.name →
    phrase.content.TailsFit r (occurrence.stop r)

instance (r : Resolution) (occurrences : List Occurrence) :
    DecidablePred (Phrase.FitsIn r occurrences) :=
  fun _ => inferInstanceAs (Decidable (∀ occurrence ∈ occurrences, _ → _))

namespace Phrase

variable {position : Nat} {tonality : Tonality} {pattern : Pattern}

theorem FitsIn.play {occurrences : List Occurrence} {phrase : Phrase}
    (hphrase : phrase.FitsIn r occurrences) :
    (phrase.play position tonality pattern).2.FitsIn r occurrences := by
  intro occurrence hoccurrence hname
  rw [name_play] at hname
  have hfits := hphrase occurrence hoccurrence hname
  rw [Phrase.play_eq]
  split
  · exact hfits
  · dsimp only
    split <;> exact (Content.tailsFit_notes _ _ _).mpr hfits

theorem inTime_alike {notes others : List Note} (h : List.Forall₂ (Note.Alike r s) notes others) :
    List.Forall₂ (Note.Alike r s) (inTime notes) (inTime others) :=
  forall₂_sortedBy h fun _ _ hfirst _ _ hsecond => hfirst.tick.le_iff hsecond.tick

theorem Alike.play {phrase other : Phrase} (hphrase : Alike r s phrase other)
    (tonality : Tonality) {a b : Occurrence} (h : Occurrence.Alike r s a b)
    (hfits : phrase.name = a.pattern.name → phrase.content.TailsFit r (a.stop r))
    (hother : other.name = b.pattern.name → other.content.TailsFit s (b.stop s)) :
    Agree (List.Forall₂ (Note.Alike r s)) (phrase.play a.start tonality a.pattern).1
        (other.play b.start tonality b.pattern).1
      ∧ Alike r s (phrase.play a.start tonality a.pattern).2
        (other.play b.start tonality b.pattern).2 := by
  obtain ⟨pattern, start⟩ := a
  obtain ⟨_, otherStart⟩ := b
  obtain ⟨rfl, hstart, hleft, hright⟩ := h
  obtain ⟨name, content, fine, velocity, notes⟩ := phrase
  obtain ⟨_, _, coarse, _, others⟩ := other
  obtain ⟨rfl, rfl, rfl, rfl, rfl⟩ := hphrase
  rw [Phrase.play_eq, Phrase.play_eq]
  dsimp only at hfits hother ⊢
  split
  · exact ⟨.ok .nil, rfl, rfl, rfl, rfl, rfl⟩
  · next hname =>
      have hname := Decidable.of_not_not hname
      have hplaces : Placement.Alike fine coarse ⟨start, tonality, pattern, fine, velocity⟩
          ⟨otherStart, tonality, pattern, coarse, velocity⟩ := by
        refine ⟨rfl, rfl, hstart, rfl, rfl, rfl, ?_, ?_⟩
        · rw [Resolution.ofCells_cellCount]
          exact hleft
        · rw [Resolution.ofCells_cellCount]
          exact hright
      have hnotes := Content.notes_alike content hplaces
        (by rw [Resolution.ofCells_cellCount]; exact hfits hname)
        (by rw [Resolution.ofCells_cellCount]; exact hother hname)
      simp only [placement]
      generalize content.notes ⟨start, tonality, pattern, fine, velocity⟩ = made at hnotes
      generalize content.notes ⟨otherStart, tonality, pattern, coarse, velocity⟩ = made' at hnotes
      obtain ⟨outcome, after⟩ := made
      obtain ⟨outcome', after'⟩ := made'
      obtain ⟨hmade, rfl⟩ := hnotes
      dsimp only at hmade ⊢
      cases hmade with
      | error fault => exact ⟨.error fault, rfl, rfl, rfl, rfl, rfl⟩
      | ok hlists => exact ⟨.ok (inTime_alike hlists), rfl, rfl, rfl, rfl, rfl⟩

end Phrase

/-! ### Parts -/

structure Timed.Alike (r s : Resolution) (a b : Timed) : Prop where
  tick : SameTime r s a.tick b.tick
  message : a.message = b.message

namespace Part

variable {channel : Nat} {tonality : Tonality}

theorem strike_alike {note other : Note} (h : Note.Alike r s note other) :
    List.Forall₂ (Timed.Alike r s) (strike channel note) (strike channel other) := by
  obtain ⟨htick, hpitch, hgate, hvelocity⟩ := h
  refine .cons ⟨htick, ?_⟩ (.cons ⟨htick.add hgate, ?_⟩ .nil)
  · rw [hpitch, hvelocity]
  · rw [hpitch]

/-- Phrases that are alike and keep to the ticks of a song in some occurrences. -/
def Ready (r s : Resolution) (occurrences others : List Occurrence) (phrase other : Phrase) :
    Prop :=
  Phrase.Alike r s phrase other ∧ phrase.FitsIn r occurrences ∧ other.FitsIn s others

variable {occurrences others : List Occurrence} {phrases played : List Phrase}

theorem playOccurrence_alike (channel : Nat) (tonality : Tonality)
    (hphrases : List.Forall₂ (Ready r s occurrences others) phrases played)
    {a b : Occurrence} (ha : a ∈ occurrences) (hb : b ∈ others) (h : Occurrence.Alike r s a b) :
    Agree (List.Forall₂ (Timed.Alike r s)) (playOccurrence channel tonality a phrases).1
        (playOccurrence channel tonality b played).1
      ∧ List.Forall₂ (Ready r s occurrences others) (playOccurrence channel tonality a phrases).2
        (playOccurrence channel tonality b played).2 := by
  have hsweep := Agree.sweep (S := List.Forall₂ (Note.Alike r s))
    (fun phrase => phrase.play a.start tonality a.pattern)
    (fun phrase => phrase.play b.start tonality b.pattern) hphrases (by
      rintro phrase other ⟨halike, hfits, hother⟩
      obtain ⟨hmade, hafter⟩ := halike.play tonality h (hfits a ha) (hother b hb)
      exact ⟨hmade, hafter, hfits.play, hother.play⟩)
  refine ⟨hsweep.1.map ?_, hsweep.2⟩
  intro lists lists' hlists
  exact List.rel_flatMap (List.rel_flatten hlists) fun _ _ hnotes => strike_alike hnotes

/-- **Occurrence after occurrence** a part plays the same at both resolutions. -/
theorem playOccurrences_alike {some more : List Occurrence}
    (h : List.Forall₂ (Occurrence.Alike r s) some more)
    (hsome : ∀ occurrence ∈ some, occurrence ∈ occurrences)
    (hmore : ∀ occurrence ∈ more, occurrence ∈ others)
    (hphrases : List.Forall₂ (Ready r s occurrences others) phrases played) :
    Agree (List.Forall₂ (Timed.Alike r s)) (playOccurrences channel tonality some phrases).1
      (playOccurrences channel tonality more played).1 := by
  induction h generalizing phrases played with
  | nil => exact .ok .nil
  | @cons a b rest rest' hfirst _ ih =>
      obtain ⟨hmade, hafter⟩ := playOccurrence_alike channel tonality
        hphrases (hsome a List.mem_cons_self) (hmore b List.mem_cons_self) hfirst
      unfold playOccurrences
      generalize playOccurrence channel tonality a phrases = outcome at hmade hafter
      generalize playOccurrence channel tonality b played = outcome' at hmade hafter
      obtain ⟨made, after⟩ := outcome
      obtain ⟨made', after'⟩ := outcome'
      dsimp only at hmade hafter
      cases hmade with
      | error fault => exact .error fault
      | ok hlists =>
          refine (ih ?_ ?_ hafter).map ?_
          · exact fun occurrence hmem => hsome occurrence (List.mem_cons_of_mem a hmem)
          · exact fun occurrence hmem => hmore occurrence (List.mem_cons_of_mem b hmem)
          · exact fun _ _ hlater => List.rel_append hlists hlater

end Part

structure Part.Alike (r s : Resolution) (a b : Part) : Prop where
  channel : a.channel = b.channel
  program : a.program = b.program
  kind : a.kind = b.kind
  phrases : List.Forall₂ (Phrase.Alike r s) a.phrases b.phrases

theorem mixdown_alike (faders : List Fader) {parts others : List Part}
    (h : List.Forall₂ (Part.Alike r s) parts others) :
    List.Forall₂ (Timed.Alike r s) (mixdown faders parts) (mixdown faders others) := by
  refine List.rel_flatMap (List.forall₂_same.mpr fun fader _ => Eq.refl fader) ?_
  rintro fader _ rfl
  refine List.rel_flatMap (List.rel_filter ?_ h) ?_
  · intro part other halike
    simp only [halike.kind]
  · intro part other halike
    dsimp only
    rw [halike.channel, List.forall₂_map_left_iff, List.forall₂_map_right_iff, List.forall₂_same]
    intro message _
    exact ⟨SameTime.zero r s, rfl⟩

/-! ### Timelines -/

namespace Timeline

theorem totalLength_alike (patterns : List Pattern) :
    SameTime r s (totalLength r patterns) (totalLength s patterns) := by
  induction patterns with
  | nil => exact SameTime.zero r s
  | cons pattern rest ih => exact (SameTime.beats r s pattern.beatCount).add ih

theorem place_alike (patterns : List Pattern) {start other : Nat}
    (hstart : SameTime r s start other) (hleft : start + totalLength r patterns ≤ lastTick)
    (hright : other + totalLength s patterns ≤ lastTick) :
    List.Forall₂ (Occurrence.Alike r s) (place r start patterns) (place s other patterns) := by
  induction patterns generalizing start other with
  | nil => exact .nil
  | cons pattern rest ih =>
      rw [totalLength, ← Nat.add_assoc] at hleft hright
      refine .cons ⟨rfl, hstart, ?_, ?_⟩ (ih ?_ hleft hright)
      · exact Nat.le_trans (Nat.le_add_right _ _) hleft
      · exact Nat.le_trans (Nat.le_add_right _ _) hright
      · exact hstart.add (SameTime.beats r s pattern.beatCount)

end Timeline

/-! ### Arrangements -/

/-- The song ends by the last tick, and so does whatever its phrases add behind their patterns. -/
structure Arrangement.FitsTicks (arrangement : Arrangement) : Prop where
  length_le : arrangement.timeline.length ≤ lastTick
  tails_fit : ∀ part ∈ arrangement.parts, ∀ phrase ∈ part.phrases,
    phrase.FitsIn arrangement.timeline.resolution arrangement.timeline.occurrences

instance : DecidablePred Arrangement.FitsTicks := fun arrangement =>
  decidable_of_iff
    (arrangement.timeline.length ≤ lastTick ∧ ∀ part ∈ arrangement.parts,
      ∀ phrase ∈ part.phrases,
        phrase.FitsIn arrangement.timeline.resolution arrangement.timeline.occurrences)
    ⟨fun h => ⟨h.1, h.2⟩, fun h => ⟨h.1, h.2⟩⟩

structure Arrangement.Alike (r s : Resolution) (a b : Arrangement) : Prop where
  timeline : ∃ tonality patterns, a.timeline = .ofPatterns tonality r patterns
    ∧ b.timeline = .ofPatterns tonality s patterns
  parts : List.Forall₂ (Part.Alike r s) a.parts b.parts
  faders : a.faders = b.faders
  tempo : a.tempo = b.tempo

theorem Part.build_alike (timeline coarse : Timeline) {part other : Part}
    (htonality : timeline.tonality = coarse.tonality)
    (hoccurrences : List.Forall₂ (Occurrence.Alike r s) timeline.occurrences coarse.occurrences)
    (h : Part.Alike r s part other)
    (hleft : ∀ phrase ∈ part.phrases, phrase.FitsIn r timeline.occurrences)
    (hright : ∀ phrase ∈ other.phrases, phrase.FitsIn s coarse.occurrences) :
    Agree (List.Forall₂ (Timed.Alike r s)) (part.build timeline 0 .playback).1
      (other.build coarse 0 .playback).1 := by
  obtain ⟨channel, program, kind, phrases⟩ := part
  obtain ⟨_, _, _, played⟩ := other
  obtain ⟨rfl, rfl, rfl, hphrases⟩ := h
  have hready : List.Forall₂ (Ready r s timeline.occurrences coarse.occurrences) phrases played :=
    forall₂_with hphrases hleft hright
  simp only [build, BuildMode.start, Timeline.startingFrom_zero, ← htonality]
  cases hphrases with
  | nil => exact .ok .nil
  | cons hfirst hrest =>
      refine (playOccurrences_alike hoccurrences (fun _ hmem => hmem) (fun _ hmem => hmem)
        hready).map ?_
      intro made made' hmade
      exact .cons ⟨SameTime.zero r s, rfl⟩ hmade

namespace Arrangement

variable {arrangement coarse : Arrangement}

theorem messages_alike (h : Arrangement.Alike r s arrangement coarse)
    (hfits : arrangement.FitsTicks) (hcoarse : coarse.FitsTicks) :
    Agree (List.Forall₂ (Timed.Alike r s)) (arrangement.messages 0 .playback).1
      (coarse.messages 0 .playback).1 := by
  obtain ⟨timeline, parts, faders, tempo⟩ := arrangement
  obtain ⟨_, others, _, _⟩ := coarse
  obtain ⟨⟨tonality, patterns, rfl, rfl⟩, hparts, rfl, rfl⟩ := h
  have hoccurrences := Timeline.place_alike patterns (SameTime.zero r s)
    (by rw [Nat.zero_add]; exact hfits.length_le) (by rw [Nat.zero_add]; exact hcoarse.length_le)
  have hready := forall₂_with hparts hfits.tails_fit hcoarse.tails_fit
  have hmade := Agree.mapM hready fun part other ⟨halike, hleft, hright⟩ =>
    Part.build_alike (.ofPatterns tonality r patterns) (.ofPatterns tonality s patterns) rfl
      hoccurrences halike hleft hright
  rw [← sweep_fst, ← sweep_fst] at hmade
  exact hmade.map fun _ _ hlists =>
    List.rel_append (mixdown_alike faders hparts) (List.rel_flatten hlists)

end Arrangement

/-! ### Scores -/

def Settings.withResolution (settings : Settings) (r : Resolution) : Settings :=
  { settings with ticksPerQuarter := r.ticksPerQuarter }

theorem Settings.resolution_withResolution (settings : Settings) (r : Resolution) :
    (settings.withResolution r).resolution = .ok r := by
  rw [resolution, withResolution, Resolution.ofTicks, dif_pos ⟨r.pos, r.even⟩, dif_pos r.le]
  rfl

theorem PhraseEntry.compile_alike (entry : PhraseEntry) (velocity : Nat) (seed : UInt64) :
    Agree (Phrase.Alike r s) (entry.compile r velocity seed) (entry.compile s velocity seed) := by
  refine (Agree.same _).bind ?_
  rintro kind _ rfl
  refine (Agree.same _).bind ?_
  rintro content _ rfl
  exact .ok ⟨rfl, rfl, rfl, rfl, rfl⟩

theorem PartEntry.compile_alike (entry : PartEntry) {phrases others : List Phrase}
    (h : List.Forall₂ (Phrase.Alike r s) phrases others) :
    Agree (Part.Alike r s) (entry.compile phrases) (entry.compile others) := by
  rw [entry.compile_eq_map phrases, entry.compile_eq_map others]
  refine (Agree.same _).map ?_
  rintro part _ rfl
  refine ⟨rfl, rfl, rfl, List.rel_filter ?_ h⟩
  intro phrase other halike
  have hkind : phrase.kind = other.kind := congrArg Content.kind halike.content
  dsimp only
  rw [hkind]

theorem Score.compilePhrases_alike (score : Score) (settings : Settings) :
    Agree (List.Forall₂ (Phrase.Alike r s)) (score.compilePhrases (settings.withResolution r) r)
      (score.compilePhrases (settings.withResolution s) s) :=
  Agree.mapM_same fun placed _ => placed.1.compile_alike _ _

theorem Timeline.arrange_alike (tonality : Tonality) (patterns : List Pattern)
    (names : List String) :
    Agree (fun a b => ∃ called, a = ofPatterns tonality r called ∧ b = ofPatterns tonality s called)
      (arrange tonality r patterns names) (arrange tonality s patterns names) := by
  refine (Agree.same _).bind ?_
  rintro called _ rfl
  exact .ok ⟨called, rfl, rfl⟩

/-- A score is arranged alike at both resolutions, or fails at both. -/
theorem Score.compile_alike (score : Score) (settings : Settings) (r s : Resolution) :
    Agree (Arrangement.Alike r s) (score.compile (settings.withResolution r))
      (score.compile (settings.withResolution s)) := by
  unfold compile
  rw [settings.resolution_withResolution, settings.resolution_withResolution]
  refine (Agree.same (Key.parse score.song.key)).bind ?_
  rintro key _ rfl
  refine (Agree.same (Mode.parse score.song.mode)).bind ?_
  rintro mode _ rfl
  refine (Agree.same _).bind ?_
  rintro patterns _ rfl
  refine (Timeline.arrange_alike ⟨key, mode⟩ patterns score.song.order).bind ?_
  rintro timeline other ⟨called, rfl, rfl⟩
  refine (score.compilePhrases_alike settings).bind ?_
  intro phrases others hphrases
  have hentries : Agree (List.Forall₂ (Part.Alike r s))
      (score.parts.mapM fun entry => entry.compile phrases)
      (score.parts.mapM fun entry => entry.compile others) :=
    Agree.mapM_same fun entry _ => entry.compile_alike hphrases
  refine hentries.bind ?_
  intro parts played hparts
  refine (Agree.same _).bind ?_
  rintro faders _ rfl
  exact .ok ⟨⟨_, called, rfl, rfl⟩, hparts, rfl, rfl⟩

/-- Editions of one length that deliver the same messages at the same times. -/
structure Edition.Alike (r s : Resolution) (a b : Edition) : Prop where
  length : SameTime r s a.length b.length
  tempo : a.tempo = b.tempo
  exported : List.Forall₂ (Timed.Alike r s) (a.roll.exported r.quantum) (b.roll.exported s.quantum)

theorem Timed.Alike.order_le_iff {a b c d : Timed} (h : Timed.Alike r s a b)
    (hother : Timed.Alike r s c d) : a.order ≤ c.order ↔ b.order ≤ d.order := by
  have hbefore := h.tick.le_iff hother.tick
  have hafter := hother.tick.le_iff h.tick
  have hfirst := b.message.rank_lt
  have hsecond := d.message.rank_lt
  simp only [order, h.message, hother.message]
  omega

/-- **The resolution is a scale.** Whatever the score and the settings, at any two resolutions whose
ticks the song does not run out of: it fails at both with one fault, or both editions hold the same
messages in the same order, each at the same number of quanta, and are of the same length in
quanta. -/
theorem compile_scales_with_resolution (score : Score) (settings : Settings) (r s : Resolution)
    (hleft : ∀ arrangement, score.compile (settings.withResolution r) = .ok arrangement →
      arrangement.FitsTicks)
    (hright : ∀ arrangement, score.compile (settings.withResolution s) = .ok arrangement →
      arrangement.FitsTicks) :
    (∃ fault, Edition.compile score (settings.withResolution r) = .error fault
      ∧ Edition.compile score (settings.withResolution s) = .error fault)
    ∨ ∃ fine coarse, Edition.compile score (settings.withResolution r) = .ok fine
      ∧ Edition.compile score (settings.withResolution s) = .ok coarse
      ∧ Edition.Alike r s fine coarse := by
  refine Agree.cases_iff.mp ?_
  have hcompile := score.compile_alike settings r s
  unfold Edition.compile
  generalize score.compile (settings.withResolution r) = compiled at hcompile hleft
  generalize score.compile (settings.withResolution s) = other at hcompile hright
  cases hcompile with
  | error fault => exact .error fault
  | @ok arrangement coarse halike =>
      have hmessages := Arrangement.messages_alike halike (hleft _ rfl) (hright _ rfl)
      obtain ⟨⟨tonality, patterns, htimeline, hcoarse⟩, -, -, htempo⟩ := halike
      refine (hmessages.map (S := fun a b => List.Forall₂ (Timed.Alike r s) a.stream b.stream)
        ?_).bind ?_
      · -- The order of delivery is one of ticks and ranks, which compare alike at both.
        intro made made' hmade
        rw [Roll.stream_ofMessages, Roll.stream_ofMessages]
        exact forall₂_sortedBy hmade fun _ _ h _ _ hother => h.order_le_iff hother
      · intro roll roll' hroll
        refine .ok ⟨?_, htempo, ?_⟩
        · rw [htimeline, hcoarse]
          exact Timeline.totalLength_alike patterns
        · rwa [Roll.exported_eq_stream, Roll.exported_eq_stream]

def doubled : Resolution :=
  ⟨960, by decide, by decide, by decide⟩

/-- Drums, a generated line, and a bass with held steps, an upbeat and an afterbeat. The first
upbeat would begin before tick zero. -/
def upbeat : Score where
  song := { name := "", tempo := none, key := "C", mode := "Ion", order := ["a", "a"] }
  patterns := [⟨"a", "I| |V| "⟩]
  phrases :=
    [{ kind := "bass", name := "a", note := some "1>>-[--3>]", pre := some "--5>",
       post := some "1---" },
      { kind := "drum", name := "a", data := some { inst := some ["35"], note := some ["x--x"] } },
      { kind := "seque", name := "a" }]
  parts := [⟨"bass", 0, "33"⟩, ⟨"drum", 9, "0"⟩, ⟨"seque", 1, "0"⟩]
  faders := [⟨"bass", 100, "left", false⟩]

theorem fitsTicks_upbeat : ∀ r ∈ [Resolution.standard, doubled],
    ∀ arrangement, upbeat.compile (({} : Settings).withResolution r) = .ok arrangement →
      arrangement.FitsTicks := by
  have hall : ∀ r ∈ [Resolution.standard, doubled],
      (upbeat.compile (({} : Settings).withResolution r)).toOption.all
        (fun arrangement => arrangement.FitsTicks) = true := by
    decide +kernel
  intro r hr arrangement hcompile
  have hfits := hall r hr
  rw [hcompile] at hfits
  exact of_decide_eq_true hfits

theorem compile_scales_with_resolution_upbeat :
    ∃ fine coarse, Edition.compile upbeat (({} : Settings).withResolution .standard) = .ok fine
      ∧ Edition.compile upbeat (({} : Settings).withResolution doubled) = .ok coarse
      ∧ Edition.Alike .standard doubled fine coarse := by
  have hcompiled : (Edition.compile upbeat
      (({} : Settings).withResolution .standard)).toOption.isSome = true := by
    decide +kernel
  obtain ⟨fault, hfault, -⟩ | halike := compile_scales_with_resolution upbeat {} .standard doubled
    (fitsTicks_upbeat _ (by simp)) (fitsTicks_upbeat _ (by simp))
  · rw [hfault] at hcompiled
    cases hcompiled
  · exact halike

end ChordGrid
