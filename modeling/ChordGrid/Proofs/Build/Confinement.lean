import ChordGrid.Proofs.Build.Calling
import ChordGrid.Proofs.Build.Compiling

/-!
# Editing one phrase

A phrase reaches the parts of its own kind and no others. Whoever writes a phrase anew, in its place
in the list and for the same kind, changes nothing on the channels where no part of this kind sits.
The phrases keep their seeds, since these go by the place in the list, and every other part takes up
the phrases that it took up before. What the parts of the kind send between the messages of the
others does not move these, since the sorting by ticks is stable.
-/

namespace ChordGrid

/-- A part for phrases of a kind sits on a channel. -/
def Score.Seats (score : Score) (kind : PhraseKind) (channel : Nat) : Prop :=
  ∃ entry ∈ score.parts, entry.channel = channel ∧ PhraseKind.parse entry.kind = .ok kind

instance (score : Score) (kind : PhraseKind) (channel : Nat) :
    Decidable (score.Seats kind channel) :=
  inferInstanceAs (Decidable (∃ _ ∈ _, _))

/-- The messages on all channels where no part of a kind sits. -/
def Score.awayFrom (score : Score) (kind : PhraseKind) (messages : List Timed) : List Timed :=
  messages.filter fun timed => ¬ score.Seats kind timed.message.channel

/-- Parts with the same seat and kind. Unless it is a given kind, they are the same part. -/
structure Part.SameBut (kind : PhraseKind) (part other : Part) : Prop where
  channel : part.channel = other.channel
  kind_eq : part.kind = other.kind
  same : part.kind ≠ kind → part = other

namespace Score

variable {score : Score} {settings : Settings} {kind : PhraseKind}
  {before after : List PhraseEntry} {former entry : PhraseEntry}

/-! ### Parts -/

theorem of_compilePhrases {r : Resolution} {phrases : List Phrase}
    (hphrases : compilePhrases { score with phrases := before ++ entry :: after } settings r
      = .ok phrases) :
    ∃ earlier phrase later, phrases = earlier ++ phrase :: later
      ∧ compilePhrases { score with phrases := before } settings r = .ok earlier
      ∧ PhraseKind.parse entry.kind = .ok phrase.kind
      ∧ ((after.zipIdx (before.length + 1)).mapM fun (entry, index) =>
          entry.compile r settings.velocity (settings.seed.getD 0 + UInt64.ofNat index))
        = .ok later := by
  rw [compilePhrases, List.zipIdx_append, List.zipIdx_cons, List.mapM_append, List.mapM_cons,
    Nat.zero_add] at hphrases
  obtain ⟨earlier, hearlier, h⟩ := bind_eq_ok_iff.mp hphrases
  obtain ⟨_, hrest, h⟩ := bind_eq_ok_iff.mp h
  cases h
  obtain ⟨phrase, hphrase, hrest⟩ := bind_eq_ok_iff.mp hrest
  obtain ⟨later, hlater, hrest⟩ := bind_eq_ok_iff.mp hrest
  cases hrest
  exact ⟨earlier, phrase, later, rfl, hearlier, PhraseEntry.kind_of_compile hphrase, hlater⟩

theorem compilePhrases_edited {r : Resolution} {phrases others : List Phrase}
    (hformer : PhraseKind.parse former.kind = .ok kind)
    (hentry : PhraseKind.parse entry.kind = .ok kind)
    (hphrases : compilePhrases { score with phrases := before ++ former :: after } settings r
      = .ok phrases)
    (hothers : compilePhrases { score with phrases := before ++ entry :: after } settings r
      = .ok others) :
    ∃ earlier phrase other later, phrases = earlier ++ phrase :: later
      ∧ others = earlier ++ other :: later ∧ phrase.kind = kind ∧ other.kind = kind := by
  obtain ⟨earlier, phrase, later, rfl, hearlier, hphrase, hlater⟩ := of_compilePhrases hphrases
  obtain ⟨earlier', other, later', rfl, hearlier', hother, hlater'⟩ := of_compilePhrases hothers
  cases hearlier.symm.trans hearlier'
  cases hlater.symm.trans hlater'
  exact ⟨earlier, phrase, other, later, rfl, rfl, Except.ok.inj (hphrase.symm.trans hformer),
    Except.ok.inj (hother.symm.trans hentry)⟩

theorem compile_part_edited (made : PartEntry) {earlier later : List Phrase}
    {phrase other : Phrase} (hphrase : phrase.kind = kind) (hother : other.kind = kind) :
    Agree (fun part mate => part.SameBut kind mate
        ∧ part.channel = made.channel ∧ PhraseKind.parse made.kind = .ok part.kind)
      (made.compile (earlier ++ phrase :: later)) (made.compile (earlier ++ other :: later)) := by
  rw [made.compile_eq_map (earlier ++ phrase :: later),
    made.compile_eq_map (earlier ++ other :: later)]
  cases hpart : made.compile [] with
  | error fault => exact .error fault
  | ok part =>
      obtain ⟨hkind, -, hchannel, -⟩ := PartEntry.of_compile hpart
      refine .ok ⟨⟨rfl, rfl, ?_⟩, hchannel, hkind⟩
      intro hne
      have hskip : ∀ own : Phrase, own.kind = kind →
          (own :: later).filter (fun phrase => phrase.kind = part.kind)
            = later.filter fun phrase => phrase.kind = part.kind := by
        rintro own rfl
        apply List.filter_cons_of_neg
        rw [decide_eq_true_eq]
        exact hne.symm
      simp only [List.filter_append, hskip phrase hphrase, hskip other hother]

/-- Scores that differ in one phrase are arranged alike, but for the parts of its kind. -/
theorem compile_edited {arrangement another : Arrangement}
    (hformer : PhraseKind.parse former.kind = .ok kind)
    (hentry : PhraseKind.parse entry.kind = .ok kind)
    (hcompile : compile { score with phrases := before ++ former :: after } settings
      = .ok arrangement)
    (hanother : compile { score with phrases := before ++ entry :: after } settings
      = .ok another) :
    arrangement.timeline = another.timeline ∧ arrangement.faders = another.faders
      ∧ List.Forall₂ (fun part mate => part.SameBut kind mate
        ∧ (part.kind = kind → score.Seats kind part.channel)) arrangement.parts another.parts := by
  obtain ⟨r, key, mode, patterns, phrases, hr, hkey, hmode, hpatterns, htimeline, hphrases, hparts,
    hfaders, -⟩ := compile_eq_ok_iff.mp hcompile
  obtain ⟨r', key', mode', patterns', others, hr', hkey', hmode', hpatterns', htimeline', hothers,
    hparts', hfaders', -⟩ := compile_eq_ok_iff.mp hanother
  cases hr.symm.trans hr'
  cases hkey.symm.trans hkey'
  cases hmode.symm.trans hmode'
  cases hpatterns.symm.trans hpatterns'
  obtain ⟨earlier, phrase, other, later, rfl, rfl, hphrase, hother⟩ :=
    compilePhrases_edited hformer hentry hphrases hothers
  refine ⟨Except.ok.inj (htimeline.symm.trans htimeline'),
    Except.ok.inj (hfaders.symm.trans hfaders'), ?_⟩
  have hmade : Agree (List.Forall₂ fun part mate => part.SameBut kind mate
        ∧ (part.kind = kind → score.Seats kind part.channel))
      (score.parts.mapM fun made => made.compile (earlier ++ phrase :: later))
      (score.parts.mapM fun made => made.compile (earlier ++ other :: later)) := by
    apply Agree.mapM_same
    intro made hmem
    apply (compile_part_edited made hphrase hother).imp
    rintro part mate ⟨hsame, hchannel, hkind⟩
    refine ⟨hsame, ?_⟩
    rintro rfl
    exact ⟨made, hmem, hchannel.symm, hkind⟩
  obtain ⟨mates, hmates, hrelated⟩ := hmade.exists_ok hparts
  cases hmates.symm.trans hparts'
  exact hrelated

/-! ### Messages -/

theorem awayFrom_append (messages more : List Timed) :
    score.awayFrom kind (messages ++ more)
      = score.awayFrom kind messages ++ score.awayFrom kind more :=
  List.filter_append ..

theorem awayFrom_build {timeline : Timeline} {tick : Nat} {mode : BuildMode} {part mate : Part}
    (hsame : part.SameBut kind mate) (hseat : part.kind = kind → score.Seats kind part.channel)
    {made more : List Timed} (hmade : (part.build timeline tick mode).1 = .ok made)
    (hmore : (mate.build timeline tick mode).1 = .ok more) :
    score.awayFrom kind made = score.awayFrom kind more := by
  by_cases hkind : part.kind = kind
  · -- Both parts send on a channel that does not count.
    have hnone : ∀ messages : List Timed,
        (∀ timed ∈ messages, timed.message.channel = part.channel) →
          score.awayFrom kind messages = [] := by
      intro messages hchannel
      refine List.filter_eq_nil_iff.mpr ?_
      intro timed htimed
      rw [decide_eq_true_eq, not_not, hchannel timed htimed]
      exact hseat hkind
    rw [hnone made (Part.channel_of_build hmade), hnone more]
    rw [hsame.channel]
    exact Part.channel_of_build hmore
  · obtain rfl := hsame.same hkind
    cases hmade.symm.trans hmore
    rfl

theorem mixdown_sameBut {parts mates : List Part}
    (hparts : List.Forall₂ (Part.SameBut kind) parts mates) (faders : List Fader) :
    mixdown faders parts = mixdown faders mates := by
  have hseats : ∀ fader : Fader,
      (parts.filter fun part => part.kind = fader.kind).map Part.channel
        = (mates.filter fun part => part.kind = fader.kind).map Part.channel := by
    intro fader
    induction hparts with
    | nil => rfl
    | @cons part mate _ _ hsame _ ih =>
        rw [List.filter_cons, List.filter_cons, hsame.kind_eq]
        split
        · rw [List.map_cons, List.map_cons, hsame.channel, ih]
        · exact ih
  have hmessages : ∀ (fader : Fader) (parts : List Part),
      parts.flatMap (fun part => (fader.messages part.channel).map (Timed.mk 0))
        = (parts.map Part.channel).flatMap fun channel =>
            (fader.messages channel).map (Timed.mk 0) := by
    intro fader parts
    rw [List.flatMap_map]
  simp only [mixdown, hmessages, hseats]

theorem awayFrom_stream (messages : List Timed) :
    score.awayFrom kind (Roll.ofMessages messages).stream
      = sortedBy Timed.order (score.awayFrom kind messages) := by
  rw [Roll.stream_ofMessages, awayFrom, filter_sortedBy, ← awayFrom]

/-- **Editing a phrase stays with its kind.** Scores that differ in one place of the list of
phrases, where both have a phrase of one kind, are exported alike on the channels where no part of
this kind sits: the same messages, at the same ticks, in the same order. -/
theorem edit_stays_with_kind {edition other : Edition}
    (hformer : PhraseKind.parse former.kind = .ok kind)
    (hentry : PhraseKind.parse entry.kind = .ok kind)
    (hcompile : Edition.compile { score with phrases := before ++ former :: after } settings
      = .ok edition)
    (hother : Edition.compile { score with phrases := before ++ entry :: after } settings
      = .ok other)
    (quantum : Nat) :
    score.awayFrom kind (edition.roll.exported quantum)
      = score.awayFrom kind (other.roll.exported quantum) := by
  obtain ⟨arrangement, messages, harrangement, hmessages, rfl⟩ :=
    Edition.compile_eq_ok_iff.mp hcompile
  obtain ⟨another, more, hanother, hmore, rfl⟩ := Edition.compile_eq_ok_iff.mp hother
  obtain ⟨htimeline, hfaders, hparts⟩ := compile_edited hformer hentry harrangement hanother
  obtain ⟨lists, hlists, rfl⟩ := map_eq_ok_iff.mp hmessages
  obtain ⟨others, hothers, rfl⟩ := map_eq_ok_iff.mp hmore
  rw [sweep_eq_ok_iff, htimeline] at hlists
  rw [sweep_eq_ok_iff] at hothers
  have hmixdown := mixdown_sameBut (hparts.imp fun _ _ hpair => hpair.1) arrangement.faders
  have hparted : score.awayFrom kind lists.flatten = score.awayFrom kind others.flatten := by
    refine Part.view_builds rfl awayFrom_append ?_ hparts hlists hothers
    intro part mate made more hpair
    exact awayFrom_build hpair.1 hpair.2
  have hmade : score.awayFrom kind
        (mixdown arrangement.faders arrangement.parts ++ lists.flatten)
      = score.awayFrom kind (mixdown another.faders another.parts ++ others.flatten) := by
    rw [awayFrom_append, awayFrom_append, hparted, hmixdown, hfaders]
  rw [Roll.exported_eq_stream, Roll.exported_eq_stream, awayFrom_stream, awayFrom_stream, hmade]

def padOn (grid : String) : PhraseEntry :=
  { kind := "pad", name := "a", data := some { note := some [grid] } }

def rootBass : PhraseEntry :=
  { kind := "bass", name := "a", note := some "1---" }

/-- A pad over a bass. -/
def duet (grid : String) : Score where
  song := { name := "", tempo := none, key := "C", mode := "Ion", order := ["a"] }
  patterns := [⟨"a", "I| | | "⟩]
  phrases := [padOn grid, rootBass]
  parts := [⟨"pad", 0, "0"⟩, ⟨"bass", 1, "0"⟩]
  faders := [⟨"bass", 100, "left", false⟩]

/-- The bass is exported the same whatever the pad plays. -/
theorem edit_stays_with_pad :
    ¬ (duet "1---").Seats .pad 1
      ∧ ∃ edition other, Edition.compile (duet "1---") {} = .ok edition
        ∧ Edition.compile (duet "5>-3") {} = .ok other
        ∧ (duet "1---").awayFrom .pad (edition.roll.exported 30)
          = (duet "1---").awayFrom .pad (other.roll.exported 30) := by
  obtain ⟨edition, hedition⟩ : ∃ edition, Edition.compile (duet "1---") {} = .ok edition :=
    exists_ok_of_isSome (by decide +kernel)
  obtain ⟨other, hother⟩ : ∃ other, Edition.compile (duet "5>-3") {} = .ok other :=
    exists_ok_of_isSome (by decide +kernel)
  refine ⟨by decide, edition, other, hedition, hother, ?_⟩
  exact @edit_stays_with_kind (duet "1---") {} .pad [] [rootBass] (padOn "1---") (padOn "5>-3")
    edition other (by decide) (by decide) hedition hother 30

end Score

end ChordGrid
