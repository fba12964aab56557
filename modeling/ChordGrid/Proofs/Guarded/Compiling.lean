import ChordGrid.Proofs.Guarded.Harmony
import ChordGrid.Score.Compile

namespace ChordGrid

structure LooseOccurrence where
  pattern : LoosePattern
  start : Nat
  deriving DecidableEq, Repr

structure LooseTimeline where
  tonality : Tonality
  resolution : Resolution
  occurrences : List LooseOccurrence
  length : Nat
  deriving DecidableEq, Repr

structure LooseArrangement where
  timeline : LooseTimeline
  parts : List Part
  faders : List Fader
  tempo : Nat
  deriving DecidableEq, Repr

def Occurrence.loose (occurrence : Occurrence) : LooseOccurrence :=
  ⟨occurrence.pattern.loose, occurrence.start⟩

def Timeline.loose (timeline : Timeline) : LooseTimeline where
  tonality := timeline.tonality
  resolution := timeline.resolution
  occurrences := timeline.occurrences.map Occurrence.loose
  length := timeline.length

def Arrangement.loose (arrangement : Arrangement) : LooseArrangement where
  timeline := arrangement.timeline.loose
  parts := arrangement.parts
  faders := arrangement.faders
  tempo := arrangement.tempo

namespace LooseTimeline

def place (r : Resolution) (start : Nat) : List LoosePattern → List LooseOccurrence
  | [] => []
  | pattern :: rest => ⟨pattern, start⟩ :: place r (start + r.ofBeats pattern.beatCount) rest

def totalLength (r : Resolution) : List LoosePattern → Nat
  | [] => 0
  | pattern :: rest => r.ofBeats pattern.beatCount + totalLength r rest

def find (patterns : List LoosePattern) (name : String) : Except Halt LoosePattern :=
  match patterns.reverse.find? fun pattern => pattern.name = name with
  | some pattern => .ok pattern
  | none => .error (.fault (.unknownPattern name))

def arrange (tonality : Tonality) (r : Resolution) (patterns : List LoosePattern)
    (names : List String) : Except Halt LooseTimeline := do
  let called ← names.mapM (find patterns)
  return ⟨tonality, r, place r 0 called, totalLength r called⟩

end LooseTimeline

namespace Timeline

theorem place_loose (r : Resolution) (start : Nat) (patterns : List Pattern) :
    LooseTimeline.place r start (patterns.map Pattern.loose)
      = (place r start patterns).map Occurrence.loose := by
  induction patterns generalizing start with
  | nil => rfl
  | cons pattern rest ih =>
      rw [List.map_cons, LooseTimeline.place, pattern.beatCount_loose, ih]
      rfl

theorem totalLength_loose (r : Resolution) (patterns : List Pattern) :
    LooseTimeline.totalLength r (patterns.map Pattern.loose) = totalLength r patterns := by
  induction patterns with
  | nil => rfl
  | cons pattern rest ih =>
      rw [List.map_cons, LooseTimeline.totalLength, pattern.beatCount_loose, ih]
      rfl

theorem find_loose (patterns : List Pattern) (name : String) :
    LooseTimeline.find (patterns.map Pattern.loose) name
      = Guarded.sure ((match Pattern.find? patterns name with
        | some pattern => Except.ok pattern
        | none => .error (Fault.unknownPattern name)).map Pattern.loose) := by
  rw [LooseTimeline.find, Pattern.find?, ← List.map_reverse, List.find?_map]
  cases hfind : patterns.reverse.find? fun pattern => pattern.name = name with
  | none =>
      have hnone : patterns.reverse.find? ((fun pattern => decide (pattern.name = name))
          ∘ Pattern.loose) = none := hfind
      rw [hnone]
      rfl
  | some pattern =>
      have hsome : patterns.reverse.find? ((fun pattern => decide (pattern.name = name))
          ∘ Pattern.loose) = some pattern := hfind
      rw [hsome]
      rfl

theorem arrange_loose (tonality : Tonality) (r : Resolution) (patterns : List Pattern)
    (names : List String) :
    LooseTimeline.arrange tonality r (patterns.map Pattern.loose) names
      = Guarded.sure ((arrange tonality r patterns names).map loose) := by
  have hcalled : names.mapM (LooseTimeline.find (patterns.map Pattern.loose))
      = Guarded.sure ((names.mapM fun name => match Pattern.find? patterns name with
        | some pattern => Except.ok pattern
        | none => .error (Fault.unknownPattern name)).map (List.map Pattern.loose)) := by
    rw [Guarded.map_mapM, Guarded.sure_mapM]
    exact congrArg (List.mapM · names) (funext (find_loose patterns))
  rw [LooseTimeline.arrange, arrange, hcalled]
  cases names.mapM fun name => match Pattern.find? patterns name with
        | some pattern => Except.ok pattern
        | none => .error (Fault.unknownPattern name) with
  | error fault => rfl
  | ok called =>
      change Except.ok (LooseTimeline.mk _ _ _ _) = Except.ok (loose (ofPatterns _ _ _))
      rw [place_loose, totalLength_loose]
      rfl

end Timeline

namespace Guarded

/-! ### Voices -/

/-- The voice of a pad by its number. -/
def padLine (octaves : List Int) (pickups tails : List (List Cell)) (voice : String × Nat) :
    Except Halt PitchedLine := do
  let (grid, index) := voice
  let octave ← entry octaves index
  let interval ← sure (octaveInterval octave)
  let cells ← sure (Grid.pitched grid)
  let pickup ← entry pickups index
  let tail ← entry tails index
  return { cells, interval, pickup, tail }

def padLines (voices : PhraseEntry) : Except Halt (List PitchedLine) := do
  let grids ← sure voices.grids
  let octaves := voices.voices.oct.getD (List.replicate grids.length 0)
  sure (requireEach voices.name .oct grids.length octaves.length)
  let pickups ← sure (gridOfEach voices.name .pre grids.length voices.voices.pre)
  let tails ← sure (gridOfEach voices.name .post grids.length voices.voices.post)
  grids.zipIdx.mapM (padLine octaves pickups tails)

theorem requireEach_eq_ok {phrase : String} {field : VoiceField} {voices entries : Nat}
    (h : requireEach phrase field voices entries = .ok ()) : entries = voices := by
  unfold requireEach at h
  split at h
  · assumption
  · cases h

theorem length_of_gridOfEach {phrase : String} {field : VoiceField} {voices : Nat}
    {given : Option (List String)} {grids : List (List Cell)}
    (h : gridOfEach phrase field voices given = .ok grids) : grids.length = voices := by
  cases given with
  | none =>
      cases h
      exact List.length_replicate
  | some texts =>
      obtain ⟨_, heach, hgrids⟩ := bind_eq_ok_iff.mp h
      rw [← requireEach_eq_ok heach]
      exact (mapM_eq_ok_iff.mp hgrids).length_eq.symm

theorem mapM_eq_of_forall₂ {α β γ ε : Type} {f : α → Except ε γ} {g : β → Except ε γ}
    {things : List α} {others : List β}
    (h : List.Forall₂ (fun thing other => f thing = g other) things others) :
    things.mapM f = others.mapM g := by
  induction h with
  | nil => rfl
  | cons hfirst _ ih => rw [List.mapM_cons, List.mapM_cons, hfirst, ih]

/-- What is looked up by number is what stands side by side. -/
theorem mapM_padLine {grids : List String} {octaves : List Int} {pickups tails : List (List Cell)}
    (hoctaves : octaves.length = grids.length) (hpickups : pickups.length = grids.length)
    (htails : tails.length = grids.length) :
    grids.zipIdx.mapM (padLine octaves pickups tails)
      = sure (((grids.zip octaves).zip (pickups.zip tails)).mapM PhraseEntry.padLine) := by
  rw [sure_mapM]
  apply mapM_eq_of_forall₂
  apply List.forall₂_iff_get.mpr
  refine ⟨by simp [hoctaves, hpickups, htails], ?_⟩
  intro index hleft hright
  have hlt : index < grids.length := by simpa using hleft
  simp only [List.get_eq_getElem, List.getElem_zipIdx, List.getElem_zip, Nat.zero_add]
  rw [padLine, PhraseEntry.padLine, entry_eq_ok (List.getElem?_eq_getElem (hoctaves ▸ hlt)),
    entry_eq_ok (List.getElem?_eq_getElem (hpickups ▸ hlt)),
    entry_eq_ok (List.getElem?_eq_getElem (htails ▸ hlt))]
  simp only [sure_bind]
  rfl

theorem padLines_eq (voices : PhraseEntry) : padLines voices = sure voices.padLines := by
  refine bind_eq_sure fun grids _ => bind_eq_sure fun _ hoctaves => ?_
  refine bind_eq_sure fun pickups hpickups => bind_eq_sure fun tails htails => ?_
  exact mapM_padLine (requireEach_eq_ok hoctaves) (length_of_gridOfEach hpickups)
    (length_of_gridOfEach htails)

/-! ### Scores -/

def content (given : PhraseEntry) (seed : UInt64) : PhraseKind → Except Halt Content
  | .drum => sure (given.drumLines.map .drum)
  | .pad => (padLines given).map .pad
  | .bass => sure (given.bassLine.map .bass)
  | .seque => .ok (.seque (Generator.ofSeed seed))

def phrase (given : PhraseEntry) (r : Resolution) (velocity : Nat) (seed : UInt64) :
    Except Halt Phrase := do
  let kind ← sure (PhraseKind.parse given.kind)
  let content ← content given seed kind
  return Phrase.fresh given.name content r velocity

def phrases (score : Score) (settings : Settings) (r : Resolution) : Except Halt (List Phrase) :=
  score.phrases.zipIdx.mapM fun (given, index) =>
    phrase given r settings.velocity (settings.seed.getD 0 + UInt64.ofNat index)

def compile (score : Score) (settings : Settings) : Except Halt LooseArrangement := do
  let r ← sure settings.resolution
  let key ← key score.song.key
  let mode ← sure (Mode.parse score.song.mode)
  let patterns ← score.patterns.mapM fun given => LoosePattern.parse given.name given.data
  let timeline ← LooseTimeline.arrange ⟨key, mode⟩ r patterns score.song.order
  let phrases ← phrases score settings r
  let parts ← sure (score.parts.mapM fun given => given.compile phrases)
  let faders ← sure (score.faders.mapM FaderEntry.compile)
  return { timeline, parts, faders, tempo := score.song.tempo.getD settings.tempo }

theorem content_eq (given : PhraseEntry) (seed : UInt64) (kind : PhraseKind) :
    content given seed kind = sure (given.content seed kind) := by
  cases kind with
  | pad => rw [content, padLines_eq, ← sure_map, PhraseEntry.content]
  | _ => rfl

theorem phrases_eq (score : Score) (settings : Settings) (r : Resolution) :
    phrases score settings r = sure (score.compilePhrases settings r) := by
  rw [phrases, Score.compilePhrases, sure_mapM]
  apply congrArg (List.mapM · score.phrases.zipIdx)
  funext placed
  refine bind_eq_sure fun kind _ => ?_
  rw [content_eq]
  exact bind_eq_sure fun content _ => rfl

theorem patterns_eq (given : List PatternEntry) :
    (given.mapM fun given => LoosePattern.parse given.name given.data)
      = sure ((given.mapM fun given => Pattern.parse given.name given.data).map
          (List.map Pattern.loose)) := by
  rw [map_mapM, sure_mapM]
  exact congrArg (List.mapM · given) (funext fun given => Pattern.parse_loose given.name given.data)

/-- No score slips as it is compiled. -/
theorem compile_eq (score : Score) (settings : Settings) :
    compile score settings = sure ((score.compile settings).map Arrangement.loose) := by
  rw [Score.compile, map_bind]
  refine bind_eq_sure fun r _ => ?_
  rw [key_eq, map_bind]
  refine bind_eq_sure fun key _ => ?_
  rw [map_bind]
  refine bind_eq_sure fun mode _ => ?_
  rw [patterns_eq, map_bind, sure_map, bind_map]
  refine bind_eq_sure fun patterns _ => ?_
  rw [Timeline.arrange_loose, map_bind, sure_map, bind_map]
  refine bind_eq_sure fun timeline _ => ?_
  rw [phrases_eq, map_bind]
  refine bind_eq_sure fun phrases _ => ?_
  rw [map_bind]
  refine bind_eq_sure fun parts _ => ?_
  rw [map_bind]
  exact bind_eq_sure fun faders _ => rfl

end Guarded

end ChordGrid
