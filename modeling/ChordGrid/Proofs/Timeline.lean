import ChordGrid.Playhead
import ChordGrid.Proofs.Build.Extent
import ChordGrid.Proofs.Build.Tail

/-!
# How occurrences tile a timeline

A timeline is laid out by adding up beats. Whoever plays it from a measure on counts measures
instead, with arithmetic that stops at the last tick, and whoever builds from a tick on goes by the
starts alone. All three agree, because every pattern has a measure and no measure is shorter than a
quantum.
-/

namespace ChordGrid

namespace Resolution

variable {r : Resolution}

theorem quantum_dvd_ofBeats (r : Resolution) (count : Nat) : r.quantum ∣ r.ofBeats count :=
  (Dvd.intro_left 16 r.ticksPerQuarter_eq.symm).mul_left count

theorem ofBeats_add (r : Resolution) (count more : Nat) :
    r.ofBeats (count + more) = r.ofBeats count + r.ofBeats more :=
  Nat.add_mul count more r.ticksPerQuarter

/-- Up to the last tick measures are counted as their beats are. -/
theorem startOfMeasure_eq {count : Nat} (hcount : r.ofBeats (count * beatsPerMeasure) ≤ lastTick) :
    r.startOfMeasure count = r.ofBeats (count * beatsPerMeasure) := by
  have hbeats : count * beatsPerMeasure ≤ r.ofBeats (count * beatsPerMeasure) :=
    Nat.le_mul_of_pos_right _ r.pos
  rw [startOfMeasure, Nat.min_eq_right (Nat.le_trans hbeats hcount)]
  exact Nat.min_eq_right hcount

end Resolution

theorem Playhead.position_start {playhead : Playhead} {tick : Nat}
    (htick : playhead.resolution.quantum ∣ tick) (valid : Live.Publication) :
    (playhead.start valid tick).2.position = tick := by
  change tick - tick % playhead.resolution.quantum = tick
  rw [Nat.mod_eq_zero_of_dvd htick, Nat.sub_zero]

theorem Pattern.beatCount_pos (pattern : Pattern) : 0 < pattern.beatCount :=
  Nat.mul_pos (Nat.succ_pos _) (by decide)

theorem Occurrence.start_lt_stop (occurrence : Occurrence) (r : Resolution) :
    occurrence.start < occurrence.stop r :=
  Nat.lt_add_of_pos_right (Nat.mul_pos occurrence.pattern.beatCount_pos r.pos)

/-- The measures of some occurrences together. -/
def measureCount (occurrences : List Occurrence) : Nat :=
  (occurrences.map fun occurrence => occurrence.pattern.measures.length).sum

namespace Timeline

variable {r : Resolution} {start : Nat} {patterns : List Pattern}

theorem map_pattern_place (r : Resolution) (start : Nat) (patterns : List Pattern) :
    (place r start patterns).map Occurrence.pattern = patterns := by
  induction patterns generalizing start with
  | nil => rfl
  | cons pattern rest ih => rw [place, List.map_cons, ih]

theorem isChain_place (r : Resolution) (start : Nat) (patterns : List Pattern) :
    (place r start patterns).IsChain fun a b => b.start = a.stop r := by
  induction patterns generalizing start with
  | nil => exact .nil
  | cons pattern rest ih =>
      cases rest with
      | nil => exact .singleton _
      | cons next rest => exact .cons_cons rfl (ih _)

theorem pairwise_lt_place (r : Resolution) (start : Nat) (patterns : List Pattern) :
    (place r start patterns).Pairwise fun a b => a.start < b.start := by
  induction patterns generalizing start with
  | nil => exact .nil
  | cons pattern rest ih =>
      apply List.Pairwise.cons
      · intro occurrence hoccurrence
        calc start
            < (Occurrence.mk pattern start).stop r := (Occurrence.mk pattern start).start_lt_stop r
          _ ≤ occurrence.start := le_start_of_mem_place hoccurrence
      · exact ih _

theorem stop_of_getLast?_place {last : Occurrence}
    (hlast : (place r start patterns).getLast? = some last) :
    last.stop r = start + totalLength r patterns := by
  induction patterns generalizing start with
  | nil => cases hlast
  | cons pattern rest ih =>
      rw [totalLength, ← Nat.add_assoc]
      cases rest with
      | nil =>
          cases hlast
          rfl
      | cons next rest =>
          apply ih
          rwa [place, place, List.getLast?_cons_cons] at hlast

theorem start_of_place {before after : List Occurrence} {occurrence : Occurrence}
    (hplace : place r start patterns = before ++ occurrence :: after) :
    occurrence.start = start + r.ofBeats (measureCount before * beatsPerMeasure) := by
  induction before generalizing start patterns with
  | nil =>
      cases patterns with
      | nil => cases hplace
      | cons pattern rest =>
          cases hplace
          simp [measureCount, Resolution.ofBeats]
  | cons first before ih =>
      cases patterns with
      | nil => cases hplace
      | cons pattern rest =>
          obtain ⟨rfl, hrest⟩ := List.cons.inj hplace
          rw [ih hrest, Nat.add_assoc, ← Resolution.ofBeats_add, Pattern.beatCount,
            ← Nat.add_mul]
          rfl

theorem start_of_head?_place {first : Occurrence}
    (hfirst : first ∈ (place r start patterns).head?) : first.start = start := by
  cases patterns with
  | nil => cases hfirst
  | cons pattern rest =>
      cases hfirst
      rfl

theorem totalLength_eq (r : Resolution) (patterns : List Pattern) :
    totalLength r patterns
      = ((place r 0 patterns).getLast?.map (Occurrence.stop r)).getD 0 := by
  cases hlast : (place r 0 patterns).getLast? with
  | none =>
      have hnil : patterns = [] := by
        rw [← map_pattern_place r 0 patterns, List.getLast?_eq_none_iff.mp hlast, List.map_nil]
      rw [hnil]
      rfl
  | some last =>
      rw [Option.map_some, Option.getD_some, stop_of_getLast?_place hlast, Nat.zero_add]

theorem start_of_place_of_le (hlength : totalLength r patterns ≤ lastTick)
    {before after : List Occurrence} {occurrence : Occurrence}
    (hplace : place r 0 patterns = before ++ occurrence :: after) :
    occurrence.start = r.startOfMeasure (measureCount before)
      ∧ r.quantum ∣ occurrence.start := by
  have hmem : occurrence ∈ place r 0 patterns := by
    rw [hplace]
    exact List.mem_append_right before List.mem_cons_self
  have hstart : occurrence.start = r.ofBeats (measureCount before * beatsPerMeasure) := by
    rw [start_of_place hplace, Nat.zero_add]
  have hle : occurrence.start ≤ lastTick := by
    calc occurrence.start
        ≤ occurrence.stop r := Nat.le_of_lt (occurrence.start_lt_stop r)
      _ ≤ 0 + totalLength r patterns := stop_le_of_mem_place hmem
      _ ≤ lastTick := by rwa [Nat.zero_add]
  constructor
  · rw [Resolution.startOfMeasure_eq (hstart ▸ hle), hstart]
  · rw [hstart]
    exact r.quantum_dvd_ofBeats _

theorem forall₂_of_arrange {tonality : Tonality} {names : List String} {timeline : Timeline}
    (h : arrange tonality r patterns names = .ok timeline) :
    ∃ called, timeline = ofPatterns tonality r called
      ∧ List.Forall₂ (fun name occurrence =>
        Pattern.find? patterns name = some occurrence.pattern) names timeline.occurrences := by
  obtain ⟨called, hcalled, h⟩ := bind_eq_ok_iff.mp h
  cases h
  refine ⟨called, rfl, ?_⟩
  rw [← map_pattern_place r 0 called] at hcalled
  refine (List.forall₂_map_right_iff.mp (mapM_eq_ok_iff.mp hcalled)).imp ?_
  intro name occurrence hname
  split at hname
  · next found hfind => rw [hfind, Except.ok.inj hname]
  · cases hname

/-- **Occurrences tile their timeline.** A song has one occurrence for each name that it calls. The
first starts at tick zero, each other one where the one before it ends, so later than that one
starts, and the song is over where the last one ends. If it is over by the last tick, an occurrence
starts at the measure that its place in the song has, and playback from this measure starts right
there. Whatever starts from some tick on is the end of the song. -/
theorem occurrences_tile {tonality : Tonality} {names : List String} {timeline : Timeline}
    (h : arrange tonality r patterns names = .ok timeline) :
    List.Forall₂ (fun name occurrence => Pattern.find? patterns name = some occurrence.pattern)
        names timeline.occurrences
      ∧ (∀ first ∈ timeline.occurrences.head?, first.start = 0)
      ∧ timeline.occurrences.IsChain (fun a b => b.start = a.stop r)
      ∧ timeline.length = (timeline.occurrences.getLast?.map (Occurrence.stop r)).getD 0
      ∧ timeline.occurrences.Pairwise (fun a b => a.start < b.start)
      ∧ (timeline.length ≤ lastTick →
        ∀ before occurrence after, timeline.occurrences = before ++ occurrence :: after →
          occurrence.start = r.startOfMeasure (measureCount before)
            ∧ r.quantum ∣ occurrence.start
            ∧ ∀ (playhead : Playhead) valid, playhead.resolution = r →
              (playhead.start valid (r.startOfMeasure (measureCount before))).2.position
                = occurrence.start)
      ∧ ∀ tick, timeline.startingFrom tick <:+ timeline.occurrences := by
  obtain ⟨called, rfl, hcalled⟩ := forall₂_of_arrange h
  refine ⟨hcalled, fun first => start_of_head?_place, isChain_place r 0 called,
    totalLength_eq r called, pairwise_lt_place r 0 called, ?_, ?_⟩
  · intro hlength before occurrence after hplace
    obtain ⟨hmeasure, hquantum⟩ := start_of_place_of_le hlength hplace
    refine ⟨hmeasure, hquantum, ?_⟩
    intro playhead valid hresolution
    rw [← hmeasure]
    exact Playhead.position_start (hresolution ▸ hquantum) valid
  · intro tick
    exact ⟨_, startingBefore_append_startingFrom tonality r called tick⟩

def verse : Pattern :=
  ⟨"a", ⟨⟨4, .I, none⟩, []⟩, []⟩

def chorus : Pattern :=
  ⟨"b", ⟨⟨2, .IV, none⟩, [⟨2, .V, none⟩]⟩, [⟨⟨4, .I, none⟩, []⟩]⟩

/-- The second chorus starts in the fourth measure. -/
theorem occurrences_tile_chorus :
    ∃ timeline, arrange ⟨⟨0⟩, .ionian⟩ .standard [verse, chorus] ["b", "a", "b"] = .ok timeline
      ∧ timeline.length ≤ lastTick
      ∧ timeline.occurrences = [⟨chorus, 0⟩, ⟨verse, 3840⟩] ++ ⟨chorus, 5760⟩ :: []
      ∧ 5760 = Resolution.standard.startOfMeasure 3
      ∧ timeline.startingFrom 3841 <:+ timeline.occurrences := by
  have harrange : arrange ⟨⟨0⟩, .ionian⟩ .standard [verse, chorus] ["b", "a", "b"]
      = .ok (ofPatterns ⟨⟨0⟩, .ionian⟩ .standard [chorus, verse, chorus]) := by
    rfl
  obtain ⟨-, -, -, -, -, hmeasures, htails⟩ := occurrences_tile harrange
  have hlength : (ofPatterns ⟨⟨0⟩, .ionian⟩ .standard [chorus, verse, chorus]).length
      ≤ lastTick := by
    decide
  have hstart := (hmeasures hlength [⟨chorus, 0⟩, ⟨verse, 3840⟩] ⟨chorus, 5760⟩ [] rfl).1
  exact ⟨_, harrange, hlength, rfl, hstart, htails 3841⟩

end Timeline

end ChordGrid
