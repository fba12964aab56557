import ChordGrid.Proofs.Performance.Republication
import ChordGrid.Proofs.Performance.Restart
import ChordGrid.Proofs.Performance.Setup

namespace ChordGrid

open Live

namespace KeyOn

variable {keys : List KeyOn}

theorem before_iff {a b : KeyOn} :
    before a b = true ↔ a.channel < b.channel ∨ a.channel = b.channel ∧ a.pitch < b.pitch := by
  simp [before]

theorem pairwise_insert (key : KeyOn) (hkeys : keys.Pairwise fun a b => before a b = true) :
    (insert key keys).Pairwise fun a b => before a b = true := by
  induction keys with
  | nil => exact List.pairwise_singleton _ key
  | cons other rest ih =>
      obtain ⟨hother, hrest⟩ := List.pairwise_cons.mp hkeys
      unfold insert
      split
      · exact hkeys
      · next hne =>
          split
          · next hbefore =>
              refine List.pairwise_cons.mpr ⟨?_, hkeys⟩
              intro later hlater
              obtain rfl | hlater := List.mem_cons.mp hlater
              · exact hbefore
              · have hnext := before_iff.mp (hother later hlater)
                rw [before_iff] at hbefore ⊢
                omega
          · next hafter =>
              refine List.pairwise_cons.mpr ⟨?_, ih hrest⟩
              intro later hlater
              obtain rfl | hlater := mem_insert.mp hlater
              · -- The key is neither the other one nor before it.
                have hdistinct : ¬ (later.channel = other.channel ∧ later.pitch = other.pitch) :=
                  fun h => hne (by cases later; cases other; simp_all)
                rw [before_iff] at hafter ⊢
                omega
              · exact hother later hlater

theorem pairwise_afterAll (messages : List Timed) :
    (afterAll [] messages).Pairwise fun a b => before a b = true := by
  induction messages using List.reverseRecOn with
  | nil => exact .nil
  | append_singleton messages last ih =>
      rw [afterAll_append]
      change (after (afterAll [] messages) last.message).Pairwise _
      cases last.message with
      | noteOn channel pitch velocity => exact pairwise_insert _ ih
      | noteOff channel pitch => exact ih.filter _
      | control channel controller value => exact ih
      | program channel number => exact ih

theorem nodup_afterAll (messages : List Timed) : (afterAll [] messages).Nodup := by
  refine (pairwise_afterAll messages).imp ?_
  rintro a b hbefore rfl
  have := before_iff.mp hbefore
  omega

end KeyOn

namespace Performance

/-- The number that the next quantum answers. -/
def answer (performance : Performance) : Nat :=
  (performance.playhead.advance performance.desk.valid).1.count

variable {performance : Performance}

theorem since_eq_nil_of_not_playing {score : Score} {settings : Settings} {opening : Performance}
    (hload : load score settings = .ok opening) {cues : List Cue}
    (hidle : (opening.play cues).playhead.playing = false) : (opening.play cues).since = [] := by
  induction cues using List.reverseRecOn with
  | nil =>
      obtain ⟨desk, playhead, -, -, rfl⟩ := load_eq_ok_iff.mp hload
      rfl
  | append_singleton cues cue ih =>
      rw [play_concat] at hidle ⊢
      cases cue with
      | start tick => cases hidle
      | advance =>
          cases hplaying : (opening.play cues).playhead.playing with
          | true => simp [take, Playhead.advance, hplaying] at hidle
          | false => simp [take, Playhead.advance, hplaying, Delivery.sent, Delivery.nothing,
              ih hplaying]
      | edit move => exact ih hidle

theorem mem_dropped_iff (hsound : performance.Sound) {key : KeyOn} :
    key ∈ performance.dropped
      ↔ key.HeldAfter performance.since ∧ ¬ performance.IsCurrent
        ∧ key.isReleasedBy performance.desk.valid.edition.roll performance.playhead.position
          = false := by
  have hheld : key ∈ performance.playhead.sounding ↔ key.HeldAfter performance.since := by
    rw [hsound.sounding, KeyOn.mem_afterAll_nil]
  rw [dropped, Playhead.orphans, IsCurrent]
  cases hseen : performance.playhead.seen with
  | none =>
      have hsilent := hsound.unseen hseen
      rw [hsilent] at hheld
      simp [← hheld]
  | some serial =>
      by_cases hserial : serial = performance.desk.valid.serial
      · simp [hserial]
      · simp [hserial, hheld]

theorem nodup_dropped (hsound : performance.Sound) : performance.dropped.Nodup := by
  have hsounding : performance.playhead.sounding.Nodup := by
    rw [hsound.sounding]
    exact KeyOn.nodup_afterAll performance.since
  unfold dropped Playhead.orphans
  split
  · exact .nil
  · split
    · exact .nil
    · exact hsounding.filter _

/-- A quantum sends what it answers and a release of each dropped key. -/
theorem length_sent_take_advance (hsound : performance.Sound)
    (hidle : performance.playhead.playing = false → performance.since = []) :
    (performance.take .advance).sent.length
      = performance.sent.length + performance.answer + performance.dropped.length := by
  have hsent : (performance.take .advance).sent
      = performance.sent ++ (performance.playhead.advance performance.desk.valid).1.sent :=
    (List.append_assoc _ _ _).symm
  rw [hsent, List.length_append, answer, Delivery.sent, Delivery.count, List.length_append]
  cases hplaying : performance.playhead.playing with
  | true =>
      simp only [dropped, Playhead.advance, hplaying, if_true, List.length_map]
      omega
  | false =>
      have hdropped : performance.dropped = [] := by
        rw [List.eq_nil_iff_forall_not_mem]
        intro key hkey
        have hheld := ((mem_dropped_iff hsound).mp hkey).1
        rw [hidle hplaying] at hheld
        exact KeyOn.not_heldAfter_nil hheld
      simp [hdropped, Playhead.advance, hplaying, Delivery.nothing]

/-- **What a quantum answers is short by the keys it releases.** After any cues, a quantum sends as
many messages as it answers and one more for each key that it drops. It drops a key if this is held
since the start, an edition has come out since the last quantum or start, and this does not release
the key before striking it again. So the answer is the number of messages that were sent exactly if
there is no such key. -/
theorem answer_short_by_dropped {score : Score} {settings : Settings} {opening run : Performance}
    (hload : load score settings = .ok opening) {cues : List Cue} (hrun : run = opening.play cues) :
    (run.take .advance).sent.length = run.sent.length + run.answer + run.dropped.length
      ∧ run.dropped.Nodup
      ∧ (∀ key, key ∈ run.dropped ↔ key.HeldAfter run.since ∧ ¬ run.IsCurrent
        ∧ key.isReleasedBy run.desk.valid.edition.roll run.playhead.position = false)
      ∧ ((run.take .advance).sent.length = run.sent.length + run.answer
        ↔ ∀ key : KeyOn, key.HeldAfter run.since → ¬ run.IsCurrent →
          key.isReleasedBy run.desk.valid.edition.roll run.playhead.position = true) := by
  have hsound : run.Sound := hrun ▸ sound_play hload cues
  have hidle : run.playhead.playing = false → run.since = [] := by
    rw [hrun]
    exact since_eq_nil_of_not_playing hload
  have hlength := length_sent_take_advance hsound hidle
  refine ⟨hlength, nodup_dropped hsound, fun key => mem_dropped_iff hsound, ?_⟩
  have hexact : (run.take .advance).sent.length = run.sent.length + run.answer
      ↔ run.dropped = [] := by
    rw [hlength, Nat.add_eq_left, List.length_eq_zero_iff]
  rw [hexact, List.eq_nil_iff_forall_not_mem]
  apply forall_congr'
  intro key
  rw [mem_dropped_iff hsound]
  simp

/-- A key is struck, and while it is held the score is rebuilt without it. -/
def withdrawing : List Cue :=
  [.start 0, .advance] ++ rebuilding 0 (pads ["----"])

theorem answer_short_by_dropped_withdrawn :
    load (pads ["1>>>"]) {} = .ok (opening oneBeat)
      ∧ (((opening oneBeat).play withdrawing).take .advance).sent.length
        = ((opening oneBeat).play withdrawing).sent.length
          + ((opening oneBeat).play withdrawing).answer + 1 := by
  have hload := load_eq_opening compile_oneBeat
  have hrun : (opening oneBeat).play withdrawing = (opening oneBeat).play withdrawing := rfl
  obtain ⟨hlength, -⟩ := answer_short_by_dropped hload hrun
  have hdropped : ((opening oneBeat).play withdrawing).dropped = [⟨0, 60⟩] := by decide +kernel
  rw [hdropped] at hlength
  exact ⟨hload, hlength⟩

/-- **A release is sent and not counted.** The quantum answers that it has sent nothing, but it has
sent the release of the key. -/
theorem release_not_counted :
    load (pads ["1>>>"]) {} = .ok (opening oneBeat)
      ∧ ((opening oneBeat).play withdrawing).answer = 0
      ∧ (((opening oneBeat).play withdrawing).take .advance).sent
        = ((opening oneBeat).play withdrawing).sent ++ [⟨30, .noteOff 0 60⟩] := by
  refine ⟨load_eq_opening compile_oneBeat, ?_⟩
  decide +kernel

end Performance

end ChordGrid
