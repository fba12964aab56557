import ChordGrid.Proofs.Build.Calling
import ChordGrid.Proofs.Build.Compiling
import ChordGrid.Proofs.Guarded.Building
import ChordGrid.Proofs.Guarded.Playing
import ChordGrid.Proofs.Performance.Failure

/-!
# Guarded sessions

Whatever is done with a playhead, in whatever order, keeps its cursor a tick and what it plays the
edition of some score. Nothing more is needed: an edition has its slots in order and stays on the
channels that exist, so neither a window nor the name of a channel is ever missed.
-/

namespace ChordGrid

open Live

/-! ### Editions -/

theorem Edition.channel_lt_of_compile {score : Score} {settings : Settings} {edition : Edition}
    (hcompile : Edition.compile score settings = .ok edition) :
    ∀ timed ∈ edition.roll.stream, timed.message.channel < channelCount := by
  obtain ⟨arrangement, messages, hscore, hmessages, rfl⟩ := Edition.compile_eq_ok_iff.mp hcompile
  have hparts := Score.channel_lt_of_compile hscore
  intro timed htimed
  have hmem := Roll.mem_stream_ofMessages.mp htimed
  obtain hmixed | ⟨part, hpart, sent, -, hbuilt, hsent⟩ :=
    Arrangement.exists_build_of_mem hmessages hmem
  · obtain ⟨part, hpart, hchannel⟩ := exists_part_of_mem_mixdown hmixed
    exact hchannel ▸ hparts part hpart
  · exact Part.channel_of_build hbuilt timed hsent ▸ hparts part hpart

/-! ### What a session relies on -/

namespace Playhead

variable (playhead : Playhead) (valid : Publication)

theorem position_start_le {tick : Nat} (htick : tick ≤ lastTick) :
    (playhead.start valid tick).2.position ≤ lastTick :=
  Nat.le_trans (Nat.sub_le tick (tick % playhead.resolution.quantum)) htick

theorem position_advance_le (hposition : playhead.position ≤ lastTick) :
    (playhead.advance valid).2.position ≤ lastTick := by
  rw [advance]
  split
  · exact Nat.min_le_left lastTick _
  · exact hposition

end Playhead

/-- A start is at a tick that a position can name. -/
def Action.IsInRange (action : Action) : Prop :=
  ∀ tick, action = .start tick → tick ≤ lastTick

namespace Performance

structure IsSafe (performance : Performance) : Prop where
  position_le : performance.playhead.position ≤ lastTick
  compiled : ∃ score,
    Edition.compile score performance.desk.settings = .ok performance.desk.valid.edition

variable {performance : Performance}

theorem isSafe_of_load {score : Score} {settings : Settings} {opening : Performance}
    (hload : load score settings = .ok opening) : opening.IsSafe := by
  obtain ⟨desk, playhead, hdesk, hplayhead, rfl⟩ := load_eq_ok_iff.mp hload
  obtain ⟨edition, hedition, rfl⟩ := Desk.load_eq_ok_iff.mp hdesk
  obtain ⟨r, -, hrest⟩ := bind_eq_ok_iff.mp hplayhead
  cases hrest
  exact ⟨Nat.zero_le lastTick, score, hedition⟩

theorem IsSafe.isOrdered (h : performance.IsSafe) :
    performance.desk.valid.edition.roll.IsOrdered := by
  obtain ⟨score, hcompile⟩ := h.compiled
  exact (Edition.isPlayable_of_compile hcompile).ordered

theorem compiled_rebuild {desk : Desk} (score : Score)
    (hcompiled : ∃ given, Edition.compile given desk.settings = .ok desk.valid.edition) :
    ∃ given, Edition.compile given (desk.rebuild score).2.settings
      = .ok (desk.rebuild score).2.valid.edition := by
  rw [Desk.settings_rebuild]
  cases hcompile : Edition.compile score desk.settings with
  | error fault => rwa [(Desk.rebuild_of_error hcompile).2.valid]
  | ok edition =>
      cases hholder : desk.holder with
      | some thread =>
          rw [Desk.rebuild_eq_of_locked hholder]
          exact hcompiled
      | none =>
          rw [Desk.rebuild_eq hholder, hcompile]
          exact ⟨score, hcompile⟩

theorem IsSafe.withDesk (h : performance.IsSafe) {desk : Desk}
    (hcompiled : ∃ score, Edition.compile score desk.settings = .ok desk.valid.edition) :
    { performance with desk }.IsSafe where
  position_le := h.position_le
  compiled := hcompiled

theorem IsSafe.act (h : performance.IsSafe) {action : Action} (haction : action.IsInRange) :
    (performance.act action).2.IsSafe := by
  cases action with
  | start tick =>
      exact ⟨performance.playhead.position_start_le _ (haction tick rfl), h.compiled⟩
  | advance => exact ⟨performance.playhead.position_advance_le _ h.position_le, h.compiled⟩
  | askWhetherEnded => exact h
  | askForExport => exact h
  | rebuild score =>
      simp only [act_rebuild]
      exact h.withDesk (compiled_rebuild score h.compiled)

theorem IsSafe.channel_lt_of_act (h : performance.IsSafe) {action : Action} {stream : List Timed}
    (hstream : (performance.act action).1.answer = .exported (.ok stream)) :
    ∀ timed ∈ stream, timed.message.channel < channelCount := by
  obtain ⟨score, hcompile⟩ := h.compiled
  have hchannels := Edition.channel_lt_of_compile hcompile
  cases action with
  | askForExport =>
      have hexported : performance.playhead.exported performance.desk.valid = .ok stream :=
        Answer.exported.inj hstream
      unfold Playhead.exported at hexported
      split at hexported
      · cases hexported
      · cases hexported
        rwa [Roll.exported_eq_stream]
  | _ => cases hstream

theorem IsSafe.channel_lt_of_session (h : performance.IsSafe) {actions : List Action}
    (hactions : ∀ action ∈ actions, action.IsInRange) :
    ∀ reaction ∈ (performance.session actions).1, ∀ stream,
      reaction.answer = .exported (.ok stream) →
        ∀ timed ∈ stream, timed.message.channel < channelCount := by
  induction actions generalizing performance with
  | nil => exact fun reaction hmem => absurd hmem List.not_mem_nil
  | cons action later ih =>
      obtain ⟨haction, hlater⟩ := List.forall_mem_cons.mp hactions
      rw [session_cons]
      refine List.forall_mem_cons.mpr ⟨?_, ih (h.act haction) hlater⟩
      exact fun stream hstream => h.channel_lt_of_act hstream

end Performance

namespace Guarded

/-! ### Sessions -/

def act (performance : Performance) : Action → Except Halt (Reaction × Performance)
  | .start tick => do
    let (setup, playhead) ← start performance.playhead performance.desk.valid tick
    return (⟨.start tick, .started, setup, playhead.position⟩,
      { performance with playhead, former := performance.sent, since := setup })
  | .advance => do
    let (delivery, playhead) ← advance performance.playhead performance.desk.valid
    return (⟨.advance, .advanced delivery.count, delivery.sent, playhead.position⟩,
      { performance with playhead, since := performance.since ++ delivery.sent })
  | .askWhetherEnded => .ok (performance.act .askWhetherEnded)
  | .askForExport => do
    let stream ← answer (exported performance.playhead performance.desk.valid)
    return (⟨.askForExport, .exported stream, [], performance.playhead.position⟩, performance)
  | .rebuild score => do
    let _ ← answer (edition score performance.desk.settings)
    return performance.act (.rebuild score)

def session (performance : Performance) :
    List Action → Except Halt (List Reaction × Performance)
  | [] => .ok ([], performance)
  | action :: later => do
    let (reaction, after) ← act performance action
    let (reactions, last) ← session after later
    return (reaction :: reactions, last)

variable {performance : Performance}

theorem act_eq (h : performance.IsSafe) (action : Action) :
    act performance action = .ok (performance.act action) := by
  cases action with
  | start tick =>
      rw [act, start_eq]
      rfl
  | advance =>
      rw [act, advance_eq h.position_le]
      rfl
  | askWhetherEnded => rfl
  | askForExport =>
      rw [act, exported_eq h.isOrdered, answer_sure]
      rfl
  | rebuild score =>
      rw [act, edition_eq, answer_sure]
      rfl

theorem session_eq (h : performance.IsSafe) {actions : List Action}
    (hactions : ∀ action ∈ actions, action.IsInRange) :
    session performance actions = .ok (performance.session actions) := by
  induction actions generalizing performance with
  | nil => rfl
  | cons action later ih =>
      obtain ⟨haction, hlater⟩ := List.forall_mem_cons.mp hactions
      rw [session, act_eq h]
      change session (performance.act action).2 later >>= _ = _
      rw [ih (h.act haction) hlater]
      rfl

/-- **The program never slips.** Compiling a score and building an edition of it look up nothing
that is not there, whatever the score and the settings, and so does any build of any arrangement. Of
a score that loads, a playhead can be started at any tick, advanced, asked and given new scores in
any order, and reads no window that ends before it starts. What it exports is on channels that have
a name, and is written with any tempo and any resolution. -/
theorem never_slips (score : Score) (settings : Settings) :
    compile score settings = sure ((score.compile settings).map Arrangement.loose)
      ∧ (∀ arrangement tick mode, build (Arrangement.loose arrangement) tick mode
          = (sure (arrangement.build tick mode).1, (arrangement.build tick mode).2.loose))
      ∧ edition score settings = sure (Edition.compile score settings)
      ∧ ∀ opening, Performance.load score settings = .ok opening →
          ∀ actions : List Action, (∀ action ∈ actions, action.IsInRange) →
            session opening actions = .ok (opening.session actions)
              ∧ ∀ reaction ∈ (opening.session actions).1, ∀ stream,
                  reaction.answer = .exported (.ok stream) →
                    (∀ timed ∈ stream, timed.message.channel < channelCount)
                      ∧ ∀ tempo r, ∃ bytes, MidiFile.encode? stream tempo r = some bytes
                        ∧ file stream tempo r = .ok bytes := by
  refine ⟨compile_eq score settings, build_eq, edition_eq score settings, ?_⟩
  intro opening hload actions hactions
  have hsafe := Performance.isSafe_of_load hload
  refine ⟨session_eq hsafe hactions, ?_⟩
  intro reaction hreaction stream hstream
  have hchannels := hsafe.channel_lt_of_session hactions reaction hreaction stream hstream
  exact ⟨hchannels, exists_file hchannels⟩

/-- A start at the last tick there is, where the cursor stays, with a rebuild in between. -/
def lateStart : List Action :=
  [.askForExport, .start lastTick, .advance, .rebuild (pads ["1>>>", "3>>>"]), .advance,
    .askWhetherEnded, .advance]

theorem never_slips_from_the_last_tick :
    Performance.load (pads ["1>>>"]) {} = .ok (.opening oneBeat)
      ∧ (∀ action ∈ lateStart, action.IsInRange)
      ∧ session (.opening oneBeat) lateStart
          = .ok ((Performance.opening oneBeat).session lateStart)
      ∧ ∃ bytes, MidiFile.encode? oneBeat.roll.stream 0 .standard = some bytes
          ∧ file oneBeat.roll.stream 0 .standard = .ok bytes := by
  have hload := Performance.load_eq_opening compile_oneBeat
  have hrange : ∀ action ∈ lateStart, action.IsInRange := by
    rintro action hmem tick rfl
    have htick : tick = lastTick := by simpa [lateStart] using hmem
    exact Nat.le_of_eq htick
  obtain ⟨-, -, -, hsessions⟩ := never_slips (pads ["1>>>"]) {}
  obtain ⟨hsession, hexports⟩ := hsessions _ hload lateStart hrange
  refine ⟨hload, hrange, hsession, ?_⟩
  have hstream := hexports _ List.mem_cons_self _ rfl
  rw [Roll.exported_eq_stream] at hstream
  exact hstream.2 0 .standard

end Guarded

end ChordGrid
