import ChordGrid.Proofs.Build.Strikes
import ChordGrid.Proofs.Playhead.Playback

namespace ChordGrid

open Live Playhead

/-! ### Dials -/

inductive Dial where
  | controller (channel number : Nat)
  | program (channel : Nat)
  deriving DecidableEq, Repr

/-- The value that a message sets a dial to. -/
def Dial.setting? : Dial → Message → Option Nat
  | controller channel number, .control c n value =>
    if c = channel ∧ n = number then some value else none
  | program channel, .program c number => if c = channel then some number else none
  | _, _ => none

/-- The value that a dial was set to last. -/
def lastSet? (messages : List Timed) (dial : Dial) : Option Nat :=
  (messages.filterMap fun timed => dial.setting? timed.message).getLast?

theorem lastSet?_append (messages more : List Timed) (dial : Dial) :
    lastSet? (messages ++ more) dial = (lastSet? more dial).or (lastSet? messages dial) := by
  rw [lastSet?, List.filterMap_append, List.getLast?_append]
  rfl

theorem Dial.setting?_eq_none {dial : Dial} {message : Message}
    (hmessage : ¬ message.isSetup = true) : dial.setting? message = none := by
  cases message with
  | noteOn c p velocity => cases dial <;> rfl
  | noteOff c p => cases dial <;> rfl
  | control c n value => exact absurd rfl hmessage
  | program c number => exact absurd rfl hmessage

theorem lastSet?_eq_getLast? (messages : List Timed) (dial : Dial) :
    lastSet? messages dial = ((setupOf messages).filterMap dial.setting?).getLast? := by
  rw [lastSet?, setupOf, List.filterMap_map, List.filterMap_filter]
  congr 1
  refine List.filterMap_congr ?_
  intro timed _
  by_cases hsetup : timed.message.isSetup = true
  · rw [if_pos hsetup]
    rfl
  · rw [if_neg hsetup, Dial.setting?_eq_none hsetup]

theorem lastSet?_congr {messages others : List Timed} (hsame : setupOf messages = setupOf others)
    (dial : Dial) : lastSet? messages dial = lastSet? others dial := by
  rw [lastSet?_eq_getLast?, hsame, ← lastSet?_eq_getLast?]

/-! ### Setup at the top -/

namespace Roll

/-- No setup stands behind tick zero. -/
def HasSetupAtTop (roll : Roll) : Prop :=
  ∀ timed ∈ roll.stream, timed.message.isSetup = true → timed.tick = 0

variable {roll : Roll}

theorem HasSetupAtTop.setupOf_window (hroll : roll.HasSetupAtTop) {start stop : Nat}
    (hstop : 0 < stop) :
    setupOf (roll.window start stop) = if start = 0 then setupOf roll.stream else [] := by
  rw [setupOf, window_eq_filter, List.filter_filter]
  by_cases hstart : start = 0
  · rw [if_pos hstart, setupOf]
    congr 1
    refine List.filter_congr ?_
    intro timed htimed
    by_cases hsetup : timed.message.isSetup = true
    · simp [hroll timed htimed hsetup, hstart, hstop]
    · simp [hsetup]
  · rw [if_neg hstart, List.map_eq_nil_iff, List.filter_eq_nil_iff]
    intro timed htimed hkept
    simp only [Bool.and_eq_true, decide_eq_true_eq] at hkept
    have htop := hroll timed htimed hkept.1
    omega

theorem HasSetupAtTop.setupOf_caughtUp (hroll : roll.HasSetupAtTop) (tick : Nat) :
    setupOf (caughtUp roll.stream tick) = if tick = 0 then [] else setupOf roll.stream := by
  rw [Playhead.setupOf_caughtUp]
  by_cases htick : tick = 0
  · rw [if_pos htick, htick]
    simp
  · rw [if_neg htick, setupOf, List.filter_eq_self.mpr]
    intro timed htimed
    obtain ⟨hstream, hsetup⟩ := List.mem_filter.mp htimed
    rw [hroll timed hstream hsetup, decide_eq_true_eq]
    exact Nat.pos_of_ne_zero htick

end Roll

theorem Edition.hasSetupAtTop_of_compile {score : Score} {settings : Settings} {edition : Edition}
    (hcompile : Edition.compile score settings = .ok edition) : edition.roll.HasSetupAtTop := by
  obtain ⟨arrangement, -, hbuild⟩ := bind_eq_ok_iff.mp hcompile
  obtain ⟨roll, hroll, hedition⟩ := bind_eq_ok_iff.mp hbuild
  obtain ⟨messages, hmessages, rfl⟩ := map_eq_ok_iff.mp hroll
  cases hedition
  intro timed htimed hsetup
  obtain hmixed | ⟨part, -, sent, -, hpart, hmem⟩ :=
    Arrangement.exists_build_of_mem hmessages (Roll.mem_stream_ofMessages.mp htimed)
  · exact tick_of_mem_mixdown hmixed
  · obtain ⟨struck, hstruck, rfl⟩ := Part.exists_struck_of_build hpart
    obtain hselected | hmem := List.mem_append.mp hmem
    · exact Part.tick_of_mem_selection hselected
    · exact absurd hsetup (hstruck.not_isSetup timed hmem)

/-! ### One cue -/

namespace Playhead

variable {playhead : Playhead} {valid : Publication}

theorem nextPosition_pos (playhead : Playhead) : 0 < playhead.nextPosition := by
  have hquantum := playhead.resolution.quantum_pos
  have hlast : 0 < lastTick := by decide
  unfold nextPosition
  omega

theorem setupOf_sent_start (hroll : valid.edition.roll.HasSetupAtTop) (tick : Nat) :
    setupOf (playhead.start valid tick).1
      = if (playhead.start valid tick).2.position = 0 then []
        else setupOf valid.edition.roll.stream := by
  rw [sent_start]
  exact hroll.setupOf_caughtUp _

theorem setupOf_sent_advance (hplaying : playhead.playing = true)
    (hroll : valid.edition.roll.HasSetupAtTop) :
    setupOf (playhead.advance valid).1.sent
      = if playhead.position = 0 then setupOf valid.edition.roll.stream else [] := by
  have hreleased : ∀ keys : List KeyOn, setupOf (keys.map fun key =>
      (⟨playhead.position, .noteOff key.channel key.pitch⟩ : Timed)) = [] := by
    intro keys
    rw [setupOf, List.map_eq_nil_iff, List.filter_eq_nil_iff]
    intro timed htimed
    obtain ⟨key, -, rfl⟩ := List.mem_map.mp htimed
    exact Bool.false_ne_true
  rw [advance, if_pos hplaying, Delivery.sent, setupOf_append, hreleased, List.nil_append]
  exact hroll.setupOf_window playhead.nextPosition_pos

end Playhead

end ChordGrid
