import ChordGrid.Message

/-!
# Rolls

A roll holds every message of a song by its tick, like the roll of a player piano. Within a tick
the messages stand in the order of their rank and, within a rank, in the order they came. Playback
reads a window at a time; an export reads window after window to the end.
-/

namespace ChordGrid

structure Slot where
  tick : Nat
  messages : List Message
  deriving DecidableEq, Repr

namespace Slot

def timed (slot : Slot) : List Timed :=
  slot.messages.map (Timed.mk slot.tick)

end Slot

/-- The messages of a song, one slot for each tick that has any, in the order of the ticks. -/
structure Roll where
  slots : List Slot
  deriving DecidableEq, Repr

namespace Roll

/-- Puts neighbours of one tick into one slot. -/
def group : List Timed → List Slot
  | [] => []
  | timed :: rest =>
    match group rest with
    | [] => [⟨timed.tick, [timed.message]⟩]
    | slot :: more =>
      if slot.tick = timed.tick then ⟨timed.tick, timed.message :: slot.messages⟩ :: more
      else ⟨timed.tick, [timed.message]⟩ :: slot :: more

/-- Messages in the order of their rank; those of one rank keep their order. -/
def ranked (messages : List Message) : List Message :=
  messages.mergeSort fun a b => a.rank ≤ b.rank

/-- Messages in the order of their ticks; those of one tick keep their order. -/
def inTime (messages : List Timed) : List Timed :=
  messages.mergeSort fun a b => a.tick ≤ b.tick

def ofMessages (messages : List Timed) : Roll :=
  ⟨(group (inTime messages)).map fun slot => { slot with messages := ranked slot.messages }⟩

def stamped (slots : List Slot) : List Timed :=
  slots.flatMap Slot.timed

/-- All messages in the order they are delivered. -/
def stream (roll : Roll) : List Timed :=
  stamped roll.slots

def size (roll : Roll) : Nat :=
  roll.stream.length

def isEmpty (roll : Roll) : Bool :=
  roll.slots.isEmpty

def finalTick? (roll : Roll) : Option Nat :=
  roll.slots.getLast?.map Slot.tick

def messagesAt (roll : Roll) (tick : Nat) : List Message :=
  match roll.slots.find? fun slot => slot.tick = tick with
  | some slot => slot.messages
  | none => []

/-- The messages from one tick up to another, the second left out. -/
def window (roll : Roll) (start stop : Nat) : List Timed :=
  stamped (roll.slots.filter fun slot => start ≤ slot.tick && slot.tick < stop)

def onward (roll : Roll) (start : Nat) : List Timed :=
  stamped (roll.slots.filter fun slot => start ≤ slot.tick)

/-- The window between two ticks, refused if it ends before it starts while there is anything to
read. -/
def window? (roll : Roll) (start stop : Nat) : Option (List Timed) :=
  if stop < start ∧ !roll.isEmpty then none else some (roll.window start stop)

/-- The setup messages before a tick. They bring a device to the state it would have if the song
had been played from the top. -/
def setupUpTo (roll : Roll) (tick : Nat) : List Message :=
  ((stamped (roll.slots.filter fun slot => slot.tick < tick)).map Timed.message).filter
    Message.isSetup

/-- The first message at a tick or after it that strikes or releases a key. -/
def nextNote? (roll : Roll) (tick channel pitch : Nat) : Option Message :=
  ((roll.onward tick).map Timed.message).find? (Message.isNoteOf channel pitch)

/-- Slots by windows of `step` ticks, counted from tick zero, as long as a window ends by the last
tick; the rest is read at once. Windows that hold nothing are passed over. -/
def windows (step last : Nat) : List Slot → List (List Slot)
  | [] => []
  | slot :: rest =>
    let stop := (slot.tick / step + 1) * step
    if stop ≤ last then
      (slot :: rest.takeWhile fun next => next.tick < stop) ::
        windows step last (rest.dropWhile fun next => next.tick < stop)
    else [slot :: rest]
termination_by slots => slots.length
decreasing_by exact Nat.lt_succ_of_le (List.dropWhile_sublist _).length_le

/-- The whole roll in the order of delivery, read one quantum at a time; a quantum of zero counts
as one. -/
def exported (roll : Roll) (quantum : Nat) : List Timed :=
  match roll.finalTick? with
  | none => []
  | some last => (windows (max quantum 1) last roll.slots).flatMap stamped

theorem flatten_windows (step last : Nat) (slots : List Slot) :
    (windows step last slots).flatten = slots := by
  fun_induction windows step last slots with
  | case1 => rfl
  | case2 slot rest stop hstop ih =>
    rw [List.flatten_cons, ih, List.cons_append, List.takeWhile_append_dropWhile]
  | case3 slot rest stop hstop => simp

end Roll

end ChordGrid
