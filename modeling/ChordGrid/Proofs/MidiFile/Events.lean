import ChordGrid.MidiFile.Track
import ChordGrid.Proofs.MidiFile.Reader

namespace ChordGrid

open MidiFile

/-- A message of the standard: a channel that exists, and data of seven bits. -/
def Message.IsLegal : Message → Prop
  | .noteOn channel pitch velocity => channel < channelCount ∧ pitch < 128 ∧ velocity < 128
  | .noteOff channel pitch => channel < channelCount ∧ pitch < 128
  | .control channel controller value => channel < channelCount ∧ controller < 128 ∧ value < 128
  | .program channel number => channel < channelCount ∧ number < 128

instance : DecidablePred Message.IsLegal
  | .noteOn _ _ _ => inferInstanceAs (Decidable (_ ∧ _ ∧ _))
  | .noteOff _ _ => inferInstanceAs (Decidable (_ ∧ _))
  | .control _ _ _ => inferInstanceAs (Decidable (_ ∧ _ ∧ _))
  | .program _ _ => inferInstanceAs (Decidable (_ ∧ _))

theorem Message.IsLegal.channel_lt {message : Message} (h : message.IsLegal) :
    message.channel < channelCount := by
  cases message <;> exact h.1

namespace MidiFile

/-! ### Numbers -/

theorem number_append (bytes : List UInt8) (byte : UInt8) :
    number (bytes ++ [byte]) = 256 * number bytes + byte.toNat := by
  simp [number]

theorem div_lt_pow {base width n : Nat} (h : n < Nat.pow base (width + 1)) :
    n / base < Nat.pow base width := by
  apply Nat.div_lt_of_lt_mul
  rw [Nat.mul_comm]
  exact h

theorem number_fixed {width n : Nat} (h : n < Nat.pow 256 width) : number (fixed width n) = n := by
  induction width generalizing n with
  | zero =>
    change n < 1 at h
    have : n = 0 := by omega
    rw [this]
    rfl
  | succ width ih =>
    rw [fixed, number_append, ih (div_lt_pow h), UInt8.toNat_ofNat']
    omega

theorem length_leading {k m : Nat} (h : m < Nat.pow 128 k) : (leading m).length ≤ k := by
  induction k generalizing m with
  | zero =>
    change m < 1 at h
    have : m = 0 := by omega
    simp [this, leading]
  | succ k ih =>
    have := ih (div_lt_pow h)
    rw [leading]
    by_cases hm : m = 0
    · simp [hm]
    · rw [if_neg hm, List.length_append, List.length_singleton]
      omega

theorem readQuantity_leading (m most : Nat) (rest : List UInt8) :
    readQuantity? 0 ((leading m).length + most) (leading m ++ rest) =
      readQuantity? m most rest := by
  -- The bytes but the last are those of `m / 128`, and what comes after them begins with the last.
  induction m using Nat.strongRecOn generalizing most rest with
  | ind m ih =>
    rw [leading]
    by_cases hm : m = 0
    · simp [hm]
    · have hbyte : (UInt8.ofNat (128 + m % 128)).toNat = 128 + m % 128 := by
        rw [UInt8.toNat_ofNat']
        omega
      rw [if_neg hm, List.length_append, List.length_singleton, List.append_assoc, Nat.add_assoc,
        ih (m / 128) (by omega), Nat.add_comm 1, List.singleton_append, readQuantity?, hbyte,
        if_neg (by omega)]
      congr 1
      omega

theorem readQuantity_quantity {n : Nat} (h : n < 0x10000000) (rest : List UInt8) :
    readQuantity? 0 longestQuantity (quantity n ++ rest) = some (n, rest) := by
  have hbyte : (UInt8.ofNat (n % 128)).toNat = n % 128 := by
    rw [UInt8.toNat_ofNat']
    omega
  have hlength : (leading (n / 128)).length ≤ 3 := length_leading (by
    change n / 128 < 2097152
    omega)
  have hmost : longestQuantity =
      (leading (n / 128)).length + ((3 - (leading (n / 128)).length) + 1) := by
    rw [longestQuantity]
    omega
  rw [hmost, quantity, List.append_assoc, readQuantity_leading, List.singleton_append,
    readQuantity?, hbyte, if_pos (by omega)]
  congr 2
  omega

theorem take_append {bytes : List UInt8} {count : Nat} (h : bytes.length = count)
    (rest : List UInt8) : take? count (bytes ++ rest) = some (bytes, rest) := by
  simp [take?, ← h]

/-! ### Events -/

/-- What a reader finds for a message. A release is read with velocity zero. -/
def Voice.ofMessage : Message → Voice
  | .noteOn _ pitch velocity => .noteOn pitch velocity
  | .noteOff _ pitch => .noteOff pitch 0
  | .control _ controller value => .control controller value
  | .program _ number => .program number

def Reading.ofEvent : Event → Reading
  | .tempo microseconds => .tempo microseconds
  | .trackName name => .trackName name.toUTF8.toList
  | .message message => .voice message.channel (.ofMessage message)
  | .endOfTrack => .endOfTrack

/-- The events that a file has room for. -/
def Event.IsWritable : Event → Prop
  | .tempo microseconds => microseconds < 0x1000000
  | .trackName name => name.utf8ByteSize < 0x10000000
  | .message m => m.IsLegal
  | .endOfTrack => True

theorem toNat_dataByte {n : Nat} (h : n < 128) : (dataByte n).toNat = n := by
  rw [dataByte, UInt8.toNat_ofNat']
  omega

theorem toNat_dataByte_lt (n : Nat) : (dataByte n).toNat < 128 := by
  rw [dataByte, UInt8.toNat_ofNat']
  omega

theorem readTwo_dataBytes {a b : Nat} (ha : a < 128) (hb : b < 128) (voice : Nat → Nat → Voice)
    (rest : List UInt8) :
    readTwo? voice (dataByte a :: dataByte b :: rest) = some (voice a b, rest) := by
  simp [readTwo?, toNat_dataByte, ha, hb]

theorem readOne_dataByte {a : Nat} (ha : a < 128) (voice : Nat → Voice) (rest : List UInt8) :
    readOne? voice (dataByte a :: rest) = some (voice a, rest) := by
  simp [readOne?, toNat_dataByte, ha]

/-- The type of a message in the high half of its status byte. -/
def typeOf : Message → Nat
  | .noteOff _ _ => 0x8
  | .noteOn _ _ _ => 0x9
  | .control _ _ _ => 0xB
  | .program _ _ => 0xC

theorem toNat_status {message : Message} (h : message.channel < channelCount) :
    (status message).toNat = 16 * typeOf message + message.channel := by
  rw [channelCount] at h
  cases message
  all_goals
    rw [status, UInt8.toNat_ofNat']
    simp only [typeOf, Message.channel] at h ⊢
    omega

theorem typeOf_status {message : Message} (h : message.IsLegal) :
    (status message).toNat / 16 = typeOf message := by
  have hchannel : message.channel < 16 := h.channel_lt
  rw [toNat_status h.channel_lt]
  omega

theorem channel_status {message : Message} (h : message.IsLegal) :
    (status message).toNat % 16 = message.channel := by
  have hchannel : message.channel < 16 := h.channel_lt
  rw [toNat_status h.channel_lt]
  omega

theorem readVoice_dataBytes {message : Message} (h : message.IsLegal) (rest : List UInt8) :
    readVoice? (status message).toNat (dataBytes message ++ rest) =
      some (.ofMessage message, rest) := by
  rw [readVoice?, typeOf_status h]
  cases message with
  | noteOff channel pitch => exact readTwo_dataBytes h.2 (show 0 < 128 by decide) _ _
  | noteOn channel pitch velocity => exact readTwo_dataBytes h.2.1 h.2.2 _ _
  | control channel controller value => exact readTwo_dataBytes h.2.1 h.2.2 _ _
  | program channel number => exact readOne_dataByte h.2 _ _

theorem readMessage_dataBytes {message : Message} (h : message.IsLegal) (rest : List UInt8) :
    readMessage? (status message) (dataBytes message ++ rest) =
      some ((.ofEvent (.message message), some (status message)), rest) := by
  rw [readMessage?, readVoice_dataBytes h, channel_status h]
  rfl

theorem exists_dataBytes (message : Message) :
    ∃ byte more, dataBytes message = byte :: more ∧ byte.toNat < 0x80 := by
  cases message <;> exact ⟨_, _, rfl, toNat_dataByte_lt _⟩

theorem readEvent_message {message : Message} (h : message.IsLegal) (running : Option UInt8)
    (rest : List UInt8) :
    readEvent? running ((eventBytes running (.message message)).1 ++ rest) =
      some ((.ofEvent (.message message), (eventBytes running (.message message)).2), rest) := by
  by_cases hrunning : running = some (status message)
  · obtain ⟨byte, more, hbytes, hbyte⟩ := exists_dataBytes message
    rw [eventBytes, if_pos hrunning, hrunning, hbytes, List.cons_append, readEvent?, if_pos hbyte,
      Option.bind_eq_bind, Option.bind_some, ← List.cons_append, ← hbytes,
      readMessage_dataBytes h]
  · have hstatus := typeOf_status h
    have htype : 8 ≤ typeOf message ∧ typeOf message ≤ 12 := by
      cases message <;> simp [typeOf]
    rw [eventBytes, if_neg hrunning, List.cons_append, readEvent?, if_neg (by omega),
      if_pos (by omega), readMessage_dataBytes h]

theorem readBody_quantity {body : List UInt8} (h : body.length < 0x10000000) (rest : List UInt8) :
    readBody? (quantity body.length ++ (body ++ rest)) = some (body, rest) := by
  rw [readBody?, readQuantity_quantity h]
  exact take_append rfl rest

theorem readEvent_meta (mark : UInt8) (body : List UInt8) (h : body.length < 0x10000000)
    (running : Option UInt8) (rest : List UInt8) :
    readEvent? running (metaMark :: mark :: quantity body.length ++ body ++ rest) =
      some ((.ofMeta mark body, none), rest) := by
  have hmark : metaMark.toNat = 0xFF := rfl
  simp only [List.cons_append, List.append_assoc]
  rw [readEvent?, hmark, if_neg (by omega), if_neg (by omega), if_pos rfl, readMeta?,
    readBody_quantity h]
  rfl

theorem length_toList_loop (bytes : ByteArray) (i : Nat) (made : List UInt8) :
    (ByteArray.toList.loop bytes i made).length = bytes.size - i + made.length := by
  fun_induction ByteArray.toList.loop bytes i made with
  | case1 i made hi ih =>
    rw [ih, List.length_cons]
    omega
  | case2 i made hi =>
    rw [List.length_reverse]
    omega

theorem length_toUTF8 (text : String) : text.toUTF8.toList.length = text.utf8ByteSize :=
  length_toList_loop text.toUTF8 0 []

theorem ofMeta_tempo {microseconds : Nat} (h : microseconds < 0x1000000) :
    Reading.ofMeta tempoMark (fixed 3 microseconds) = .tempo microseconds := by
  have hend : ¬(tempoMark = 0x2F ∧ fixed 3 microseconds = []) := fun hmark =>
    absurd hmark.1 (by decide)
  have hnumber : number (fixed 3 microseconds) = microseconds := number_fixed h
  rw [Reading.ofMeta, if_neg hend, if_pos ⟨rfl, length_fixed 3 microseconds⟩, hnumber]

theorem ofMeta_name (letters : List UInt8) :
    Reading.ofMeta nameMark letters = .trackName letters := by
  simp [Reading.ofMeta, nameMark]

theorem readEvent_eventBytes {event : Event} (h : event.IsWritable) (running : Option UInt8)
    (rest : List UInt8) :
    readEvent? running ((eventBytes running event).1 ++ rest) =
      some ((.ofEvent event, (eventBytes running event).2), rest) := by
  cases event with
  | tempo microseconds =>
    have hlength : (fixed 3 microseconds).length = 3 := length_fixed 3 microseconds
    have hmeta := readEvent_meta tempoMark (fixed 3 microseconds) (by omega) running rest
    rw [hlength, ofMeta_tempo h] at hmeta
    exact hmeta
  | trackName name =>
    have hlength := length_toUTF8 name
    have hmeta := readEvent_meta nameMark name.toUTF8.toList (by rw [hlength]; exact h)
      running rest
    rw [hlength, ofMeta_name] at hmeta
    exact hmeta
  | message message => exact readEvent_message h running rest
  | endOfTrack =>
    have hmeta := readEvent_meta endMark [] (by decide) running rest
    rw [List.append_nil] at hmeta
    exact hmeta

end MidiFile

end ChordGrid
