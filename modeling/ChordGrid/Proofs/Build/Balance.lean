import ChordGrid.Proofs.Build.Strikes
import ChordGrid.Proofs.Roll.Reading

/-!
# Balance

Of each key a built roll releases as much as it strikes, and it never releases more than it has
struck so far. Notes of many voices lie over one another and are sorted by tick and rank, so this
cannot be read off the order in which a build makes its messages. What survives the sorting is a
count at each tick: as every note lasts for some time, each release up to a tick belongs to an
attack before it. In a stream in time the attacks before a tick stand before the releases at it.
-/

namespace ChordGrid

namespace Message

def strikes (channel pitch : Nat) : Message → Bool
  | noteOn c p _ => c = channel && p = pitch
  | _ => false

def releases (channel pitch : Nat) : Message → Bool
  | noteOff c p => c = channel && p = pitch
  | _ => false

variable {message : Message} {channel pitch : Nat}

theorem strikes_of_isSetup (hsetup : message.isSetup = true) :
    message.strikes channel pitch = false := by
  cases message with
  | noteOn c p velocity => cases hsetup
  | _ => rfl

theorem releases_of_isSetup (hsetup : message.isSetup = true) :
    message.releases channel pitch = false := by
  cases message with
  | noteOff c p => cases hsetup
  | _ => rfl

end Message

variable (channel pitch : Nat)

def strikeCount (messages : List Timed) : Nat :=
  messages.countP fun timed => timed.message.strikes channel pitch

def releaseCount (messages : List Timed) : Nat :=
  messages.countP fun timed => timed.message.releases channel pitch

/-- Each release of a key up to a tick has an attack before that tick; no attack is left over. -/
structure IsMatched (messages : List Timed) : Prop where
  covered : ∀ tick,
    messages.countP (fun timed => timed.message.releases channel pitch && timed.tick ≤ tick)
      ≤ messages.countP fun timed => timed.message.strikes channel pitch && timed.tick < tick
  even : strikeCount channel pitch messages = releaseCount channel pitch messages

namespace IsMatched

variable {channel pitch} {messages more : List Timed}

theorem append (hmessages : IsMatched channel pitch messages)
    (hmore : IsMatched channel pitch more) : IsMatched channel pitch (messages ++ more) where
  covered := by
    intro tick
    rw [List.countP_append, List.countP_append]
    exact Nat.add_le_add (hmessages.covered tick) (hmore.covered tick)
  even := by
    rw [strikeCount, releaseCount, List.countP_append, List.countP_append]
    exact congrArg₂ (· + ·) hmessages.even hmore.even

theorem perm (hmessages : IsMatched channel pitch messages) (hperm : more.Perm messages) :
    IsMatched channel pitch more where
  covered := by
    intro tick
    rw [hperm.countP_eq, hperm.countP_eq]
    exact hmessages.covered tick
  even := by
    rw [strikeCount, releaseCount, hperm.countP_eq, hperm.countP_eq]
    exact hmessages.even

theorem flatten {lists : List (List Timed)}
    (hlists : ∀ list ∈ lists, IsMatched channel pitch list) :
    IsMatched channel pitch lists.flatten := by
  induction lists with
  | nil => exact ⟨fun _ => Nat.le_refl 0, rfl⟩
  | cons first rest ih =>
      have hfirst := hlists first List.mem_cons_self
      have hrest := ih fun list hlist => hlists list (List.mem_cons_of_mem first hlist)
      exact hfirst.append hrest

theorem setup (hsetup : ∀ timed ∈ messages, timed.message.isSetup = true) :
    IsMatched channel pitch messages where
  covered := by
    intro tick
    have hnone : messages.countP
        (fun timed => timed.message.releases channel pitch && timed.tick ≤ tick) = 0 := by
      rw [List.countP_eq_zero]
      intro timed htimed
      simp [Message.releases_of_isSetup (hsetup timed htimed)]
    rw [hnone]
    exact Nat.zero_le _
  even := by
    have hstrikes : strikeCount channel pitch messages = 0 := by
      rw [strikeCount, List.countP_eq_zero]
      intro timed htimed
      simp [Message.strikes_of_isSetup (hsetup timed htimed)]
    have hreleases : releaseCount channel pitch messages = 0 := by
      rw [releaseCount, List.countP_eq_zero]
      intro timed htimed
      simp [Message.releases_of_isSetup (hsetup timed htimed)]
    rw [hstrikes, hreleases]

theorem strike (c : Nat) {note : Note} (hgate : 0 < note.gate) :
    IsMatched channel pitch (Part.strike c note) := by
  by_cases hkey : c = channel ∧ note.pitch = pitch
  · refine ⟨?_, ?_⟩
    · intro tick
      by_cases hended : note.tick + note.gate ≤ tick
      · have hstarted : note.tick < tick := by omega
        simp [Part.strike, Message.releases, Message.strikes, hkey.1, hkey.2, hended, hstarted]
      · simp [Part.strike, Message.releases, Message.strikes, hended]
    · simp [Part.strike, strikeCount, releaseCount, Message.releases, Message.strikes, hkey.1,
        hkey.2]
  · refine ⟨?_, ?_⟩
    · intro tick
      simp [Part.strike, Message.releases, Message.strikes, hkey]
    · simp [Part.strike, strikeCount, releaseCount, Message.releases, Message.strikes, hkey]

theorem of_isStruck {c : Nat} (hmessages : Part.IsStruck c messages) :
    IsMatched channel pitch messages := by
  obtain ⟨notes, hnotes, rfl⟩ := hmessages
  rw [List.flatMap_def]
  refine flatten ?_
  intro list hlist
  obtain ⟨note, hnote, rfl⟩ := List.mem_map.mp hlist
  exact strike c (hnotes note hnote)

/-- **The prefix law.** In messages in time no prefix releases a key more often than it strikes
it. -/
theorem releaseCount_le_strikeCount {before after : List Timed}
    (hmatched : IsMatched channel pitch (before ++ after))
    (hsorted : (before ++ after).Pairwise fun a b => a.tick ≤ b.tick) :
    releaseCount channel pitch before ≤ strikeCount channel pitch before := by
  obtain rfl | ⟨front, last, rfl⟩ := List.eq_nil_or_concat' before
  · exact Nat.le_refl 0
  obtain ⟨hbefore, -, hacross⟩ := List.pairwise_append.mp hsorted
  obtain ⟨-, -, hfront⟩ := List.pairwise_append.mp hbefore
  have hle : ∀ timed ∈ front ++ [last], timed.tick ≤ last.tick := by
    intro timed htimed
    obtain hmem | hmem := List.mem_append.mp htimed
    · exact hfront timed hmem last (List.mem_singleton_self last)
    · exact Nat.le_of_eq (congrArg Timed.tick (List.mem_singleton.mp hmem))
  have hge : ∀ timed ∈ after, last.tick ≤ timed.tick := by
    intro timed htimed
    exact hacross last (List.mem_append_right front (List.mem_singleton_self last)) timed htimed
  have hafter : after.countP
      (fun timed => timed.message.strikes channel pitch && timed.tick < last.tick) = 0 := by
    rw [List.countP_eq_zero]
    intro timed htimed
    simp [Nat.not_lt_of_le (hge timed htimed)]
  calc releaseCount channel pitch (front ++ [last])
      = (front ++ [last]).countP
          (fun timed => timed.message.releases channel pitch && timed.tick ≤ last.tick) := by
        refine List.countP_congr ?_
        intro timed htimed
        simp [hle timed htimed]
    _ ≤ (front ++ [last] ++ after).countP
          (fun timed => timed.message.releases channel pitch && timed.tick ≤ last.tick) := by
        exact (List.sublist_append_left _ after).countP_le
    _ ≤ (front ++ [last] ++ after).countP
          (fun timed => timed.message.strikes channel pitch && timed.tick < last.tick) :=
        hmatched.covered last.tick
    _ = (front ++ [last]).countP
          (fun timed => timed.message.strikes channel pitch && timed.tick < last.tick) := by
        rw [List.countP_append, hafter, Nat.add_zero]
    _ ≤ strikeCount channel pitch (front ++ [last]) := by
        refine List.countP_mono_left ?_
        intro timed _ hstrikes
        exact (Bool.and_eq_true_iff.mp hstrikes).1

end IsMatched

variable {channel pitch}

theorem Arrangement.isMatched_messages {arrangement : Arrangement} {tick : Nat} {mode : BuildMode}
    {made : List Timed} (hmade : (arrangement.messages tick mode).1 = .ok made) :
    IsMatched channel pitch made := by
  obtain ⟨lists, hlists, rfl⟩ := map_eq_ok_iff.mp hmade
  refine (IsMatched.setup fun _ => setup_of_mem_mixdown).append (IsMatched.flatten ?_)
  intro list hlist
  obtain ⟨part, -, hpart⟩ := exists_of_mem_right (sweep_eq_ok_iff.mp hlists) hlist
  obtain ⟨struck, hstruck, rfl⟩ := Part.exists_struck_of_build hpart
  exact (IsMatched.setup fun _ => setup_of_mem_selection).append (IsMatched.of_isStruck hstruck)

/-- **Every build is balanced.** In the stream of a built roll no prefix releases a key more often
than it strikes it, the whole stream releases it as often as it strikes it, and each attack is
followed by a release of its key at a later tick. -/
theorem build_balanced {arrangement : Arrangement} {tick : Nat} {mode : BuildMode} {roll : Roll}
    (hbuild : (arrangement.build tick mode).1 = .ok roll) (quantum channel pitch : Nat) :
    (∀ played, played <+: roll.exported quantum →
        releaseCount channel pitch played ≤ strikeCount channel pitch played)
      ∧ releaseCount channel pitch (roll.exported quantum)
        = strikeCount channel pitch (roll.exported quantum)
      ∧ ∀ before attack velocity after,
        roll.exported quantum = before ++ ⟨attack, .noteOn channel pitch velocity⟩ :: after →
          ∃ later, attack < later ∧ ⟨later, .noteOff channel pitch⟩ ∈ after := by
  obtain ⟨messages, hmessages, rfl⟩ := map_eq_ok_iff.mp hbuild
  have hmatched : IsMatched channel pitch (Roll.ofMessages messages).stream :=
    (Arrangement.isMatched_messages hmessages).perm (Roll.perm_stream_ofMessages messages)
  have hsorted := Roll.pairwise_stream (Roll.isOrdered_ofMessages messages)
  rw [Roll.exported_eq_stream]
  refine ⟨?_, hmatched.even.symm, ?_⟩
  · rintro played ⟨rest, hrest⟩
    rw [← hrest] at hmatched hsorted
    exact hmatched.releaseCount_le_strikeCount hsorted
  · intro before attack velocity after hstream
    have hattack : ⟨attack, .noteOn channel pitch velocity⟩ ∈ messages := by
      rw [← Roll.mem_stream_ofMessages, hstream]
      exact List.mem_append_right before List.mem_cons_self
    obtain ⟨later, hlater, hrelease⟩ :=
      Arrangement.releasesLater_messages hmessages attack channel pitch velocity hattack
    refine ⟨later, hlater, ?_⟩
    rw [← Roll.mem_stream_ofMessages, hstream] at hrelease
    rw [hstream] at hsorted
    obtain hbefore | hafter := List.mem_append.mp hrelease
    · -- What stands before the attack is no later than it.
      have hle := (List.pairwise_append.mp hsorted).2.2 _ hbefore _ List.mem_cons_self
      exact absurd hlater (Nat.not_lt_of_le hle)
    · obtain hsame | hmem := List.mem_cons.mp hafter
      · cases hsame
      · exact hmem

def tonic : Step := ⟨0, by decide⟩

/-- Two phrases on one key: the second one strikes it while the first one holds it. -/
def overlaid : Arrangement where
  timeline :=
    .ofPatterns ⟨⟨⟨0, by decide⟩⟩, .ionian⟩ .standard [⟨"a", ⟨⟨4, .I, none⟩, []⟩, []⟩]
  parts :=
    [{ channel := 0
       program := .instrument 0
       kind := .pad
       phrases :=
         [.fresh "a" (.pad [⟨[.step tonic, .hold, .hold, .hold], 0, [], []⟩]) .standard 127,
           .fresh "a" (.pad [⟨[.rest, .step tonic, .rest, .rest], 0, [], []⟩]) .standard 127] }]
  faders := []
  tempo := 120

def overlaidMessages : List Timed :=
  [⟨0, .program 0 0⟩, ⟨0, .noteOn 0 60 127⟩, ⟨480, .noteOff 0 60⟩, ⟨120, .noteOn 0 60 127⟩,
    ⟨240, .noteOff 0 60⟩]

theorem build_balanced_overlaid :
    (overlaid.build 0 .playback).1 = .ok (Roll.ofMessages overlaidMessages)
      ∧ releaseCount 0 60 ((Roll.ofMessages overlaidMessages).exported 30)
        = strikeCount 0 60 ((Roll.ofMessages overlaidMessages).exported 30) := by
  have hmade : (overlaid.messages 0 .playback).1 = .ok overlaidMessages := by
    decide +kernel
  have hbuild : (overlaid.build 0 .playback).1 = .ok (Roll.ofMessages overlaidMessages) :=
    map_eq_ok_iff.mpr ⟨overlaidMessages, hmade, rfl⟩
  exact ⟨hbuild, (build_balanced hbuild 30 0 60).2.1⟩

end ChordGrid
