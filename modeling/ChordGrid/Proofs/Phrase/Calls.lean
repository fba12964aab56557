import ChordGrid.Proofs.Build.Sheets
import ChordGrid.Proofs.Phrase.Pushing
import ChordGrid.Proofs.Roll.Sorting

namespace ChordGrid

/-! ### One call -/

namespace Phrase

/-- What a phrase is asked for: the notes of a pattern at a position. -/
structure Call where
  position : Nat
  tonality : Tonality
  pattern : Pattern

def answer (phrase : Phrase) (call : Call) : Except Fault (List Note) × Phrase :=
  phrase.play call.position call.tonality call.pattern

def placed (phrase : Phrase) (call : Call) : Placement :=
  phrase.placement call.position call.tonality call.pattern

section Answer

variable {phrase after : Phrase} {call : Call} {notes : List Note} {fault : Fault}

theorem answer_of_name_ne (hname : phrase.name ≠ call.pattern.name) :
    phrase.answer call = (.ok [], phrase) :=
  if_pos hname

theorem answer_of_ok {made : List Note} {content : Content}
    (hname : phrase.name = call.pattern.name)
    (hmade : phrase.content.notes (phrase.placed call) = (.ok made, content)) :
    phrase.answer call
      = (.ok (inTime made), { phrase with content, notes := phrase.notes ++ inTime made }) := by
  rw [answer, play_eq, if_neg (not_not.mpr hname)]
  change phrase.content.notes (phrase.placement _ _ _) = _ at hmade
  simp only [hmade]

theorem answer_of_error (hname : phrase.name = call.pattern.name)
    (hfault : (phrase.content.notes (phrase.placed call)).1 = .error fault) :
    phrase.answer call = (.error fault, phrase) := by
  have hcontent := Content.snd_notes_of_error hfault
  rw [answer, play_eq, if_neg (not_not.mpr hname)]
  change (phrase.content.notes (phrase.placement _ _ _)).1 = _ at hfault
  change (phrase.content.notes (phrase.placement _ _ _)).2 = _ at hcontent
  simp only [hfault, hcontent]

/-- All that a call can do. -/
theorem answer_cases (phrase : Phrase) (call : Call) :
    (phrase.name ≠ call.pattern.name ∧ phrase.answer call = (.ok [], phrase))
      ∨ phrase.name = call.pattern.name
        ∧ ((∃ made content, phrase.content.notes (phrase.placed call) = (.ok made, content)
            ∧ phrase.answer call
              = (.ok (inTime made), { phrase with content, notes := phrase.notes ++ inTime made }))
          ∨ ∃ fault, (phrase.content.notes (phrase.placed call)).1 = .error fault
            ∧ phrase.answer call = (.error fault, phrase)) := by
  by_cases hname : phrase.name = call.pattern.name
  · refine .inr ⟨hname, ?_⟩
    cases hmade : phrase.content.notes (phrase.placed call) with
    | mk outcome content =>
        cases outcome with
        | ok made => exact .inl ⟨made, content, rfl, answer_of_ok hname hmade⟩
        | error fault =>
            exact .inr ⟨fault, rfl, answer_of_error hname (congrArg Prod.fst hmade)⟩
  · exact .inl ⟨hname, answer_of_name_ne hname⟩

theorem notes_of_answer_ok (hanswer : phrase.answer call = (.ok notes, after)) :
    (notes.Pairwise fun a b => a.tick ≤ b.tick) ∧ after.notes = phrase.notes ++ notes := by
  obtain ⟨-, hother⟩ | ⟨-, ⟨made, content, -, hmade⟩ | ⟨fault, -, hfault⟩⟩ :=
    phrase.answer_cases call
  · rw [hother] at hanswer
    cases hanswer
    exact ⟨.nil, (List.append_nil _).symm⟩
  · rw [hmade] at hanswer
    cases hanswer
    exact ⟨pairwise_sortedBy made, rfl⟩
  · rw [hfault] at hanswer
    cases hanswer

/-- A call that fails leaves the phrase as it was; one that draws fails at an endless draw only. -/
theorem eq_of_answer_error (hanswer : phrase.answer call = (.error fault, after)) :
    after = phrase ∧ (phrase.kind = .seque → fault = .endlessDraw) := by
  obtain ⟨-, hother⟩ | ⟨-, ⟨made, content, -, hmade⟩ | ⟨own, hown, hfault⟩⟩ :=
    phrase.answer_cases call
  · rw [hother] at hanswer
    cases hanswer
  · rw [hmade] at hanswer
    cases hanswer
  · rw [hfault] at hanswer
    cases hanswer
    refine ⟨rfl, ?_⟩
    intro hkind
    rw [kind] at hkind
    generalize phrase.content = content at hkind hown
    cases content with
    | seque g => exact (Generator.notes_of_error hown).1
    | drum lines => cases hkind
    | pad lines => cases hkind
    | bass line => cases hkind

end Answer

/-! ### Calls in a row -/

structure Reply where
  call : Call
  answer : Except Fault (List Note)

namespace Reply

def succeeded (reply : Reply) : Bool :=
  reply.answer.isOk

/-- The notes of an answer; there are none of a fault. -/
def notes (reply : Reply) : List Note :=
  reply.answer.toOption.getD []

end Reply

/-- The replies to some calls, one after the other, and the phrase after them. A call that fails
does not keep the next one from being made. -/
def replies (phrase : Phrase) : List Call → List Reply × Phrase
  | [] => ([], phrase)
  | call :: later =>
    let (answer, after) := phrase.answer call
    let (replies, last) := after.replies later
    (⟨call, answer⟩ :: replies, last)

theorem replies_cons (phrase : Phrase) (call : Call) (later : List Call) :
    phrase.replies (call :: later)
      = (⟨call, (phrase.answer call).1⟩ :: ((phrase.answer call).2.replies later).1,
        ((phrase.answer call).2.replies later).2) :=
  rfl

theorem notes_replies (phrase : Phrase) (calls : List Call) :
    (phrase.replies calls).2.notes
      = phrase.notes ++ (phrase.replies calls).1.flatMap Reply.notes := by
  induction calls generalizing phrase with
  | nil => exact (List.append_nil _).symm
  | cons call later ih =>
      rw [replies_cons, ih, List.flatMap_cons, ← List.append_assoc]
      congr 1
      cases hanswer : phrase.answer call with
      | mk outcome after =>
          cases outcome with
          | ok notes => exact (notes_of_answer_ok hanswer).2
          | error fault =>
              rw [(eq_of_answer_error hanswer).1]
              exact (List.append_nil _).symm

/-- The calls that fail may as well not be made. -/
theorem replies_succeeded (phrase : Phrase) (calls : List Call) :
    phrase.replies (((phrase.replies calls).1.filter Reply.succeeded).map Reply.call)
      = ((phrase.replies calls).1.filter Reply.succeeded, (phrase.replies calls).2) := by
  induction calls generalizing phrase with
  | nil => rfl
  | cons call later ih =>
      rw [replies_cons]
      cases hanswer : phrase.answer call with
      | mk outcome after =>
          cases outcome with
          | ok notes =>
              rw [List.filter_cons_of_pos rfl, List.map_cons, replies_cons, hanswer, ih]
          | error fault =>
              rw [List.filter_cons_of_neg Bool.false_ne_true, (eq_of_answer_error hanswer).1, ih]

/-- **A call does all or nothing.** Make any calls to a phrase, whatever it plays from. If the next
one is for a pattern of another name, it is answered without notes and nothing changes. If it
succeeds, its notes are in time and stand behind those that were there. If it fails, the phrase is
what it was, with its notes and its generator, and a generator fails only by drawing without end. So
the notes behind a phrase are those of its answers, and all other answers and the phrase itself are
the same without the calls that fail. -/
theorem call_all_or_nothing (phrase : Phrase) (calls : List Call) :
    (∀ (call : Call) (now after : Phrase), now = (phrase.replies calls).2 →
        (now.name ≠ call.pattern.name → now.answer call = (.ok [], now))
          ∧ (∀ notes, now.answer call = (.ok notes, after) →
            (notes.Pairwise fun a b => a.tick ≤ b.tick) ∧ after.notes = now.notes ++ notes)
          ∧ ∀ fault, now.answer call = (.error fault, after) →
            after = now ∧ (now.kind = .seque → fault = .endlessDraw))
      ∧ (phrase.replies calls).2.notes
        = phrase.notes ++ (phrase.replies calls).1.flatMap Reply.notes
      ∧ phrase.replies (((phrase.replies calls).1.filter Reply.succeeded).map Reply.call)
        = ((phrase.replies calls).1.filter Reply.succeeded, (phrase.replies calls).2) := by
  refine ⟨?_, notes_replies phrase calls, replies_succeeded phrase calls⟩
  rintro call now after -
  exact ⟨answer_of_name_ne, fun notes => notes_of_answer_ok, fun fault => eq_of_answer_error⟩

/-- Two voices on the seventh of a chord, the second of which lies far above the first, and a note
from before. -/
def wideApart : Phrase where
  name := "a"
  content :=
    .pad [⟨[.step ⟨6, by decide⟩], 0, [], []⟩, ⟨[.step ⟨6, by decide⟩], 100, [], []⟩]
  resolution := .standard
  velocity := 127
  notes := [⟨0, 71, 120, 127⟩]

/-- The note of the first voice is pushed behind the one that is there, and cut off again. -/
example : wideApart.answer ⟨0, ⟨.above 0, .ionian⟩, ⟨"a", ⟨⟨4, .I, none⟩, []⟩, []⟩⟩
    = (.error (.pitchOutOfRange 171), wideApart) := by
  decide +kernel

end Phrase

end ChordGrid
