import ChordGrid.Proofs.Live.Rebuild
import ChordGrid.Proofs.Live.Record
import Mathlib.Data.List.Basic

namespace ChordGrid.Live

/-- The text of the fault that keeps a score from compiling, if there is one. -/
def failure? (settings : Settings) (score : Score) : Option String :=
  match Edition.compile score settings with
  | .ok _ => none
  | .error fault => some fault.message

/-- Whether an attempt failed and the one right before it, if there was one, did not fail with the
same text. Attempts are given as the texts they failed with. -/
def isNews (failures : List (Option String)) (place : Nat) : Bool :=
  match failures[place]? with
  | some (some text) => place = 0 || failures[place - 1]? ≠ some (some text)
  | _ => false

def newsCount (failures : List (Option String)) : Nat :=
  (List.range failures.length).countP (isNews failures)

/-- The editions of those scores that compile. -/
def editionsOf (settings : Settings) (scores : List Score) : List Edition :=
  scores.filterMap fun score => (Edition.compile score settings).toOption

namespace Desk

/-- Rebuilds from one score after the other: what each rebuild answers, and the desk after the
last. -/
def rebuilds (desk : Desk) : List Score → List Bool × Desk
  | [] => ([], desk)
  | score :: rest =>
    let (answer, after) := desk.rebuild score
    let (answers, last) := after.rebuilds rest
    (answer :: answers, last)

theorem rebuilds_concat (desk : Desk) (scores : List Score) (score : Score) :
    desk.rebuilds (scores ++ [score])
      = ((desk.rebuilds scores).1 ++ [((desk.rebuilds scores).2.rebuild score).1],
        ((desk.rebuilds scores).2.rebuild score).2) := by
  induction scores generalizing desk with
  | nil => simp only [List.nil_append, rebuilds]
  | cons first rest ih => simp only [List.cons_append, rebuilds, ih]

end Desk

/-! ### News -/

section News

variable (failures : List (Option String)) (last : Option String)

theorem isNews_concat {place : Nat} (hplace : place < failures.length) :
    isNews (failures ++ [last]) place = isNews failures place := by
  have hbefore : place - 1 < failures.length := Nat.lt_of_le_of_lt (Nat.sub_le place 1) hplace
  unfold isNews
  rw [List.getElem?_append_left hplace, List.getElem?_append_left hbefore]

theorem isNews_last :
    isNews (failures ++ [last]) failures.length
      = (last.isSome && decide (failures.getLast?.join ≠ last)) := by
  unfold isNews
  rw [List.getElem?_concat_length]
  cases last with
  | none => rfl
  | some text =>
      obtain rfl | ⟨before, former, rfl⟩ := List.eq_nil_or_concat' failures
      · simp
      · cases former <;> simp

theorem newsCount_concat :
    newsCount (failures ++ [last])
      = newsCount failures + if last.isSome ∧ failures.getLast?.join ≠ last then 1 else 0 := by
  have hformer : (List.range failures.length).countP (isNews (failures ++ [last]))
      = newsCount failures := by
    refine List.countP_congr ?_
    intro place hplace
    rw [isNews_concat failures last (List.mem_range.mp hplace)]
  rw [newsCount, List.length_append, List.length_singleton, List.range_succ, List.countP_append,
    hformer, List.countP_singleton, isNews_last]
  simp

end News

/-! ### The desk after a history -/

/-- A desk that was loaded from a first score and then rebuilt from some scores. -/
structure Desk.HasTried (settings : Settings) (first : Score) (scores : List Score) (desk : Desk) :
    Prop where
  holder : desk.holder = none
  settings_eq : desk.settings = settings
  valid : (editionsOf settings (first :: scores)).getLast? = some desk.valid.edition
  lastText : desk.reporter.lastText = (scores.map (failure? settings)).getLast?.join
  reported : desk.reporter.reported = newsCount (scores.map (failure? settings))

namespace Desk.HasTried

variable {settings : Settings} {first : Score} {scores : List Score} {desk : Desk}

theorem load (hload : Desk.load first settings = .ok desk) : desk.HasTried settings first [] := by
  obtain ⟨edition, hcompile, rfl⟩ := Desk.load_eq_ok_iff.mp hload
  refine ⟨rfl, rfl, ?_, rfl, rfl⟩
  rw [editionsOf, List.filterMap_cons, hcompile]
  rfl

theorem rebuild (hdesk : desk.HasTried settings first scores) (score : Score) :
    (desk.rebuild score).2.HasTried settings first (scores ++ [score]) := by
  have heditions : editionsOf settings (first :: (scores ++ [score]))
      = editionsOf settings (first :: scores) ++ editionsOf settings [score] := by
    rw [← List.cons_append, editionsOf, List.filterMap_append]
    rfl
  rw [Desk.rebuild_eq hdesk.holder, hdesk.settings_eq]
  cases hcompile : Edition.compile score settings with
  | ok edition =>
      have hfailure : failure? settings score = none := by rw [failure?, hcompile]
      have hedition : editionsOf settings [score] = [edition] := by
        simp [editionsOf, hcompile, Except.toOption]
      refine ⟨hdesk.holder, hdesk.settings_eq, ?_, ?_, ?_⟩
      · rw [heditions, hedition, List.getLast?_concat]
        rfl
      · rw [List.map_append, List.map_singleton, List.getLast?_concat, hfailure]
        exact Reporter.lastText_clear desk.reporter
      · rw [List.map_append, List.map_singleton, newsCount_concat, hfailure,
          if_neg fun hnews => Bool.noConfusion hnews.1, Nat.add_zero, ← hdesk.reported]
        exact Reporter.reported_clear desk.reporter
  | error fault =>
      have hfailure : failure? settings score = some fault.message := by rw [failure?, hcompile]
      have hedition : editionsOf settings [score] = [] := by
        simp [editionsOf, hcompile, Except.toOption]
      refine ⟨hdesk.holder, hdesk.settings_eq, ?_, ?_, ?_⟩
      · rw [heditions, hedition, List.append_nil]
        exact hdesk.valid
      · rw [List.map_append, List.map_singleton, List.getLast?_concat, hfailure]
        exact Reporter.lastText_report desk.reporter fault
      · rw [List.map_append, List.map_singleton, newsCount_concat, hfailure, ← hdesk.lastText,
          ← hdesk.reported]
        change (desk.reporter.report fault).2.reported = _
        rw [Reporter.reported_report]
        by_cases hsame : desk.reporter.lastText = some fault.message <;> simp [hsame]

theorem rebuilds (hload : Desk.load first settings = .ok desk) (scores : List Score) :
    (desk.rebuilds scores).2.HasTried settings first scores := by
  induction scores using List.reverseRecOn with
  | nil => exact load hload
  | append_singleton scores score ih =>
      simp only [Desk.rebuilds_concat]
      exact ih.rebuild score

end Desk.HasTried

variable {settings : Settings} {first : Score} {desk : Desk}

theorem answers_rebuilds (hload : Desk.load first settings = .ok desk) (scores : List Score) :
    (desk.rebuilds scores).1
      = scores.map fun score => (Edition.compile score settings).isOk := by
  induction scores using List.reverseRecOn with
  | nil => rfl
  | append_singleton scores score ih =>
      have htried := Desk.HasTried.rebuilds hload scores
      rw [Desk.rebuilds_concat, ih, Desk.rebuild_eq htried.holder, htried.settings_eq,
        List.map_append, List.map_singleton]

/-- **A history of rebuilds.** Load a desk and rebuild from any scores, one after the other. Each
rebuild answers whether its score compiles. After them the edition of the last score that compiled
is valid, the first one among them; the reporter remembers the text of the last attempt if that
failed, and nothing otherwise; and it has reported each failure that was news. -/
theorem rebuilds_history (hload : Desk.load first settings = .ok desk) (scores : List Score) :
    (desk.rebuilds scores).1 = scores.map (fun score => (Edition.compile score settings).isOk)
      ∧ some (desk.rebuilds scores).2.valid.edition
        = (editionsOf settings (first :: scores)).getLast?
      ∧ (desk.rebuilds scores).2.reporter.lastText
        = (scores.map (failure? settings)).getLast?.join
      ∧ (desk.rebuilds scores).2.reporter.reported
        = newsCount (scores.map (failure? settings)) := by
  have htried := Desk.HasTried.rebuilds hload scores
  exact ⟨answers_rebuilds hload scores, htried.valid.symm, htried.lastText, htried.reported⟩

/-- A score in a key that nobody knows. -/
def unkeyed (key : String) : Score :=
  { sketch 100 with song := { (sketch 100).song with key } }

theorem rebuilds_history_mixed :
    ((Desk.fresh {} { roll := ⟨[]⟩, tempo := 100, length := 0 }).rebuilds
          [unkeyed "H", unkeyed "H", sketch 80, unkeyed "H", unkeyed "Q"]).2.valid.edition
        = { roll := ⟨[]⟩, tempo := 80, length := 0 }
      ∧ ((Desk.fresh {} { roll := ⟨[]⟩, tempo := 100, length := 0 }).rebuilds
          [unkeyed "H", unkeyed "H", sketch 80, unkeyed "H", unkeyed "Q"]).2.reporter.reported
        = 3 := by
  obtain ⟨-, hvalid, -, hreported⟩ := rebuilds_history load_sketch
    [unkeyed "H", unkeyed "H", sketch 80, unkeyed "H", unkeyed "Q"]
  have hlast : (editionsOf {} (sketch 100 ::
      [unkeyed "H", unkeyed "H", sketch 80, unkeyed "H", unkeyed "Q"])).getLast?
      = some { roll := ⟨[]⟩, tempo := 80, length := 0 } := by
    decide +kernel
  have hnews : newsCount ([unkeyed "H", unkeyed "H", sketch 80, unkeyed "H", unkeyed "Q"].map
      (failure? {})) = 3 := by
    decide +kernel
  exact ⟨Option.some.inj (hvalid.trans hlast), hreported.trans hnews⟩

end ChordGrid.Live
