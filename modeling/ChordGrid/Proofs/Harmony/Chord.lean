import ChordGrid.Harmony.Span
import ChordGrid.Proofs.Checked
import ChordGrid.Proofs.Text.Words

namespace ChordGrid

open Text

theorem find?_eq_some_iff_of_unique {α : Type} {p : α → Bool} {things : List α} {thing : α}
    (hunique : ∀ a ∈ things, ∀ b ∈ things, p a = true → p b = true → a = b) :
    things.find? p = some thing ↔ thing ∈ things ∧ p thing = true := by
  constructor
  · intro hfind
    exact ⟨List.mem_of_find?_eq_some hfind, List.find?_some hfind⟩
  · rintro ⟨hmem, hthing⟩
    obtain ⟨found, hfound⟩ :=
      Option.isSome_iff_exists.mp (List.find?_isSome.mpr ⟨thing, hmem, hthing⟩)
    rw [hfound, hunique found (List.mem_of_find?_eq_some hfound) thing hmem
      (List.find?_some hfound) hthing]

/-! ### Names -/

namespace Degree

theorem isBlank_of_mem_numeral {degree : Degree} : ∀ c ∈ degree.numeral.toList,
    isBlank c = false := by
  have hletters : ∀ c ∈ degree.numeral.toList, 65 ≤ c.toNat ∧ c.toNat ≤ 122 := by
    cases degree <;> simp [numeral]
  exact fun c hc => isBlank_of_mem_range (hletters c hc)

theorem ofText?_eq_some_iff {text : List Char} {degree : Degree} :
    ofText? text = some degree ↔ Spells text degree.numeral.toList := by
  have hunique : ∀ a ∈ all, ∀ b ∈ all, (a.numeral == String.ofList (upper (trim text))) = true →
      (b.numeral == String.ofList (upper (trim text))) = true → a = b := by
    have hnumeral : ∀ a ∈ all, ∀ b ∈ all, a.numeral = b.numeral → a = b := by decide
    intro a ha b hb hfirst hsecond
    exact hnumeral a ha b hb ((beq_iff_eq.mp hfirst).trans (beq_iff_eq.mp hsecond).symm)
  have hall : degree ∈ all := by cases degree <;> decide
  have hupper : upper degree.numeral.toList = degree.numeral.toList := by
    cases degree <;> decide
  rw [ofText?, find?_eq_some_iff_of_unique hunique, spells_iff isBlank_of_mem_numeral,
    ← upper_eq_upper_iff, hupper, beq_iff_eq, String.ext_iff, String.toList_ofList, eq_comm]
  exact and_iff_right hall

theorem parse_eq_ok_iff {name : String} {degree : Degree} :
    parse name = .ok degree ↔ Spells name.toList degree.numeral.toList := by
  rw [parse, ← ofText?_eq_some_iff]
  cases ofText? name.toList <;> simp

end Degree

namespace Mode

theorem isBlank_of_mem_spellings {mode : Mode} : ∀ name ∈ mode.spellings, ∀ c ∈ name.toList,
    isBlank c = false := by
  have hletters : ∀ name ∈ mode.spellings, ∀ c ∈ name.toList, 65 ≤ c.toNat ∧ c.toNat ≤ 122 := by
    cases mode <;> simp [spellings]
  exact fun name hname c hc => isBlank_of_mem_range (hletters name hname c hc)

theorem ofText?_eq_some_iff {text : List Char} {mode : Mode} :
    ofText? text = some mode ↔ ∃ name ∈ mode.spellings, Spells text name.toList := by
  have hunique : ∀ a ∈ all, ∀ b ∈ all,
      a.spellings.contains (String.ofList (lower (trim text))) = true →
      b.spellings.contains (String.ofList (lower (trim text))) = true → a = b := by
    have hspellings : ∀ a ∈ all, ∀ b ∈ all, ∀ name ∈ a.spellings, name ∈ b.spellings → a = b := by
      decide
    intro a ha b hb hfirst hsecond
    exact hspellings a ha b hb _ (List.contains_iff_mem.mp hfirst)
      (List.contains_iff_mem.mp hsecond)
  have hlower : ∀ name ∈ mode.spellings, lower name.toList = name.toList := by
    cases mode <;> decide
  rw [ofText?, find?_eq_some_iff_of_unique hunique, List.contains_iff_mem]
  constructor
  · rintro ⟨-, hmem⟩
    refine ⟨_, hmem, (spells_iff (isBlank_of_mem_spellings _ hmem)).mpr ?_⟩
    rw [hlower _ hmem, String.toList_ofList]
  · rintro ⟨name, hmem, hspells⟩
    refine ⟨mem_all mode, ?_⟩
    rwa [(spells_iff (isBlank_of_mem_spellings name hmem)).mp hspells, hlower name hmem,
      String.ofList_toList]

theorem parse_eq_ok_iff {name : String} {mode : Mode} :
    parse name = .ok mode ↔ ∃ spelling ∈ mode.spellings, Spells name.toList spelling.toList := by
  rw [parse, ← ofText?_eq_some_iff]
  cases ofText? name.toList <;> simp

end Mode

/-! ### Tokens -/

namespace Span

/-- A token is the numeral of a degree, with a name of the mode after a colon if there is one. -/
def Notates (token : List Char) (degree : Degree) : Option Mode → Prop
  | none => Spells token degree.numeral.toList
  | some mode => ∃ chord borrowed, token = chord ++ ':' :: borrowed
    ∧ Spells chord degree.numeral.toList
    ∧ ∃ name ∈ mode.spellings, Spells borrowed name.toList

variable {token : List Char} {degree : Degree} {mode : Option Mode}

theorem colon_not_mem_of_spells (hspells : Spells token degree.numeral.toList) : ':' ∉ token := by
  refine not_mem_of_spells hspells (by decide) ?_
  cases degree <;> decide

theorem parse_eq_ok_iff {beats : Nat} {span : Span} :
    parse beats token = .ok span ↔ span.beats = beats ∧ Notates token span.degree span.mode := by
  obtain ⟨length, degree, mode⟩ := span
  cases hsplit : splitFirst ':' token with
  | none =>
      have hcolon := splitFirst_eq_none_iff.mp hsplit
      simp only [parse, hsplit, bind_eq_ok_iff, Degree.parse_eq_ok_iff, String.toList_ofList]
      constructor
      · rintro ⟨found, hspells, heq⟩
        cases heq
        exact ⟨rfl, hspells⟩
      · rintro ⟨rfl, hnotates⟩
        cases mode with
        | none => exact ⟨degree, hnotates, rfl⟩
        | some mode =>
            obtain ⟨chord, borrowed, rfl, -, -⟩ := hnotates
            exact absurd (List.mem_append_right _ List.mem_cons_self) hcolon
  | some halves =>
      obtain ⟨left, right⟩ := halves
      obtain ⟨htoken, hleft⟩ := splitFirst_eq_some_iff.mp hsplit
      simp only [parse, hsplit, bind_eq_ok_iff, Degree.parse_eq_ok_iff, Mode.parse_eq_ok_iff,
        String.toList_ofList]
      constructor
      · rintro ⟨found, hspells, borrowed, hborrowed, heq⟩
        cases heq
        exact ⟨rfl, left, right, htoken, hspells, hborrowed⟩
      · rintro ⟨rfl, hnotates⟩
        cases mode with
        | none =>
            refine absurd ?_ (colon_not_mem_of_spells hnotates)
            rw [htoken]
            exact List.mem_append_right _ List.mem_cons_self
        | some mode =>
            obtain ⟨chord, borrowed, hchord, hspells, hborrowed⟩ := hnotates
            have hagain := splitFirst_eq_some_iff.mpr ⟨hchord, colon_not_mem_of_spells hspells⟩
            cases hsplit.symm.trans hagain
            exact ⟨degree, hspells, mode, hborrowed, rfl⟩

theorem notates_append_append {before after : List Char} (hbefore : allBlank before = true)
    (hafter : allBlank after = true) :
    Notates (before ++ token ++ after) degree mode ↔ Notates token degree mode := by
  cases mode with
  | none => exact spells_append_append Degree.isBlank_of_mem_numeral hbefore hafter
  | some mode =>
      have hnone : allBlank [] = true := rfl
      have hdegree : ∀ chord : List Char, Spells (before ++ chord) degree.numeral.toList
          ↔ Spells chord degree.numeral.toList := by
        intro chord
        have hpad : Spells (before ++ chord ++ []) degree.numeral.toList ↔ _ :=
          spells_append_append Degree.isBlank_of_mem_numeral hbefore hnone
        rwa [List.append_nil] at hpad
      have hmode : ∀ borrowed : List Char, (∃ name ∈ mode.spellings,
          Spells (borrowed ++ after) name.toList)
            ↔ ∃ name ∈ mode.spellings, Spells borrowed name.toList := by
        intro borrowed
        refine exists_congr fun name => and_congr_right fun hname => ?_
        exact spells_append_append (Mode.isBlank_of_mem_spellings name hname) hnone hafter
      constructor
      · rintro ⟨chord, borrowed, htoken, hchord, hborrowed⟩
        -- The first colon of the token is the first one of the text around it.
        have hcolon : ':' ∈ token := by
          have hmem : ':' ∈ before ++ token ++ after :=
            htoken ▸ List.mem_append_right _ List.mem_cons_self
          rw [List.mem_append, List.mem_append] at hmem
          obtain (hmem | hmem) | hmem := hmem
          · cases allBlank_iff.mp hbefore ':' hmem
          · exact hmem
          · cases allBlank_iff.mp hafter ':' hmem
        obtain ⟨⟨left, right⟩, hsplit⟩ := Option.ne_none_iff_exists'.mp
          (mt splitFirst_eq_none_iff.mp (not_not_intro hcolon))
        obtain ⟨rfl, hleft⟩ := splitFirst_eq_some_iff.mp hsplit
        have hwhole : splitFirst ':' (before ++ (left ++ ':' :: right) ++ after)
            = some (before ++ left, right ++ after) := by
          refine splitFirst_eq_some_iff.mpr ⟨by simp, ?_⟩
          rw [List.mem_append, not_or]
          refine ⟨fun hmem => ?_, hleft⟩
          cases allBlank_iff.mp hbefore ':' hmem
        cases hwhole.symm.trans
          (splitFirst_eq_some_iff.mpr ⟨htoken, colon_not_mem_of_spells hchord⟩)
        exact ⟨left, right, rfl, (hdegree left).mp hchord, (hmode right).mp hborrowed⟩
      · rintro ⟨chord, borrowed, rfl, hchord, hborrowed⟩
        exact ⟨before ++ chord, borrowed ++ after, by simp, (hdegree chord).mpr hchord,
          (hmode borrowed).mpr hborrowed⟩

theorem notates_trim : Notates (trim token) degree mode ↔ Notates token degree mode := by
  obtain ⟨before, after, hbefore, hafter, htoken⟩ := exists_trim token
  rw [← notates_append_append hbefore hafter, ← htoken]

end Span

end ChordGrid
