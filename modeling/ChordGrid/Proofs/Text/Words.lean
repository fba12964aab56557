import ChordGrid.Text.Blank
import ChordGrid.Text.Pieces

namespace ChordGrid.Text

/-! ### Cutting -/

theorem pieces_eq_splitOnP (isSeparator : Char → Bool) (text : List Char) :
    pieces isSeparator text = text.splitOnP isSeparator := by
  induction text with
  | nil => rfl
  | cons c rest ih =>
      rw [pieces, List.splitOnP_cons_eq_if_modifyHead, ih]
      by_cases hc : isSeparator c
      · rw [if_pos hc, if_pos hc]
      · rw [if_neg hc, if_neg hc]
        obtain ⟨piece, more, hpieces⟩ :=
          List.exists_cons_of_ne_nil (List.splitOnP_ne_nil isSeparator rest)
        rw [hpieces, List.modifyHead_cons]

section SplitFirst

variable {mark : Char} {text left right : List Char}

theorem splitFirst_eq_some_iff :
    splitFirst mark text = some (left, right) ↔ text = left ++ mark :: right ∧ mark ∉ left := by
  induction text generalizing left with
  | nil => simp [splitFirst]
  | cons c rest ih =>
      rw [splitFirst]
      by_cases hc : c = mark
      · subst hc
        cases left with
        | nil => simp [eq_comm]
        | cons d more =>
            simp only [if_true, Option.some.injEq, Prod.mk.injEq, List.cons_append, List.cons.injEq,
              List.mem_cons, not_or]
            constructor
            · rintro ⟨hnil, -⟩
              cases hnil
            · rintro ⟨⟨rfl, -⟩, hne, -⟩
              exact absurd rfl hne
      · rw [if_neg hc]
        cases left with
        | nil =>
            constructor
            · intro hsplit
              obtain ⟨halves, -, heq⟩ := Option.map_eq_some_iff.mp hsplit
              cases heq
            · rintro ⟨heq, -⟩
              exact absurd (List.cons.inj heq).1 hc
        | cons d more =>
            rw [List.cons_append, List.cons.injEq, List.mem_cons, not_or, Option.map_eq_some_iff]
            constructor
            · rintro ⟨⟨before, after⟩, hsplit, heq⟩
              cases heq
              obtain ⟨hrest, hmark⟩ := ih.mp hsplit
              exact ⟨⟨rfl, hrest⟩, fun heq => hc heq.symm, hmark⟩
            · rintro ⟨⟨rfl, hrest⟩, -, hmark⟩
              exact ⟨(more, right), ih.mpr ⟨hrest, hmark⟩, rfl⟩

end SplitFirst

/-! ### Blank ends -/

section Ends

variable {before text after : List Char}

theorem trimStart_append (hbefore : allBlank before = true) :
    trimStart (before ++ text) = trimStart text :=
  List.dropWhile_append_of_pos (allBlank_iff.mp hbefore)

theorem trimEnd_append (hafter : allBlank after = true) :
    trimEnd (text ++ after) = trimEnd text := by
  have hreverse : ∀ c ∈ after.reverse, isBlank c = true := by
    intro c hc
    exact allBlank_iff.mp hafter c (List.mem_reverse.mp hc)
  rw [trimEnd, List.reverse_append, List.dropWhile_append_of_pos hreverse, trimEnd]

theorem trim_append_append (hbefore : allBlank before = true) (hafter : allBlank after = true) :
    trim (before ++ text ++ after) = trim text := by
  rw [List.append_assoc, trim, trimStart_append hbefore, trim]
  by_cases htext : allBlank text = true
  · have hboth : allBlank (text ++ after) = true := by
      rw [allBlank, List.all_append, ← allBlank, ← allBlank, htext, hafter, Bool.true_and]
    rw [trimStart_eq_nil_iff.mpr htext, trimStart_eq_nil_iff.mpr hboth]
  · have hsome : ¬ (text.dropWhile isBlank).isEmpty = true := by
      rw [List.isEmpty_iff]
      exact fun hnil => htext (trimStart_eq_nil_iff.mp hnil)
    rw [trimStart, List.dropWhile_append, if_neg hsome, trimEnd_append hafter]
    rfl

/-- A text is what trimming leaves of it, between blanks. -/
theorem exists_trim (text : List Char) :
    ∃ before after, allBlank before = true ∧ allBlank after = true
      ∧ text = before ++ trim text ++ after := by
  refine ⟨text.takeWhile isBlank, ((trimStart text).reverse.takeWhile isBlank).reverse,
    List.all_takeWhile, ?_, ?_⟩
  · rw [allBlank, List.all_reverse]
    exact List.all_takeWhile
  · have hstart : text.takeWhile isBlank ++ trimStart text = text :=
      List.takeWhile_append_dropWhile
    have hend : trim text ++ ((trimStart text).reverse.takeWhile isBlank).reverse
        = trimStart text := by
      rw [trim, trimEnd, ← List.reverse_append, List.takeWhile_append_dropWhile,
        List.reverse_reverse]
    rw [List.append_assoc, hend, hstart]

theorem trim_eq_self (htext : ∀ c ∈ text, isBlank c = false) : trim text = text := by
  have hkeep : ∀ chars : List Char, (∀ c ∈ chars, isBlank c = false) →
      chars.dropWhile isBlank = chars := by
    intro chars hchars
    cases chars with
    | nil => rfl
    | cons c rest => rw [List.dropWhile_cons_of_neg (by simp [hchars c List.mem_cons_self])]
  have hreverse : ∀ c ∈ text.reverse, isBlank c = false :=
    fun c hc => htext c (List.mem_reverse.mp hc)
  rw [trim, trimStart, hkeep text htext, trimEnd, hkeep _ hreverse, List.reverse_reverse]

theorem isEmpty_trim : (trim text).isEmpty = allBlank text := by
  obtain ⟨before, after, hbefore, hafter, htext⟩ := exists_trim text
  by_cases hblank : allBlank text = true
  · rw [hblank, trim, trimStart_eq_nil_iff.mpr hblank]
    rfl
  · rw [Bool.eq_false_iff.mpr hblank, List.isEmpty_eq_false_iff]
    intro hnil
    rw [hnil, List.append_nil] at htext
    apply hblank
    rw [htext, allBlank, List.all_append, ← allBlank, ← allBlank, hbefore, hafter, Bool.true_and]

end Ends

/-! ### Letters -/

theorem toNat_toLower (c : Char) :
    c.toLower.toNat = if 65 ≤ c.toNat ∧ c.toNat ≤ 90 then c.toNat + 32 else c.toNat := by
  by_cases h : c.val ≥ 'A'.val ∧ c.val ≤ 'Z'.val
  · have hlower : c.toLower = ⟨c.val + ('a'.val - 'A'.val), _⟩ := dif_pos h
    have hsum : (c.toNat + 32) % 2 ^ 32 = c.toNat + 32 := by
      have hto : c.toNat ≤ 90 := h.2
      omega
    rw [hlower, Char.toNat, UInt32.toNat_add]
    exact hsum.trans (if_pos h).symm
  · have hsame : c.toLower = c := dif_neg h
    rw [hsame]
    exact (if_neg h).symm

theorem toNat_toUpper (c : Char) :
    c.toUpper.toNat = if 97 ≤ c.toNat ∧ c.toNat ≤ 122 then c.toNat - 32 else c.toNat := by
  by_cases h : 'a'.val ≤ c.val ∧ c.val ≤ 'z'.val
  · have hupper : c.toUpper = ⟨c.val + ('A'.val - 'a'.val), _⟩ := dif_pos h
    have hsum : (c.toNat + (2 ^ 32 - 32)) % 2 ^ 32 = c.toNat - 32 := by
      have hrange : 97 ≤ c.toNat ∧ c.toNat ≤ 122 := h
      omega
    rw [hupper, Char.toNat, UInt32.toNat_add]
    exact hsum.trans (if_pos h).symm
  · have hsame : c.toUpper = c := dif_neg h
    rw [hsame]
    exact (if_neg h).symm

theorem isBlank_of_mem_range {c : Char} (hc : 65 ≤ c.toNat ∧ c.toNat ≤ 122) :
    isBlank c = false := by
  rw [isBlank, Bool.eq_false_iff]
  simp only [blankRanges, ne_eq, List.any_cons, List.any_nil, Bool.or_false, Bool.or_eq_true,
    Bool.and_eq_true, decide_eq_true_eq]
  omega

theorem isBlank_toLower (c : Char) : isBlank c.toLower = isBlank c := by
  have hlower := toNat_toLower c
  rw [Bool.eq_iff_iff, isBlank, isBlank]
  simp only [blankRanges, List.any_cons, List.any_nil, Bool.or_false, Bool.or_eq_true,
    Bool.and_eq_true, decide_eq_true_eq]
  split at hlower <;> omega

theorem upper_eq_upper_iff {a b : List Char} : upper a = upper b ↔ lower a = lower b := by
  have hmap : ∀ f g : Char → Char, (∀ c, f (g c) = f c) →
      ∀ a b : List Char, a.map g = b.map g → a.map f = b.map f := by
    intro f g hfg a b h
    have hagain := congrArg (List.map f) h
    rwa [List.map_map, List.map_map, show f ∘ g = f from funext hfg] at hagain
  have hlower (c : Char) : c.toUpper.toLower = c.toLower := by
    rw [← Char.toNat_inj, toNat_toLower, toNat_toUpper, toNat_toLower]
    grind
  have hupper (c : Char) : c.toLower.toUpper = c.toUpper := by
    rw [← Char.toNat_inj, toNat_toUpper, toNat_toLower, toNat_toUpper]
    grind
  exact ⟨hmap _ _ hlower a b, hmap _ _ hupper a b⟩

/-! ### Spelling -/

/-- A text is a word between blank ends, up to the case of ASCII letters. -/
def Spells (text word : List Char) : Prop :=
  ∃ before letters after, text = before ++ letters ++ after ∧ allBlank before = true
    ∧ allBlank after = true ∧ lower letters = lower word

section Spells

variable {text word : List Char} (hword : ∀ c ∈ word, isBlank c = false)

include hword

theorem spells_iff : Spells text word ↔ lower (trim text) = lower word := by
  constructor
  · rintro ⟨before, letters, after, rfl, hbefore, hafter, hletters⟩
    have hsolid : ∀ c ∈ letters, isBlank c = false := by
      intro c hc
      have hmem : c.toLower ∈ lower word := hletters ▸ List.mem_map_of_mem hc
      obtain ⟨d, hd, heq⟩ := List.mem_map.mp hmem
      rw [← isBlank_toLower, ← heq, isBlank_toLower, hword d hd]
    rw [trim_append_append hbefore hafter, trim_eq_self hsolid, hletters]
  · intro hlower
    obtain ⟨before, after, hbefore, hafter, htext⟩ := exists_trim text
    exact ⟨before, trim text, after, htext, hbefore, hafter, hlower⟩

theorem spells_append_append {before after : List Char} (hbefore : allBlank before = true)
    (hafter : allBlank after = true) :
    Spells (before ++ text ++ after) word ↔ Spells text word := by
  rw [spells_iff hword, spells_iff hword, trim_append_append hbefore hafter]

end Spells

/-- What is neither a blank nor a letter of a word does not stand in a text that spells it. -/
theorem not_mem_of_spells {text word : List Char} {c : Char} (hspells : Spells text word)
    (hblank : isBlank c = false) (hword : c.toLower ∉ lower word) : c ∉ text := by
  obtain ⟨before, letters, after, rfl, hbefore, hafter, hletters⟩ := hspells
  intro hc
  rw [List.mem_append, List.mem_append] at hc
  obtain (hc | hc) | hc := hc
  · rw [allBlank_iff.mp hbefore c hc] at hblank
    cases hblank
  · exact hword (hletters ▸ List.mem_map_of_mem hc)
  · rw [allBlank_iff.mp hafter c hc] at hblank
    cases hblank

end ChordGrid.Text
