import ChordGrid.Grid.Percussion
import ChordGrid.Grid.Pitched
import ChordGrid.Proofs.Checked
import ChordGrid.Proofs.Text.Words
import Mathlib.Data.List.Induction

/-!
# The notation of grids

Both kinds of grid are read in the same way: the frame is cut away, and then a rule passes or
refuses one cell after another, knowing the cell before it. What a grid means is so fixed by its
cells and the rule, and the first refusal is the fault. The two kinds differ in their rules alone.
-/

namespace ChordGrid

open Text

namespace Grid

/-! ### Refusals -/

section Refusal

variable {α : Type} (rule : Option Char → Char → Nat → Option Fault)

/-- A rule refuses none of the characters, each after the one before it and at its place. -/
def Obeys (chars : List Char) : Prop :=
  ∀ front c back, chars = front ++ c :: back → rule front.getLast? c front.length = none

/-- The fault that a rule finds with the first character that it refuses. -/
def FirstRefused (chars : List Char) (fault : Fault) : Prop :=
  ∃ front c back, chars = front ++ c :: back ∧ Obeys rule front
    ∧ rule front.getLast? c front.length = some fault

variable {rule} {done chars : List Char} {c : Char}

theorem obeys_concat_iff :
    Obeys rule (done ++ [c]) ↔ Obeys rule done ∧ rule done.getLast? c done.length = none := by
  constructor
  · intro hobeys
    refine ⟨?_, hobeys done c [] rfl⟩
    rintro front d back rfl
    exact hobeys front d (back ++ [c]) (by simp)
  · rintro ⟨hobeys, hlast⟩ front d back heq
    obtain rfl | ⟨more, e, rfl⟩ := List.eq_nil_or_concat' back
    · obtain ⟨rfl, hsingle⟩ := List.append_inj' heq rfl
      obtain rfl := List.singleton_injective hsingle
      exact hlast
    · rw [← List.cons_append, ← List.append_assoc] at heq
      exact hobeys front d more (List.append_inj' heq rfl).1

theorem not_firstRefused_of_obeys {fault : Fault} (hobeys : Obeys rule chars) :
    ¬ FirstRefused rule chars fault := by
  rintro ⟨front, c, back, rfl, -, hrefused⟩
  rw [hobeys front c back rfl] at hrefused
  cases hrefused

theorem length_le_of_obeys {front back other rest : List Char} {d : Char}
    (heq : front ++ c :: back = other ++ d :: rest) (hother : Obeys rule other)
    (hrefused : rule front.getLast? c front.length ≠ none) : other.length ≤ front.length := by
  by_contra hlonger
  have hfront : front ++ [c] <+: front ++ c :: back := ⟨back, by simp⟩
  have hwhole : other <+: front ++ c :: back := ⟨d :: rest, heq.symm⟩
  have hlength : (front ++ [c]).length ≤ other.length := by
    rw [List.length_append, List.length_singleton]
    omega
  obtain ⟨between, rfl⟩ := List.prefix_of_prefix_length_le hfront hwhole hlength
  exact hrefused (hother front c between (by simp))

theorem FirstRefused.unique {a b : Fault} (ha : FirstRefused rule chars a)
    (hb : FirstRefused rule chars b) : a = b := by
  obtain ⟨front, c, back, rfl, hfront, hrefused⟩ := ha
  obtain ⟨other, d, rest, heq, hother, hagain⟩ := hb
  have hlength : front.length = other.length := by
    apply Nat.le_antisymm
    · exact length_le_of_obeys heq.symm hfront (by simp [hagain])
    · exact length_le_of_obeys heq hother (by simp [hrefused])
  obtain ⟨rfl, htail⟩ := List.append_inj heq hlength
  obtain ⟨rfl, -⟩ := List.cons.inj htail
  exact Option.some.inj (hrefused.symm.trans hagain)

/-! ### Reading by a rule -/

/-- Reads the characters after `before`, the first of them at `index`, as long as the rule passes
them. -/
def readBy (rule : Option Char → Char → Nat → Option Fault) (value : Char → α)
    (before : Option Char) (index : Nat) : List Char → Except Fault (List α)
  | [] => .ok []
  | c :: chars =>
    match rule before c index with
    | some fault => .error fault
    | none => (readBy rule value (some c) (index + 1) chars).map (value c :: ·)

variable {value : Char → α} {values : List α} {fault : Fault}

theorem readBy_eq_ok_iff (hdone : Obeys rule done) :
    readBy rule value done.getLast? done.length chars = .ok values
      ↔ Obeys rule (done ++ chars) ∧ values = chars.map value := by
  induction chars generalizing done values with
  | nil => simp [readBy, hdone, eq_comm]
  | cons c chars ih =>
      rw [readBy]
      cases hrule : rule done.getLast? c done.length with
      | some fault =>
          constructor
          · intro hread
            cases hread
          · rintro ⟨hobeys, -⟩
            rw [hobeys done c chars rfl] at hrule
            cases hrule
      | none =>
          have hrest := @ih (done ++ [c])
          rw [List.getLast?_concat, List.length_append, List.length_singleton, List.append_assoc,
            List.singleton_append] at hrest
          simp only [map_eq_ok_iff, hrest (obeys_concat_iff.mpr ⟨hdone, hrule⟩), List.map_cons]
          constructor
          · rintro ⟨more, ⟨hobeys, rfl⟩, rfl⟩
            exact ⟨hobeys, rfl⟩
          · rintro ⟨hobeys, rfl⟩
            exact ⟨_, ⟨hobeys, rfl⟩, rfl⟩

theorem firstRefused_of_readBy (hdone : Obeys rule done)
    (hread : readBy rule value done.getLast? done.length chars = .error fault) :
    FirstRefused rule (done ++ chars) fault := by
  induction chars generalizing done with
  | nil => cases hread
  | cons c chars ih =>
      rw [readBy] at hread
      cases hrule : rule done.getLast? c done.length with
      | some own =>
          rw [hrule] at hread
          cases hread
          exact ⟨done, c, chars, rfl, hdone, hrule⟩
      | none =>
          have hmore := ih (obeys_concat_iff.mpr ⟨hdone, hrule⟩)
          rw [List.getLast?_concat, List.length_append, List.length_singleton, List.append_assoc,
            List.singleton_append] at hmore
          apply hmore
          rw [hrule] at hread
          cases hrest : readBy rule value (some c) (done.length + 1) chars with
          | error own =>
              rw [hrest] at hread
              cases hread
              rfl
          | ok more =>
              rw [hrest] at hread
              cases hread

theorem obeys_nil : Obeys rule [] := by
  intro front c back heq
  exact absurd heq.symm (List.append_ne_nil_of_right_ne_nil front (List.cons_ne_nil c back))

theorem readBy_eq_error_iff :
    readBy rule value none 0 chars = .error fault ↔ FirstRefused rule chars fault := by
  have hok := @readBy_eq_ok_iff α rule [] chars value
  have herror := @firstRefused_of_readBy α rule [] chars value
  rw [List.getLast?_nil, List.length_nil, List.nil_append] at hok herror
  cases hread : readBy rule value none 0 chars with
  | ok values =>
      have hobeys := ((hok obeys_nil).mp hread).1
      simp [not_firstRefused_of_obeys hobeys]
  | error own =>
      have hown := herror obeys_nil hread
      constructor
      · intro heq
        rwa [← Except.error.inj heq]
      · intro hfirst
        rw [hown.unique hfirst]

end Refusal

/-! ### The frame -/

/-- What stands between the brackets and bars of a text, blank stretches left out. -/
def kept (text : String) : List (List Char) :=
  (text.toList.splitOnP fun c => c = '[' || c = ']' || c = '|').filter fun segment =>
    !allBlank segment

/-- Each segment has four characters, which are counted and not their bytes. -/
def IsFramed (text : String) : Prop :=
  ∀ segment ∈ kept text, segment.length = 4

/-- The fault of a text is its first segment of another length, or else what the rule finds with
the first character that it refuses. -/
def FaultOf (rule : Option Char → Char → Nat → Option Fault) (text : String) (fault : Fault) :
    Prop :=
  (∃ segment, (kept text).find? (fun segment => segment.length ≠ 4) = some segment
      ∧ fault = .segmentLength (String.ofList segment) segment.length)
    ∨ (IsFramed text ∧ FirstRefused rule (kept text).flatten fault)

section Frame

variable {α : Type} {rule : Option Char → Char → Nat → Option Fault} {value : Char → α}
  {text : String} {chars : List Char} {values : List α} {fault : Fault}

theorem segments_eq_kept : segments text.toList = kept text := by
  rw [segments, pieces_eq_splitOnP]
  rfl

theorem misfit?_eq :
    misfit? text.toList = (kept text).find? fun segment => segment.length ≠ 4 := by
  rw [misfit?, segments_eq_kept]
  rfl

theorem cells_eq_ok_iff :
    cells text.toList = .ok chars ↔ IsFramed text ∧ chars = (kept text).flatten := by
  have hframed : misfit? text.toList = none ↔ IsFramed text := by
    simp [misfit?_eq, IsFramed]
  rw [cells, segments_eq_kept, ← hframed]
  cases misfit? text.toList <;> simp [eq_comm]

theorem cells_eq_error_iff :
    cells text.toList = .error fault
      ↔ ∃ segment, (kept text).find? (fun segment => segment.length ≠ 4) = some segment
        ∧ fault = .segmentLength (String.ofList segment) segment.length := by
  rw [cells, ← misfit?_eq]
  cases misfit? text.toList <;> simp [eq_comm]

theorem bind_readBy_eq_ok_iff :
    cells text.toList >>= readBy rule value none 0 = .ok values
      ↔ IsFramed text ∧ Obeys rule (kept text).flatten
        ∧ values = (kept text).flatten.map value := by
  have hread := @readBy_eq_ok_iff α rule [] (kept text).flatten value values obeys_nil
  rw [List.nil_append] at hread
  rw [bind_eq_ok_iff, ← hread]
  simp only [cells_eq_ok_iff]
  constructor
  · rintro ⟨_, ⟨hframed, rfl⟩, hvalues⟩
    exact ⟨hframed, hvalues⟩
  · rintro ⟨hframed, hvalues⟩
    exact ⟨_, ⟨hframed, rfl⟩, hvalues⟩

theorem bind_readBy_eq_error_iff :
    cells text.toList >>= readBy rule value none 0 = .error fault ↔ FaultOf rule text fault := by
  have hread : readBy rule value none 0 (kept text).flatten = .error fault
      ↔ FirstRefused rule (kept text).flatten fault := readBy_eq_error_iff
  rw [FaultOf, ← cells_eq_error_iff, ← hread]
  cases hcells : cells text.toList with
  | error own =>
      have hnot : ¬ IsFramed text := by
        intro hframed
        rw [cells_eq_ok_iff.mpr ⟨hframed, rfl⟩] at hcells
        cases hcells
      simp [hnot, bind, Except.bind]
  | ok chars =>
      obtain ⟨hframed, rfl⟩ := cells_eq_ok_iff.mp hcells
      rw [and_iff_right hframed]
      simp [bind, Except.bind]

end Frame

/-! ### Pitched grids -/

/-- The characters of a pitched grid. -/
def IsCell (c : Char) : Prop :=
  ('1' ≤ c ∧ c ≤ '7') ∨ c = '-' ∨ c = '>'

instance (c : Char) : Decidable (IsCell c) :=
  inferInstanceAs (Decidable (_ ∨ _))

/-- A hold has to follow a cell that can be held, and everything else has to be a cell. -/
def pitchedFault? (before : Option Char) (c : Char) (index : Nat) : Option Fault :=
  if c = '>' ∧ (before = none ∨ before = some '-') then some (.danglingSustain index)
  else if IsCell c then none
  else some (.invalidCell c index .pitched)

end Grid

namespace Cell

theorem ofSymbol?_eq_some_iff {c : Char} {cell : Cell} :
    ofSymbol? c = some cell ↔ c = cell.symbol := by
  constructor
  · intro hcell
    unfold ofSymbol? at hcell
    split at hcell
    · next heq =>
        obtain rfl := Option.some.inj hcell
        exact heq
    · split at hcell
      · next heq =>
          obtain rfl := Option.some.inj hcell
          exact heq
      · split at hcell
        · next hdigit =>
            obtain rfl := Option.some.inj hcell
            have hcode : '1'.toNat + (c.toNat - '1'.toNat) = c.toNat := Nat.add_sub_cancel' hdigit.1
            rw [symbol, hcode, Char.ofNat_toNat]
        · cases hcell
  · rintro rfl
    exact ofSymbol?_symbol cell

theorem ofSymbol?_eq_none_iff {c : Char} : ofSymbol? c = none ↔ ¬ Grid.IsCell c := by
  have hdigit : ('1' ≤ c ∧ c ≤ '7') ↔ ('1'.toNat ≤ c.toNat ∧ c.toNat ≤ '7'.toNat) := by
    rw [Char.le_def, Char.le_def, UInt32.le_iff_toNat_le, UInt32.le_iff_toNat_le]
    rfl
  rw [ofSymbol?, Grid.IsCell, hdigit]
  by_cases hrest : c = '-'
  · rw [if_pos hrest]
    simp [hrest]
  · rw [if_neg hrest]
    by_cases hhold : c = '>'
    · rw [if_pos hhold]
      simp [hhold]
    · rw [if_neg hhold, or_iff_left (not_or.mpr ⟨hrest, hhold⟩)]
      split
      · next hd => exact iff_of_false nofun (not_not_intro hd)
      · next hd => exact iff_of_true rfl hd

theorem isCell_symbol (cell : Cell) : Grid.IsCell cell.symbol := by
  by_contra hnot
  rw [← ofSymbol?_eq_none_iff, ofSymbol?_symbol] at hnot
  cases hnot

theorem symbol_injective : Function.Injective symbol := by
  intro a b hsymbol
  have hagain := congrArg ofSymbol? hsymbol
  rw [ofSymbol?_symbol, ofSymbol?_symbol] at hagain
  exact Option.some.inj hagain

theorem symbol_eq_hold_iff {cell : Cell} : cell.symbol = '>' ↔ cell = hold :=
  symbol_injective.eq_iff (b := hold)

theorem symbol_eq_rest_iff {cell : Cell} : cell.symbol = '-' ↔ cell = rest :=
  symbol_injective.eq_iff (b := rest)

theorem pitchedFault?_symbol {before : Option Char} {cell : Cell} {index : Nat} :
    Grid.pitchedFault? before cell.symbol index
      = if cell = hold ∧ ¬ (before ≠ none ∧ before ≠ some '-') then some (.danglingSustain index)
        else none := by
  have hbefore : ¬ (before ≠ none ∧ before ≠ some '-') ↔ before = none ∨ before = some '-' := by
    rw [not_and_or, not_not, not_not]
  simp only [Grid.pitchedFault?, symbol_eq_hold_iff, isCell_symbol, if_true, hbefore]

theorem readFrom_eq_readBy (before : Option Char) (index : Nat) (chars : List Char) :
    readFrom (decide (before ≠ none ∧ before ≠ some '-')) index chars
      = Grid.readBy Grid.pitchedFault? (fun c => (ofSymbol? c).getD rest) before index chars := by
  induction chars generalizing before index with
  | nil => rfl
  | cons c chars ih =>
      rw [readFrom, Grid.readBy]
      have hnext := ih (some c) (index + 1)
      cases hcell : ofSymbol? c with
      | none =>
          have hc := ofSymbol?_eq_none_iff.mp hcell
          have hhold : c ≠ '>' := by
            rintro rfl
            exact hc (isCell_symbol hold)
          simp [Grid.pitchedFault?, hc, hhold]
      | some cell =>
          obtain rfl := ofSymbol?_eq_some_iff.mp hcell
          rw [pitchedFault?_symbol]
          simp only [ne_eq, reduceCtorEq, not_false_eq_true, true_and, Option.some.injEq,
            symbol_eq_rest_iff] at hnext
          cases cell with
          | step s => simp [← hnext]
          | rest => simp [← hnext]
          | hold =>
              by_cases hsounding : before ≠ none ∧ before ≠ some '-'
              · simp [← hnext, hsounding]
              · simp [hsounding]

/-- In a grid where no hold stands first or after a rest, holds lengthen a step. -/
theorem exists_step_of_hold {cells : List Cell} (hfirst : cells.head? ≠ some hold)
    (hrest : ¬ [rest, hold] <:+: cells) {front back : List Cell}
    (hcells : cells = front ++ hold :: back) :
    ∃ earlier s count, front = earlier ++ step s :: List.replicate count hold := by
  induction front using List.reverseRecOn generalizing back with
  | nil => exact absurd (by rw [hcells]; rfl) hfirst
  | append_singleton front cell ih =>
      rw [List.append_assoc, List.singleton_append] at hcells
      cases cell with
      | step s => exact ⟨front, s, 0, rfl⟩
      | rest => exact absurd ⟨front, back, by simp [hcells]⟩ hrest
      | hold =>
          obtain ⟨earlier, s, count, rfl⟩ := ih hcells
          refine ⟨earlier, s, count + 1, ?_⟩
          rw [List.replicate_succ', List.append_assoc, List.cons_append]

end Cell

namespace Grid

/-- All characters are cells, and no hold stands first or directly after a rest. -/
def IsPitched (chars : List Char) : Prop :=
  (∀ c ∈ chars, IsCell c) ∧ chars.head? ≠ some '>' ∧ ¬ ['-', '>'] <:+: chars

theorem obeys_pitchedFault?_iff {chars : List Char} :
    Obeys pitchedFault? chars ↔ IsPitched chars := by
  have hnone : ∀ before c index, pitchedFault? before c index = none
      ↔ IsCell c ∧ ¬ (c = '>' ∧ (before = none ∨ before = some '-')) := by
    intro before c index
    rw [pitchedFault?]
    by_cases hdangling : c = '>' ∧ (before = none ∨ before = some '-')
    · simp [hdangling]
    · rw [if_neg hdangling]
      by_cases hcell : IsCell c <;> simp [hcell, hdangling]
  simp only [Obeys, hnone, IsPitched]
  constructor
  · intro hobeys
    refine ⟨?_, ?_, ?_⟩
    · intro c hc
      obtain ⟨front, back, heq⟩ := List.append_of_mem hc
      exact (hobeys front c back heq).1
    · intro hfirst
      obtain ⟨back, rfl⟩ := List.head?_eq_some_iff.mp hfirst
      exact (hobeys [] '>' back rfl).2 ⟨rfl, Or.inl rfl⟩
    · rintro ⟨front, back, rfl⟩
      refine (hobeys (front ++ ['-']) '>' back (by simp)).2 ⟨rfl, Or.inr ?_⟩
      rw [List.getLast?_concat]
  · rintro ⟨hcells, hfirst, hrest⟩ front c back rfl
    refine ⟨hcells c (List.mem_append_right front List.mem_cons_self), ?_⟩
    rintro ⟨rfl, hbefore | hbefore⟩
    · obtain rfl := List.getLast?_eq_none_iff.mp hbefore
      exact hfirst rfl
    · obtain ⟨more, rfl⟩ := List.getLast?_eq_some_iff.mp hbefore
      exact hrest ⟨more, back, by simp⟩

theorem pitched_eq (text : String) :
    pitched text
      = cells text.toList
        >>= readBy pitchedFault? (fun c => (Cell.ofSymbol? c).getD .rest) none 0 := by
  rw [pitched]
  congr 1
  funext chars
  exact Cell.readFrom_eq_readBy none 0 chars

theorem map_symbol_eq_iff {chars : List Char} {cells : List Cell} (hchars : ∀ c ∈ chars, IsCell c) :
    cells = chars.map (fun c => (Cell.ofSymbol? c).getD .rest) ↔ cells.map Cell.symbol = chars := by
  constructor
  · rintro rfl
    rw [List.map_map]
    conv_rhs => rw [← List.map_id chars]
    apply List.map_congr_left
    intro c hc
    cases hcell : Cell.ofSymbol? c with
    | none => exact absurd (hchars c hc) (Cell.ofSymbol?_eq_none_iff.mp hcell)
    | some cell => simp [hcell, (Cell.ofSymbol?_eq_some_iff.mp hcell).symm]
  · rintro rfl
    simp [Function.comp_def, Cell.ofSymbol?_symbol]

theorem pitched_eq_ok_iff {text : String} {cells : List Cell} :
    pitched text = .ok cells
      ↔ IsFramed text ∧ IsPitched (kept text).flatten
        ∧ cells.map Cell.symbol = (kept text).flatten := by
  rw [pitched_eq, bind_readBy_eq_ok_iff, obeys_pitchedFault?_iff]
  exact and_congr_right fun _ => and_congr_right fun hpitched => map_symbol_eq_iff hpitched.1

theorem exists_pitched_iff {text : String} :
    (∃ cells, pitched text = .ok cells) ↔ IsFramed text ∧ IsPitched (kept text).flatten := by
  simp only [pitched_eq, bind_readBy_eq_ok_iff, obeys_pitchedFault?_iff]
  simp

theorem exists_step_of_pitched {text : String} {cells front back : List Cell}
    (hread : pitched text = .ok cells) (hcells : cells = front ++ .hold :: back) :
    ∃ earlier s count, front = earlier ++ .step s :: List.replicate count .hold := by
  obtain ⟨-, ⟨-, hfirst, hrest⟩, hsymbols⟩ := pitched_eq_ok_iff.mp hread
  rw [← hsymbols] at hfirst hrest
  refine Cell.exists_step_of_hold ?_ ?_ hcells
  · intro hhead
    apply hfirst
    rw [List.head?_map, hhead]
    rfl
  · intro hpair
    exact hrest (hpair.map Cell.symbol)

/-! ### Percussion grids -/

/-- Everything has to be a hit or a rest. -/
def hitFault? (_ : Option Char) (c : Char) (index : Nat) : Option Fault :=
  if c = 'x' ∨ c = '-' then none else some (.invalidCell c index .drum)

theorem readHits_eq_readBy (before : Option Char) (index : Nat) (chars : List Char) :
    readHits index chars = readBy hitFault? (fun c => decide (c = 'x')) before index chars := by
  induction chars generalizing before index with
  | nil => rfl
  | cons c chars ih =>
      rw [readHits, readBy, hit?, hitFault?, ih (some c)]
      by_cases hhit : c = 'x'
      · simp [hhit]
      · by_cases hrest : c = '-' <;> simp [hhit, hrest]

theorem percussion_eq (text : String) :
    percussion text
      = cells text.toList >>= readBy hitFault? (fun c => decide (c = 'x')) none 0 := by
  rw [percussion]
  congr 1
  funext chars
  exact readHits_eq_readBy none 0 chars

theorem obeys_hitFault?_iff {chars : List Char} :
    Obeys hitFault? chars ↔ ∀ c ∈ chars, c = 'x' ∨ c = '-' := by
  simp only [Obeys, hitFault?]
  constructor
  · intro hobeys c hc
    obtain ⟨front, back, heq⟩ := List.append_of_mem hc
    by_contra hother
    have hnone := hobeys front c back heq
    rw [if_neg hother] at hnone
    cases hnone
  · rintro hall front c back rfl
    rw [if_pos (hall c (List.mem_append_right front List.mem_cons_self))]

theorem percussion_eq_ok_iff {text : String} {hits : List Bool} :
    percussion text = .ok hits
      ↔ IsFramed text ∧ (∀ c ∈ (kept text).flatten, c = 'x' ∨ c = '-')
        ∧ hits = (kept text).flatten.map fun c => decide (c = 'x') := by
  rw [percussion_eq, bind_readBy_eq_ok_iff, obeys_hitFault?_iff]

/-! ### Both kinds -/

/-- **The notation of grids.** A pitched grid is read exactly if its segments have four characters
each, all of them cells, and no hold stands first or directly after a rest. The cells that are read
spell the segments again, in whatever frame these stand, and every hold lengthens a step. A
percussion grid is read exactly if its segments have four characters each, hits and rests. The fault
of any other text is its first segment of another length, or else the first cell that is refused. -/
theorem read_iff_notated (text : String) :
    ((∃ cells, pitched text = .ok cells) ↔ IsFramed text ∧ IsPitched (kept text).flatten)
      ∧ (∀ cells, pitched text = .ok cells →
        cells.map Cell.symbol = (kept text).flatten
          ∧ (∀ other, IsFramed other → (kept other).flatten = (kept text).flatten →
            pitched other = .ok cells)
          ∧ ∀ front back, cells = front ++ .hold :: back →
            ∃ earlier s count, front = earlier ++ .step s :: List.replicate count .hold)
      ∧ (∀ fault, pitched text = .error fault ↔ FaultOf pitchedFault? text fault)
      ∧ (∀ hits, percussion text = .ok hits
        ↔ IsFramed text ∧ (∀ c ∈ (kept text).flatten, c = 'x' ∨ c = '-')
          ∧ hits = (kept text).flatten.map fun c => decide (c = 'x'))
      ∧ ∀ fault, percussion text = .error fault ↔ FaultOf hitFault? text fault := by
  refine ⟨exists_pitched_iff, ?_, ?_, fun hits => percussion_eq_ok_iff, ?_⟩
  · intro cells hread
    obtain ⟨-, hpitched, hsymbols⟩ := pitched_eq_ok_iff.mp hread
    refine ⟨hsymbols, ?_, fun front back => exists_step_of_pitched hread⟩
    intro other hframed hsame
    rw [← hsame] at hpitched hsymbols
    exact pitched_eq_ok_iff.mpr ⟨hframed, hpitched, hsymbols⟩
  · intro fault
    rw [pitched_eq, bind_readBy_eq_error_iff]
  · intro fault
    rw [percussion_eq, bind_readBy_eq_error_iff]

end Grid

end ChordGrid
