import ChordGrid.Proofs.Agreement
import ChordGrid.Proofs.Phrase.Pushing
import ChordGrid.Score.Compile
import Mathlib.Algebra.Order.Ring.Int
import Mathlib.Data.List.Forall2

namespace ChordGrid

/-- Ticks of two resolutions that stand for one time: so many quanta of the one, as many of the
other. -/
def SameTime (r s : Resolution) (tick other : Nat) : Prop :=
  tick * s.quantum = other * r.quantum

namespace SameTime

variable {r s : Resolution} {a b c d : Nat}

theorem quanta (r s : Resolution) (count : Nat) :
    SameTime r s (count * r.quantum) (count * s.quantum) :=
  Nat.mul_right_comm count r.quantum s.quantum

theorem quantum (r s : Resolution) : SameTime r s r.quantum s.quantum :=
  Nat.mul_comm r.quantum s.quantum

theorem zero (r s : Resolution) : SameTime r s 0 0 := by
  rw [SameTime, Nat.zero_mul, Nat.zero_mul]

theorem sixteenths (r s : Resolution) (count : Nat) :
    SameTime r s (r.sixteenth * count) (s.sixteenth * count) := by
  have hquanta := quanta r s (4 * count)
  rwa [Nat.mul_right_comm 4 count r.quantum, Nat.mul_right_comm 4 count s.quantum,
    ← r.sixteenth_eq, ← s.sixteenth_eq] at hquanta

theorem sixteenth (r s : Resolution) : SameTime r s r.sixteenth s.sixteenth := by
  have hone := sixteenths r s 1
  rwa [Nat.mul_one, Nat.mul_one] at hone

theorem cells (r s : Resolution) (count : Nat) :
    SameTime r s (r.ofCells count) (s.ofCells count) := by
  rw [Resolution.ofCells, Resolution.ofCells, Nat.mul_comm, Nat.mul_comm count]
  exact sixteenths r s count

theorem beats (r s : Resolution) (count : Nat) :
    SameTime r s (r.ofBeats count) (s.ofBeats count) := by
  have hquanta := quanta r s (count * 16)
  rwa [Nat.mul_assoc, Nat.mul_assoc, ← r.ticksPerQuarter_eq, ← s.ticksPerQuarter_eq] at hquanta

theorem add (h : SameTime r s a b) (hmore : SameTime r s c d) : SameTime r s (a + c) (b + d) := by
  rw [SameTime] at h hmore ⊢
  calc
    (a + c) * s.quantum = a * s.quantum + c * s.quantum := Nat.add_mul a c s.quantum
    _ = b * r.quantum + d * r.quantum := by rw [h, hmore]
    _ = (b + d) * r.quantum := (Nat.add_mul b d r.quantum).symm

theorem le_iff (h : SameTime r s a b) (hother : SameTime r s c d) : a ≤ c ↔ b ≤ d := by
  rw [SameTime] at h hother
  calc
    a ≤ c ↔ a * s.quantum ≤ c * s.quantum := (Nat.mul_le_mul_right_iff s.quantum_pos).symm
    _ ↔ b * r.quantum ≤ d * r.quantum := by rw [h, hother]
    _ ↔ b ≤ d := Nat.mul_le_mul_right_iff r.quantum_pos

end SameTime

theorem optionRel_map {α β γ δ : Type} {R : α → β → Prop} {S : γ → δ → Prop} {f : α → γ} {g : β → δ}
    {x : Option α} {y : Option β} (h : Option.Rel R x y) (hmap : ∀ a b, R a b → S (f a) (g b)) :
    Option.Rel S (x.map f) (y.map g) := by
  cases h with
  | none => exact .none
  | some hrelated => exact .some (hmap _ _ hrelated)

theorem forall₂_filterMap {α β γ : Type} {R : β → γ → Prop} {f : α → Option β} {g : α → Option γ}
    {things : List α} (h : ∀ thing ∈ things, Option.Rel R (f thing) (g thing)) :
    List.Forall₂ R (things.filterMap f) (things.filterMap g) := by
  induction things with
  | nil => exact .nil
  | cons thing rest ih =>
      have hfirst := h thing List.mem_cons_self
      have hrest := ih fun other hother => h other (List.mem_cons_of_mem thing hother)
      rw [List.filterMap_cons, List.filterMap_cons]
      generalize f thing = left at hfirst
      generalize g thing = right at hfirst
      cases hfirst with
      | none => exact hrest
      | some hrelated => exact .cons hrelated hrest

theorem forall₂_zip_left {α β γ : Type} {R : α → β → Prop} {things : List α} {others : List β}
    (h : List.Forall₂ R things others) (labels : List γ) :
    List.Forall₂ (fun x y : _ × γ => R x.1 y.1 ∧ x.2 = y.2) (things.zip labels)
      (others.zip labels) := by
  induction h generalizing labels with
  | nil => exact .nil
  | cons hfirst _ ih =>
      cases labels with
      | nil => exact .nil
      | cons label labels => exact .cons ⟨hfirst, rfl⟩ (ih labels)

theorem forall₂_with {α β : Type} {R : α → β → Prop} {P : α → Prop} {Q : β → Prop} {things : List α}
    {others : List β} (h : List.Forall₂ R things others) (hthings : ∀ thing ∈ things, P thing)
    (hothers : ∀ other ∈ others, Q other) :
    List.Forall₂ (fun a b => R a b ∧ P a ∧ Q b) things others := by
  obtain ⟨hlength, hpairs⟩ := List.forall₂_iff_zip.mp h
  refine List.forall₂_iff_zip.mpr ⟨hlength, ?_⟩
  intro a b hmem
  obtain ⟨ha, hb⟩ := List.of_mem_zip hmem
  exact ⟨hpairs hmem, hthings a ha, hothers b hb⟩

/-! ### Placements -/

structure Note.Alike (r s : Resolution) (a b : Note) : Prop where
  tick : SameTime r s a.tick b.tick
  pitch : a.pitch = b.pitch
  gate : SameTime r s a.gate b.gate
  velocity : a.velocity = b.velocity

/-- One pattern at one time at two resolutions, neither of which takes it beyond the last tick. -/
structure Placement.Alike (r s : Resolution) (a b : Placement) : Prop where
  left : a.resolution = r
  right : b.resolution = s
  position : SameTime r s a.position b.position
  tonality : a.tonality = b.tonality
  pattern : a.pattern = b.pattern
  velocity : a.velocity = b.velocity
  left_ends : a.position + r.ofCells a.pattern.cellCount ≤ lastTick
  right_ends : b.position + s.ofCells b.pattern.cellCount ≤ lastTick

/-- A cell is at one time at both resolutions, or before tick zero at both. -/
theorem Placement.cellTick_alike {a b : Placement} {origin other : Int}
    (horigin : origin * b.resolution.quantum = other * a.resolution.quantum) {index : Nat}
    (hleft : origin + (a.resolution.sixteenth * index : Nat) ≤ lastTick)
    (hright : other + (b.resolution.sixteenth * index : Nat) ≤ lastTick) :
    Option.Rel (SameTime a.resolution b.resolution) (a.cellTick origin index)
      (b.cellTick other index) := by
  have hcells : (a.resolution.sixteenth * index : Nat) * (b.resolution.quantum : Int)
      = (b.resolution.sixteenth * index : Nat) * (a.resolution.quantum : Int) :=
    congrArg Int.ofNat (SameTime.sixteenths a.resolution b.resolution index)
  unfold cellTick
  dsimp only
  generalize hx : origin + (a.resolution.sixteenth * index : Nat) = x at hleft ⊢
  generalize hy : other + (b.resolution.sixteenth * index : Nat) = y at hright ⊢
  have htime : x * b.resolution.quantum = y * a.resolution.quantum := by
    rw [← hx, ← hy, Int.add_mul, Int.add_mul, horigin, hcells]
  have hpos : (0 : Int) < a.resolution.quantum ∧ (0 : Int) < b.resolution.quantum :=
    ⟨Int.natCast_pos.mpr a.resolution.quantum_pos, Int.natCast_pos.mpr b.resolution.quantum_pos⟩
  -- One time has one sign, whatever the quantum.
  by_cases hbefore : 0 ≤ x
  · have hother : 0 ≤ y := by
      have hprod : 0 ≤ y * a.resolution.quantum := htime ▸ Int.mul_nonneg hbefore hpos.2.le
      exact nonneg_of_mul_nonneg_left hprod hpos.1
    rw [if_pos ⟨hbefore, hleft⟩, if_pos ⟨hother, hright⟩]
    obtain ⟨n, rfl⟩ := Int.eq_ofNat_of_zero_le hbefore
    obtain ⟨m, rfl⟩ := Int.eq_ofNat_of_zero_le hother
    exact .some (Int.ofNat.inj htime)
  · have hother : ¬ 0 ≤ y := by
      intro hy
      have hprod : 0 ≤ x * b.resolution.quantum := htime ▸ Int.mul_nonneg hy hpos.1.le
      exact hbefore (nonneg_of_mul_nonneg_left hprod hpos.2)
    rw [if_neg fun h => hbefore h.1, if_neg fun h => hother h.1]
    exact .none

/-! ### Grids -/

variable {r s : Resolution} {a b : Placement}

theorem Placement.Alike.cellTick (h : Placement.Alike r s a b) {index : Nat}
    (hindex : index < a.pattern.cellCount) :
    Option.Rel (SameTime r s) (a.cellTick a.position index) (b.cellTick b.position index) := by
  obtain ⟨rfl, rfl, hposition, -, hpattern, -, hleft, hright⟩ := h
  have hcells : ∀ t : Resolution, t.sixteenth * index ≤ t.ofCells a.pattern.cellCount := by
    intro t
    rw [Resolution.ofCells, Nat.mul_comm]
    exact Nat.mul_le_mul_right t.sixteenth (Nat.le_of_lt hindex)
  have hfirst := hcells a.resolution
  have hsecond := hcells b.resolution
  rw [← hpattern] at hright
  exact cellTick_alike (congrArg Int.ofNat hposition) (by omega) (by omega)

theorem PercussionLine.notes_alike (line : PercussionLine) (h : Placement.Alike r s a b) :
    List.Forall₂ (Note.Alike r s) (line.notes a) (line.notes b) := by
  rw [notes, notes, ← h.pattern]
  refine forall₂_filterMap ?_
  rintro ⟨hit, index⟩ hmem
  have hindex : index < a.pattern.cellCount := by
    obtain ⟨-, hlt, -⟩ := List.mem_zipIdx hmem
    have hle := List.length_take_le a.pattern.cellCount line.hits
    omega
  cases hit with
  | false => exact .none
  | true =>
      have htick := h.cellTick hindex
      obtain ⟨rfl, rfl, -, -, -, hvelocity, -, -⟩ := h
      refine optionRel_map htick ?_
      intro tick other htime
      exact ⟨htime, rfl, SameTime.sixteenth a.resolution b.resolution, hvelocity⟩

/-- A grid at one time at two resolutions, none of whose steps starts beyond the last tick. -/
structure Strip.Alike (r s : Resolution) (a b : Strip) : Prop where
  cells : a.cells = b.cells
  limit : a.limit = b.limit
  chord : a.chord = b.chord
  origin : a.origin * s.quantum = b.origin * r.quantum
  left_starts : ∀ step index, (Cell.step step, index) ∈ (a.cells.take a.limit).zipIdx →
    a.origin + (r.sixteenth * index : Nat) ≤ lastTick
  right_starts : ∀ step index, (Cell.step step, index) ∈ (b.cells.take b.limit).zipIdx →
    b.origin + (s.sixteenth * index : Nat) ≤ lastTick

theorem Strip.notes_alike {strip other : Strip} (hstrip : Strip.Alike r s strip other)
    (h : Placement.Alike r s a b) (interval : Int) :
    Agree (List.Forall₂ (Note.Alike r s)) (strip.notes a interval) (other.notes b interval) := by
  obtain ⟨cells, origin, limit, chord⟩ := strip
  obtain ⟨_, otherOrigin, _, _⟩ := other
  obtain ⟨rfl, rfl, rfl, horigin, hleft, hright⟩ := hstrip
  have hattacks : List.Forall₂
      (fun x y : Step × Nat × Nat => x.1 = y.1 ∧ x.2.1 = y.2.1 ∧ SameTime r s x.2.2 y.2.2)
      (attacks ⟨cells, origin, limit, chord⟩ a) (attacks ⟨cells, otherOrigin, limit, chord⟩ b) := by
    refine forall₂_filterMap ?_
    rintro ⟨cell, index⟩ hmem
    cases cell with
    | rest => exact .none
    | hold => exact .none
    | step step =>
        have hfirst := hleft step index hmem
        have hsecond := hright step index hmem
        obtain ⟨rfl, rfl, -⟩ := h
        refine optionRel_map (Placement.cellTick_alike horigin hfirst hsecond) ?_
        intro tick other htime
        exact ⟨rfl, rfl, htime⟩
  refine Agree.mapM hattacks ?_
  rintro ⟨step, index, tick⟩ ⟨_, _, other⟩ ⟨rfl, rfl, htime⟩
  obtain ⟨rfl, rfl, -, htonality, -, hvelocity, -, -⟩ := h
  rw [note, note, ← htonality]
  refine (Agree.same _).bind ?_
  rintro pitch _ rfl
  exact .ok ⟨htime, rfl, SameTime.cells _ _ _, hvelocity⟩

/-! ### Phrases -/

def Cell.isStep : Cell → Bool
  | step _ => true
  | _ => false

/-- No step of a tail that begins at a tick starts beyond the last tick. -/
def PitchedLine.TailFits (r : Resolution) (start : Nat) (line : PitchedLine) : Prop :=
  ∀ placed ∈ line.tail.zipIdx, placed.1.isStep = true →
    start + r.sixteenth * placed.2 ≤ lastTick

instance (r : Resolution) (start : Nat) : DecidablePred (PitchedLine.TailFits r start) :=
  fun line => inferInstanceAs (Decidable (∀ placed ∈ line.tail.zipIdx, _ → _))

def Content.TailsFit (r : Resolution) (start : Nat) : Content → Prop
  | drum _ => True
  | pad lines => ∀ line ∈ lines, line.TailFits r start
  | bass line => line.TailFits r start
  | seque _ => True

instance (r : Resolution) (start : Nat) : DecidablePred (Content.TailsFit r start)
  | .drum _ => inferInstanceAs (Decidable True)
  | .pad lines => inferInstanceAs (Decidable (∀ line ∈ lines, line.TailFits r start))
  | .bass line => inferInstanceAs (Decidable (line.TailFits r start))
  | .seque _ => inferInstanceAs (Decidable True)

theorem Content.tailsFit_notes (content : Content) (place : Placement) (start : Nat) :
    (content.notes place).2.TailsFit r start ↔ content.TailsFit r start := by
  cases content <;> rfl

namespace PitchedLine

variable (line : PitchedLine)

theorem pickupStrip_alike (h : Placement.Alike r s a b) :
    Strip.Alike r s (line.pickupStrip a) (line.pickupStrip b) := by
  obtain ⟨rfl, rfl, hposition, -, hpattern, -, hleft, hright⟩ := h
  have hstarts : ∀ (place : Placement), place.position ≤ lastTick →
      ∀ step index, (Cell.step step, index) ∈ (line.pickup.take line.pickup.length).zipIdx →
        (place.position : Int) - (place.resolution.ofCells line.pickup.length : Nat)
          + (place.resolution.sixteenth * index : Nat) ≤ lastTick := by
    intro place hplace step index hmem
    obtain ⟨-, hlt, -⟩ := List.mem_zipIdx hmem
    rw [List.take_length] at hlt
    have hbefore : place.resolution.sixteenth * index
        ≤ place.resolution.ofCells line.pickup.length := by
      rw [Resolution.ofCells, Nat.mul_comm]
      exact Nat.mul_le_mul_right _ (by omega)
    omega
  refine ⟨rfl, rfl, ?_, ?_, hstarts a (by omega), hstarts b (by omega)⟩
  · simp only [pickupStrip, hpattern]
  · have hcells : ((a.resolution.ofCells line.pickup.length : Nat) : Int) * b.resolution.quantum
        = (b.resolution.ofCells line.pickup.length : Nat) * a.resolution.quantum :=
      congrArg Int.ofNat (SameTime.cells a.resolution b.resolution line.pickup.length)
    have htime : (a.position : Int) * b.resolution.quantum = b.position * a.resolution.quantum :=
      congrArg Int.ofNat hposition
    simp only [pickupStrip]
    rw [Int.sub_mul, Int.sub_mul, htime, hcells]

theorem mainStrip_alike (h : Placement.Alike r s a b) :
    Strip.Alike r s (line.mainStrip a) (line.mainStrip b) := by
  obtain ⟨rfl, rfl, hposition, -, hpattern, -, hleft, hright⟩ := h
  have hstarts : ∀ (place : Placement),
      place.position + place.resolution.ofCells place.pattern.cellCount ≤ lastTick →
      ∀ step index, (Cell.step step, index) ∈ (line.cells.take place.pattern.cellCount).zipIdx →
        (place.position : Int) + (place.resolution.sixteenth * index : Nat) ≤ lastTick := by
    intro place hplace step index hmem
    obtain ⟨-, hlt, -⟩ := List.mem_zipIdx hmem
    have hle := List.length_take_le place.pattern.cellCount line.cells
    have hbefore : place.resolution.sixteenth * index
        ≤ place.resolution.ofCells place.pattern.cellCount := by
      rw [Resolution.ofCells, Nat.mul_comm]
      exact Nat.mul_le_mul_right _ (by omega)
    omega
  refine ⟨rfl, ?_, ?_, congrArg Int.ofNat hposition, hstarts a hleft, hstarts b hright⟩
  · simp only [mainStrip, hpattern]
  · simp only [mainStrip, hpattern]

theorem tailStrip_alike (h : Placement.Alike r s a b)
    (hleft : line.TailFits r (a.position + r.ofCells a.pattern.cellCount))
    (hright : line.TailFits s (b.position + s.ofCells b.pattern.cellCount)) :
    Strip.Alike r s (line.tailStrip a) (line.tailStrip b) := by
  obtain ⟨rfl, rfl, hposition, -, hpattern, -, -, -⟩ := h
  have hstarts : ∀ (place : Placement),
      line.TailFits place.resolution
        (place.position + place.resolution.ofCells place.pattern.cellCount) →
      ∀ step index, (Cell.step step, index) ∈ (line.tail.take line.tail.length).zipIdx →
        (place.position : Int) + (place.resolution.ofCells place.pattern.cellCount : Nat)
          + (place.resolution.sixteenth * index : Nat) ≤ lastTick := by
    intro place hplace step index hmem
    rw [List.take_length] at hmem
    have := hplace (.step step, index) hmem rfl
    dsimp only at this
    omega
  refine ⟨rfl, rfl, ?_, ?_, hstarts a hleft, hstarts b hright⟩
  · simp only [tailStrip, hpattern]
  · have hends : (_ + _) * _ = (_ + _) * _ :=
      hposition.add (SameTime.cells a.resolution b.resolution a.pattern.cellCount)
    simp only [tailStrip, ← hpattern]
    exact_mod_cast hends

theorem notes_alike (h : Placement.Alike r s a b)
    (hleft : line.TailFits r (a.position + r.ofCells a.pattern.cellCount))
    (hright : line.TailFits s (b.position + s.ofCells b.pattern.cellCount)) :
    Agree (List.Forall₂ (Note.Alike r s)) (line.notes a) (line.notes b) := by
  refine (Strip.notes_alike (line.pickupStrip_alike h) h line.interval).bind ?_
  intro pickup pickup' hpickup
  refine (Strip.notes_alike (line.mainStrip_alike h) h line.interval).bind ?_
  intro main main' hmain
  refine (Strip.notes_alike (line.tailStrip_alike h hleft hright) h line.interval).bind ?_
  intro tail tail' htail
  exact .ok (List.rel_append (List.rel_append hpickup hmain) htail)

end PitchedLine

/-- A generator is drawn from as often at both resolutions, and so makes the same draws. -/
theorem Generator.notes_alike (g : Generator) (h : Placement.Alike r s a b) :
    Agree (List.Forall₂ (Note.Alike r s)) (g.notes a).1 (g.notes b).1
      ∧ (g.notes a).2 = (g.notes b).2 := by
  have hslots : List.Forall₂ (fun x y : Nat × Nat => x.1 = y.1 ∧ SameTime r s x.2 y.2)
      (slots a) (slots b) := by
    rw [slots, slots, ← h.pattern]
    refine forall₂_filterMap ?_
    intro index hindex
    refine optionRel_map (h.cellTick (List.mem_range.mp hindex)) ?_
    intro tick other htime
    exact ⟨rfl, htime⟩
  -- As many cells at both, so as many draws from the same state.
  simp only [notes, ← hslots.length_eq]
  split
  · exact ⟨.error _, rfl⟩
  · next steps after _ =>
      refine ⟨Agree.mapM (forall₂_zip_left hslots steps) ?_, rfl⟩
      rintro ⟨⟨index, tick⟩, step⟩ ⟨⟨_, other⟩, _⟩ ⟨⟨rfl, htime⟩, rfl⟩
      obtain ⟨rfl, rfl, -, htonality, hpattern, hvelocity, -, -⟩ := h
      rw [slotNote, slotNote, ← htonality, ← hpattern]
      refine (Agree.same _).bind ?_
      rintro pitch _ rfl
      exact .ok ⟨htime, rfl, SameTime.quantum _ _, hvelocity⟩

theorem Content.notes_alike (content : Content) (h : Placement.Alike r s a b)
    (hleft : content.TailsFit r (a.position + r.ofCells a.pattern.cellCount))
    (hright : content.TailsFit s (b.position + s.ofCells b.pattern.cellCount)) :
    Agree (List.Forall₂ (Note.Alike r s)) (content.notes a).1 (content.notes b).1
      ∧ (content.notes a).2 = (content.notes b).2 := by
  cases content with
  | drum lines =>
      refine ⟨.ok ?_, rfl⟩
      refine List.rel_flatMap (List.forall₂_same.mpr fun line _ => Eq.refl line) ?_
      rintro line _ rfl
      exact line.notes_alike h
  | pad lines =>
      have hvoices := Agree.mapM_same fun line (hline : line ∈ lines) =>
        line.notes_alike h (hleft line hline) (hright line hline)
      exact ⟨hvoices.map fun _ _ hlists => List.rel_flatten hlists, rfl⟩
  | bass line => exact ⟨line.notes_alike h hleft hright, rfl⟩
  | seque generator =>
      obtain ⟨hmade, hafter⟩ := generator.notes_alike h
      exact ⟨hmade, congrArg seque hafter⟩

end ChordGrid
