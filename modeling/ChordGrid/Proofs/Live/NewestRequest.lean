import ChordGrid.Proofs.Live.Account
import ChordGrid.Proofs.Live.Origin

/-!
# What becomes of the newest request

When all is quiet, the newest request has been settled unless it was thrown out of the slot. A
request takes its generation in one step and goes into the slot in another, so two callers can come
to the slot in the opposite order of their generations. The older request then replaces the newer
one, is built in its place, and is dismissed for being superseded: nothing of the newest request is
left.

The main result says that this is the only way to lose it. It follows from the account of the
generation: with every thread done and the slot empty, what is left of its one place is a decision,
and the newest generation is never dismissed.
-/

namespace ChordGrid.Live

/-- No call is in progress, no worker is alive, and nothing is pending. -/
def Desk.Quiet (desk : Desk) : Prop :=
  desk.pending = none ∧ ∀ stage ∈ desk.threads, stage.isDone = true

instance (desk : Desk) : Decidable desk.Quiet :=
  inferInstanceAs (Decidable (_ ∧ _))

/-- The result of a request was published or handed to the reporter. -/
def Record.Settled (record : Record) (settings : Settings) (request : Request) : Prop :=
  match request.load.compile settings with
  | .ok edition => .published request.generation edition ∈ record.deeds
  | .error fault => .reported request.generation fault ∈ record.deeds

instance (record : Record) (settings : Settings) (request : Request) :
    Decidable (record.Settled settings request) :=
  match hresult : request.load.compile settings with
  | .ok edition =>
    decidable_of_iff (.published request.generation edition ∈ record.deeds)
      (by rw [Record.Settled, hresult])
  | .error fault =>
    decidable_of_iff (.reported request.generation fault ∈ record.deeds)
      (by rw [Record.Settled, hresult])

/-- A request was thrown out of the slot by an older one. -/
def Record.Overwritten (record : Record) (request : Request) : Prop :=
  ∃ older, .posted older (some request) ∈ record.deeds ∧ older.generation < request.generation

section Quiet

variable {desk : Desk} (hquiet : desk.Quiet)

include hquiet

theorem countP_of_quiet {p : Stage → Bool} (hp : ∀ published, p (.done published) = false) :
    desk.threads.countP p = 0 :=
  countP_threads_of_done hquiet.2 hp

theorem holds_of_quiet (generation : Nat) : desk.holds generation = false := by
  rw [Desk.holds, hquiet.1]
  rfl

end Quiet

variable {settings : Settings} {edition : Edition} {record : Record} {request : Request}

theorem le_of_announced (hrecord : record.Reached settings edition)
    (hrequest : .announced request ∈ record.deeds) :
    request.generation ≤ record.desk.generation := by
  have hmem := List.mem_map_of_mem (f := Request.generation) (mem_announcements.mpr hrequest)
  rw [generations_announced hrecord, List.mem_range'_1] at hmem
  omega

theorem lt_of_dismissed (hrecord : record.Reached settings edition) {generation : Nat}
    (hdismissed : .dismissed generation ∈ record.deeds) :
    generation < record.desk.generation := by
  induction hrecord with
  | fresh => cases hdismissed
  | enter call _ ih => exact ih hdismissed
  | @step record thread stage spawns hrecord hstage ih =>
      have hgrows := Desk.generation_le_stepFrom record.desk thread stage spawns
      obtain hold | hnew := List.mem_append.mp hdismissed
      · exact Nat.lt_of_lt_of_le (ih hold) hgrows
      · cases stage <;> simp only [Desk.deed, Option.toList_some, Option.toList_none,
          List.mem_singleton, List.not_mem_nil, reduceCtorEq] at hnew
        case compare build =>
          have hawaits : (Stage.compare build).awaits build.generation = true := by
            simp [Stage.awaits]
          have hle := (announced_of_awaits hrecord (List.mem_of_getElem? hstage) hawaits).2
          by_cases hnewest : build.generation = record.desk.generation
          · rw [if_pos hnewest] at hnew
            cases hnew
          · rw [if_neg hnewest] at hnew
            cases hnew
            exact Nat.lt_of_lt_of_le (Nat.lt_of_le_of_ne hle hnewest) hgrows

theorem ne_of_posted (hrecord : record.Reached settings edition) {replaced : Request}
    (hposted : .posted request (some replaced) ∈ record.deeds) :
    request.generation ≠ replaced.generation := by
  induction hrecord with
  | fresh => cases hposted
  | enter call _ ih => exact ih hposted
  | @step record thread stage spawns hrecord hstage ih =>
      obtain hold | hnew := List.mem_append.mp hposted
      · exact ih hold
      · cases stage <;> simp only [Desk.deed, Option.toList_some, Option.toList_none,
          List.mem_singleton, List.not_mem_nil, reduceCtorEq] at hnew
        case post poster =>
          rw [Deed.posted.injEq] at hnew
          obtain ⟨rfl, hpending⟩ := hnew
          have hawaits : (Stage.post request).awaits request.generation = true := by
            simp [Stage.awaits]
          have hnot := not_holds_of_awaits hrecord (List.mem_of_getElem? hstage) hawaits
          intro hsame
          rw [Desk.holds, ← hpending, Option.any_some, hsame, decide_eq_false_iff_not] at hnot
          exact hnot rfl
        case compare build => split at hnew <;> cases hnew

theorem settled_iff (hrecord : record.Reached settings edition)
    (hrequest : .announced request ∈ record.deeds) :
    record.Settled settings request
      ↔ 0 < record.deeds.countP (Deed.settles request.generation) := by
  rw [List.countP_pos_iff]
  constructor
  · intro hsettled
    unfold Record.Settled at hsettled
    split at hsettled
    · exact ⟨_, hsettled, by simp [Deed.settles]⟩
    · exact ⟨_, hsettled, by simp [Deed.settles]⟩
  · rintro ⟨deed, hdeed, hsettles⟩
    have hgenuine := (genuine_of_reached hrecord).deeds deed hdeed
    cases deed <;> simp only [Deed.settles, decide_eq_true_eq, Bool.false_eq_true] at hsettles
    case published generation published =>
      subst hsettles
      have hresult := compile_eq_of_built hrecord hrequest hgenuine
      rw [Record.Settled, hresult]
      exact hdeed
    case reported generation fault =>
      subst hsettles
      have hresult := compile_eq_of_built hrecord hrequest hgenuine
      rw [Record.Settled, hresult]
      exact hdeed

/-- The newest request can be thrown out of the slot only by an older one. -/
theorem overwritten_iff (hrecord : record.Reached settings edition)
    (hrequest : .announced request ∈ record.deeds)
    (hnewest : request.generation = record.desk.generation) :
    record.Overwritten request
      ↔ 0 < record.deeds.countP (Deed.displaces request.generation) := by
  rw [List.countP_pos_iff]
  constructor
  · rintro ⟨older, hposted, -⟩
    exact ⟨_, hposted, by simp [Deed.displaces]⟩
  · rintro ⟨deed, hdeed, hdisplaces⟩
    cases deed <;> try cases hdisplaces
    case posted older replaced =>
      cases replaced with
      | none => cases hdisplaces
      | some replaced =>
          obtain ⟨holder, hreplaced⟩ := (genuine_of_reached hrecord).deeds _ hdeed
          have hgeneration : replaced.generation = request.generation := by
            simpa [Deed.displaces] using hdisplaces
          have hsame : replaced = request :=
            announced_unique hrecord (hreplaced replaced rfl) hrequest hgeneration
          subst hsame
          have hle := le_of_announced hrecord holder
          have hne := ne_of_posted hrecord hdeed
          exact ⟨older, hdeed, by omega⟩

/-- **The fate of the newest request.** When all is quiet, the newest request has been published or
reported, unless an older request was put into the slot in its place. -/
theorem newest_request_settled_iff {score : Score} {settings : Settings} {desk : Desk}
    (hload : Desk.load score settings = .ok desk) (moves : List Move) {request : Request}
    (hrequest : .announced request ∈ (desk.record moves).deeds)
    (hnewest : request.generation = (desk.record moves).desk.generation)
    (hquiet : (desk.record moves).desk.Quiet) :
    (desk.record moves).Settled settings request
      ↔ ¬ (desk.record moves).Overwritten request := by
  obtain ⟨edition, -, rfl⟩ := Desk.load_eq_ok_iff.mp hload
  have hrecord := reached_record settings edition moves
  rw [settled_iff hrecord hrequest, overwritten_iff hrecord hrequest hnewest]
  have hplaces := places_eq hrecord request.generation
  have hannounced : 0 < request.generation
      ∧ request.generation ≤ ((Desk.fresh settings edition).record moves).desk.generation :=
    ⟨pos_of_announced hrecord hrequest, Nat.le_of_eq hnewest⟩
  have hdismisses : ((Desk.fresh settings edition).record moves).deeds.countP
      (Deed.dismisses request.generation) = 0 := by
    rw [List.countP_eq_zero]
    intro deed hdeed hdismisses
    cases deed <;> simp only [Deed.dismisses, decide_eq_true_eq, Bool.false_eq_true] at hdismisses
    have hlt := lt_of_dismissed hrecord hdeed
    omega
  have hupholds := upholds_eq hrecord request.generation
  -- Of all its places only the decisions are left, and upheld means settled by now.
  rw [countP_of_quiet hquiet fun _ => rfl] at hupholds
  rw [Record.places, countP_of_quiet hquiet fun _ => rfl, holds_of_quiet hquiet, Desk.announced,
    if_pos hannounced, decisions, hdismisses, Bool.toNat_false] at hplaces
  omega

/-- Two callers leave a request each and take their generations in turn. They come to the slot in
the order given, and one worker goes on until there is nothing left to do. -/
def twoRequests (first second : Nat) : List Move :=
  [.enter (.request (.score (sketch 110))), .enter (.request (.score (sketch 120))),
    .step true 0, .step true 1, .step true first, .step true second, .step true 0, .step true 0,
    .step true 1] ++ List.replicate 10 (.step true 2)

theorem newest_request_settled_in_order :
    ((Desk.fresh {} ⟨⟨[]⟩, 100, 0⟩).record (twoRequests 0 1)).Settled {}
      ⟨2, .score (sketch 120)⟩ := by
  refine (newest_request_settled_iff load_sketch (twoRequests 0 1) ?_ ?_ ?_).mpr ?_
  · decide +kernel
  · decide +kernel
  · decide +kernel
  · rintro ⟨older, hposted, hlt⟩
    have hnone : ∀ deed ∈ ((Desk.fresh {} ⟨⟨[]⟩, 100, 0⟩).record (twoRequests 0 1)).deeds,
        deed.displaces 2 = false := by decide +kernel
    have hdisplaces := hnone _ hposted
    simp [Deed.displaces] at hdisplaces

/-- **A request is lost.** In the opposite order, all comes to rest with the newest request neither
published nor reported, and with the first edition still the valid one. -/
theorem newest_request_lost :
    let desk := Desk.fresh {} ⟨⟨[]⟩, 100, 0⟩
    let record := desk.record (twoRequests 1 0)
    Desk.load (sketch 100) {} = .ok desk
      ∧ .announced ⟨2, .score (sketch 120)⟩ ∈ record.deeds ∧ record.desk.generation = 2
      ∧ record.desk.Quiet ∧ ¬ record.Settled {} ⟨2, .score (sketch 120)⟩
      ∧ record.desk.valid = desk.valid ∧ record.desk.reporter = desk.reporter :=
  ⟨load_sketch, by decide +kernel⟩

end ChordGrid.Live
