import ChordGrid.Proofs.Live.Origin
import ChordGrid.Proofs.Live.Settlement

namespace ChordGrid.Live

def Deed.published? : Deed → Option (Nat × Edition)
  | published generation edition => some (generation, edition)
  | _ => none

/-- The generation whose build a thread is settling. -/
def Stage.settling? : Stage → Option Nat
  | lock build => some build.generation
  | compare build => some build.generation
  | publish generation _ _ => some generation
  | clear generation _ => some generation
  | report generation _ _ => some generation
  | _ => none

namespace Record

/-- The published editions with their generations; the first one counts as generation zero. -/
def editions (record : Record) (first : Edition) : List (Nat × Edition) :=
  (0, first) :: record.deeds.filterMap Deed.published?

end Record

variable {settings : Settings} {edition : Edition} {record : Record}

theorem mem_published {generation : Nat} {published : Edition} :
    (generation, published) ∈ record.deeds.filterMap Deed.published?
      ↔ .published generation published ∈ record.deeds := by
  have hselect : ∀ (deed : Deed) (former : Nat × Edition),
      deed.published? = some former ↔ deed = .published former.1 former.2 := by
    intro deed former
    cases deed <;> simp [Deed.published?, Prod.ext_iff]
  exact mem_filterMap_deeds hselect

theorem published_deed (desk : Desk) (stage : Stage) :
    (∃ generation published builder, stage = .publish generation published builder
        ∧ (desk.deed stage).toList.filterMap Deed.published? = [(generation, published)])
      ∨ ((∀ generation published builder, stage ≠ .publish generation published builder)
        ∧ (desk.deed stage).toList.filterMap Deed.published? = []) := by
  cases stage with
  | publish generation published builder => exact Or.inl ⟨_, _, _, rfl, rfl⟩
  | compare build =>
      right
      simp only [Desk.deed]
      split <;> exact ⟨by simp, rfl⟩
  | _ => exact Or.inr ⟨by simp, rfl⟩

theorem pos_of_upheld (hrecord : record.Reached settings edition) {generation : Nat}
    (hupheld : .upheld generation ∈ record.deeds) : 0 < generation := by
  have hpos : 0 < record.deeds.countP (Deed.upholds generation) :=
    List.countP_pos_iff.mpr ⟨_, hupheld, by simp [Deed.upholds]⟩
  have hplaces := places_eq hrecord generation
  by_contra hzero
  rw [Desk.announced, if_neg fun h => hzero h.1, Record.places, decisions] at hplaces
  omega

/-- **Newer and newer.** A run publishes its generations in increasing order. -/
theorem editions_increasing (hrecord : record.Reached settings edition) (first : Edition) :
    (record.editions first).Pairwise fun older newer => older.1 < newer.1 := by
  induction hrecord with
  | fresh => exact List.pairwise_singleton _ _
  | enter call _ ih => exact ih
  | @step record thread stage spawns hrecord hstage ih =>
      simp only [Record.editions, List.filterMap_append]
      obtain ⟨generation, published, builder, rfl, hnew⟩ | ⟨-, hnone⟩ :=
        published_deed record.desk stage
      · rw [hnew, ← List.cons_append]
        refine List.pairwise_append.mpr ⟨ih, List.pairwise_singleton _ _, ?_⟩
        rintro ⟨older, formerly⟩ hformer newer hnewer
        rw [List.mem_singleton.mp hnewer]
        -- The generation is the last upheld one, and what was published had been upheld before.
        have hspoken := getLast?_upheld hrecord hstage rfl
        obtain hzero | hpublished := List.mem_cons.mp hformer
        · cases hzero
          exact pos_of_upheld hrecord (mem_upheld.mp (List.mem_of_getLast? hspoken))
        · have hdeed := mem_published.mp hpublished
          have hupheld : .upheld older ∈ record.deeds :=
            upheld_of_settles hrecord hdeed (by simp [Deed.settles])
          have hle := le_of_mem_upheld hrecord hstage rfl (mem_upheld.mpr hupheld)
          have hne : (Deed.published older formerly).settles generation = false :=
            not_settles_of_speaks hrecord (List.mem_of_getElem? hstage) (by simp [Stage.speaks])
              hdeed
          simp only [Deed.settles, decide_eq_false_iff_not] at hne
          exact Nat.lt_of_le_of_ne hle hne
      · rw [hnone, List.append_nil]
        exact ih

theorem getLast?_editions (hrecord : record.Reached settings edition) :
    (record.editions edition).getLast?.map Prod.snd = some record.desk.valid.edition := by
  induction hrecord with
  | fresh => rfl
  | enter call _ ih => exact ih
  | @step record thread stage spawns hrecord hstage ih =>
      simp only [Record.editions, List.filterMap_append, Desk.valid_stepFrom]
      obtain ⟨generation, published, builder, rfl, hnew⟩ | ⟨hother, hnone⟩ :=
        published_deed record.desk stage
      · rw [hnew, ← List.cons_append, List.getLast?_append]
        rfl
      · rw [hnone, List.append_nil]
        cases stage with
        | publish generation published builder => exact absurd rfl (hother _ _ _)
        | _ => exact ih

theorem exists_load_of_mem_editions {score : Score}
    (hscore : Edition.compile score settings = .ok edition)
    (hrecord : record.Reached settings edition) {generation : Nat} {published : Edition}
    (hmem : (generation, published) ∈ record.editions edition) :
    ∃ load, record.load? score generation = some load
      ∧ load.compile settings = .ok published := by
  obtain hzero | hpublished := List.mem_cons.mp hmem
  · cases hzero
    exact ⟨.score score, rfl, hscore⟩
  · have hdeed := mem_published.mp hpublished
    obtain ⟨load, hload, hresult⟩ := (genuine_of_reached hrecord).deeds _ hdeed
    exact ⟨load, load?_of_announced hrecord hload score, hresult⟩

/-- A step in settling a generation that is older than an upheld one shows nowhere, and a comparison
ends in dropping the lock. -/
theorem step_of_superseded (hrecord : record.Reached settings edition) {thread : Nat}
    {stage : Stage} (hstage : record.desk.threads[thread]? = some stage) {generation newer : Nat}
    (hsettling : stage.settling? = some generation) (hnewer : newer ∈ record.upheld)
    (hlower : generation < newer) (spawns : Bool) :
    (record.desk.step spawns thread).valid = record.desk.valid
      ∧ (record.desk.step spawns thread).reporter = record.desk.reporter
      ∧ ∀ build, stage = .compare build →
        stage.next spawns record.desk = .unlock false build.builder := by
  simp only [Desk.step, hstage, Desk.valid_stepFrom, Desk.reporter_stepFrom]
  cases hupheld : stage.upheld? with
  | none =>
      cases stage with
      | compare build =>
          have hle := (upheld_increasing hrecord).2 newer hnewer
          have hgeneration : build.generation = generation := Option.some.inj hsettling
          have hne : build.generation ≠ record.desk.generation := by omega
          refine ⟨rfl, rfl, ?_⟩
          intro build' hbuild
          cases hbuild
          simp only [Stage.next, if_neg hne]
      | publish _ _ _ => cases hupheld
      | clear _ _ => cases hupheld
      | report _ _ _ => cases hupheld
      | _ => exact ⟨rfl, rfl, by intro build hbuild; cases hbuild⟩
  | some spoken =>
      have hle := le_of_mem_upheld hrecord hstage hupheld hnewer
      have heq : spoken = generation := by
        cases stage <;> simp_all [Stage.upheld?, Stage.settling?]
      omega

/-- **No stale publication.** Over every run of any number of callers and workers, whatever the
order of their steps: the published generations increase; the valid edition is that of the highest
one, and is what the load of this generation compiles to; and a step in settling a generation that
is lower than one upheld before changes neither the valid edition nor the reporter, and ends a
comparison in dropping the lock. -/
theorem publications_never_stale {score : Score} {settings : Settings} {desk : Desk}
    (hload : Desk.load score settings = .ok desk) (moves : List Move) :
    ((desk.record moves).editions desk.valid.edition).Pairwise
        (fun older newer => older.1 < newer.1)
      ∧ ((desk.record moves).editions desk.valid.edition).getLast?.map Prod.snd
        = some (desk.record moves).desk.valid.edition
      ∧ (∀ generation edition,
        (generation, edition) ∈ (desk.record moves).editions desk.valid.edition →
          ∃ load, (desk.record moves).load? score generation = some load
            ∧ load.compile settings = .ok edition)
      ∧ ∀ spawns thread stage generation newer,
        (desk.record moves).desk.threads[thread]? = some stage →
        stage.settling? = some generation → newer ∈ (desk.record moves).upheld →
        generation < newer →
          ((desk.record moves).desk.step spawns thread).valid = (desk.record moves).desk.valid
            ∧ ((desk.record moves).desk.step spawns thread).reporter
              = (desk.record moves).desk.reporter
            ∧ ∀ build, stage = .compare build →
              stage.next spawns (desk.record moves).desk = .unlock false build.builder := by
  obtain ⟨edition, hcompile, rfl⟩ := Desk.load_eq_ok_iff.mp hload
  have hrecord := reached_record settings edition moves
  refine ⟨editions_increasing hrecord _, getLast?_editions hrecord, ?_, ?_⟩
  · intro generation published hmem
    exact exists_load_of_mem_editions hcompile hrecord hmem
  · intro spawns thread stage generation newer hstage hsettling hnewer hlower
    exact step_of_superseded hrecord hstage hsettling hnewer hlower spawns

/-- Two callers rebuild at once. The second one takes the newer generation and is done before the
first one comes to its comparison. -/
def overtaking : List Move :=
  [.enter (.rebuild (.score (sketch 110))), .enter (.rebuild (.score (sketch 120))),
    .step true 0, .step true 1] ++ List.replicate 6 (.step true 1)
    ++ [.step true 0, .step true 0]

theorem publications_never_stale_overtaking :
    (((Desk.fresh {} ⟨⟨[]⟩, 100, 0⟩).record overtaking).editions ⟨⟨[]⟩, 100, 0⟩).map
        (fun published => (published.1, published.2.tempo)) = [(0, 100), (2, 120)]
      ∧ (((Desk.fresh {} ⟨⟨[]⟩, 100, 0⟩).record overtaking).desk.threads[0]?.bind
        Stage.settling?) = some 1
      ∧ (((Desk.fresh {} ⟨⟨[]⟩, 100, 0⟩).record overtaking).desk.step true 0).valid
        = ((Desk.fresh {} ⟨⟨[]⟩, 100, 0⟩).record overtaking).desk.valid := by
  have hsettling : (((Desk.fresh {} ⟨⟨[]⟩, 100, 0⟩).record overtaking).desk.threads[0]?.bind
      Stage.settling?) = some 1 := by decide +kernel
  refine ⟨by decide +kernel, hsettling, ?_⟩
  obtain ⟨stage, hstage, hone⟩ := Option.bind_eq_some_iff.mp hsettling
  obtain ⟨-, -, -, hsuperseded⟩ := publications_never_stale load_sketch overtaking
  exact (hsuperseded true 0 stage 1 2 hstage hone (by decide +kernel) (by decide)).1

end ChordGrid.Live
