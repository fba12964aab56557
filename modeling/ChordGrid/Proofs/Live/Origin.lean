import ChordGrid.Proofs.Live.Record
import Mathlib.Data.List.Nodup

namespace ChordGrid.Live

def Deed.announced? : Deed → Option Request
  | announced request => some request
  | _ => none

/-- A result is what the load of a generation compiles to. -/
def Built (settings : Settings) (deeds : List Deed) (generation : Nat)
    (result : Except Fault Edition) : Prop :=
  ∃ load, .announced ⟨generation, load⟩ ∈ deeds ∧ load.compile settings = result

/-- What a thread holds comes from the load that its generation was announced with. -/
def Stage.Genuine (settings : Settings) (deeds : List Deed) : Stage → Prop
  | post request => .announced request ∈ deeds
  | compile request _ => .announced request ∈ deeds
  | lock build => Built settings deeds build.generation build.result
  | compare build => Built settings deeds build.generation build.result
  | publish generation edition _ => Built settings deeds generation (.ok edition)
  | report generation fault _ => Built settings deeds generation (.error fault)
  | _ => True

/-- What was done in the name of a generation comes from the load it was announced with. -/
def Deed.Genuine (settings : Settings) (deeds : List Deed) : Deed → Prop
  | posted request replaced =>
    .announced request ∈ deeds ∧ ∀ former ∈ replaced, .announced former ∈ deeds
  | published generation edition => Built settings deeds generation (.ok edition)
  | reported generation fault => Built settings deeds generation (.error fault)
  | _ => True

theorem Built.append {settings : Settings} {deeds : List Deed} {generation : Nat}
    {result : Except Fault Edition} (h : Built settings deeds generation result)
    (more : List Deed) : Built settings (deeds ++ more) generation result := by
  obtain ⟨load, hmem, hresult⟩ := h
  exact ⟨load, List.mem_append_left more hmem, hresult⟩

theorem Stage.Genuine.append {settings : Settings} {deeds : List Deed} {stage : Stage}
    (h : stage.Genuine settings deeds) (more : List Deed) :
    stage.Genuine settings (deeds ++ more) := by
  cases stage with
  | post request => exact List.mem_append_left more h
  | compile request builder => exact List.mem_append_left more h
  | lock build => exact Built.append h more
  | compare build => exact Built.append h more
  | publish generation edition builder => exact Built.append h more
  | report generation fault builder => exact Built.append h more
  | _ => trivial

theorem Deed.Genuine.append {settings : Settings} {deeds : List Deed} {deed : Deed}
    (h : deed.Genuine settings deeds) (more : List Deed) :
    deed.Genuine settings (deeds ++ more) := by
  cases deed with
  | posted request replaced =>
      exact ⟨List.mem_append_left more h.1, fun former hformer =>
        List.mem_append_left more (h.2 former hformer)⟩
  | published generation edition => exact Built.append h more
  | reported generation fault => exact Built.append h more
  | _ => trivial

/-- Every place a generation can be in is genuine. -/
structure Record.Genuine (settings : Settings) (record : Record) : Prop where
  settings_eq : record.desk.settings = settings
  threads : ∀ stage ∈ record.desk.threads, stage.Genuine settings record.deeds
  pending : ∀ request ∈ record.desk.pending, .announced request ∈ record.deeds
  deeds : ∀ deed ∈ record.deeds, deed.Genuine settings record.deeds

section Step

variable {settings : Settings} {desk : Desk} {deeds : List Deed} {stage : Stage}

theorem genuine_next (hsettings : desk.settings = settings)
    (hpending : ∀ request ∈ desk.pending, .announced request ∈ deeds)
    (hstage : stage.Genuine settings deeds) (spawns : Bool) :
    (stage.next spawns desk).Genuine settings (deeds ++ (desk.deed stage).toList) := by
  cases stage with
  | announce call =>
      cases call <;> exact List.mem_append_right deeds (List.mem_singleton_self _)
  | enlist => simp only [Stage.next]; split <;> trivial
  | hire => simp only [Stage.next]; split <;> trivial
  | fetch =>
      simp only [Stage.next]
      split
      · next request hrequest => exact List.mem_append_left _ (hpending request hrequest)
      · trivial
  | compile request builder =>
      exact ⟨request.load, List.mem_append_left _ hstage, by rw [hsettings]⟩
  | lock build =>
      simp only [Stage.next]
      split <;> exact Built.append hstage _
  | compare build =>
      simp only [Stage.next, Desk.verdict]
      split
      · split
        · next edition hresult => exact Built.append (hresult ▸ hstage) _
        · next fault hresult => exact Built.append (hresult ▸ hstage) _
      · trivial
  | unlock published builder => cases builder <;> trivial
  | recheck => simp only [Stage.next]; split <;> trivial
  | reenlist => simp only [Stage.next]; split <;> trivial
  | _ => trivial

theorem genuine_deed (hpending : ∀ request ∈ desk.pending, .announced request ∈ deeds)
    (hstage : stage.Genuine settings deeds) :
    ∀ deed ∈ (desk.deed stage).toList, deed.Genuine settings deeds := by
  intro deed hdeed
  cases stage <;> simp only [Desk.deed, Option.toList_some, Option.toList_none, List.mem_singleton,
    List.not_mem_nil] at hdeed <;> subst hdeed
  case announce => trivial
  case post request => exact ⟨hstage, hpending⟩
  case compare build => split <;> trivial
  case publish generation edition builder => exact hstage
  case report generation fault builder => exact hstage

end Step

variable {settings : Settings} {edition : Edition} {record : Record}

theorem genuine_of_reached (hrecord : record.Reached settings edition) :
    record.Genuine settings := by
  induction hrecord with
  | fresh => constructor <;> simp [Desk.fresh]
  | @enter record call _ ih =>
      refine ⟨ih.settings_eq, ?_, ih.pending, ih.deeds⟩
      intro stage hstage
      obtain hold | hnew := List.mem_append.mp hstage
      · exact ih.threads stage hold
      · rw [List.mem_singleton.mp hnew]
        trivial
  | @step record thread stage spawns _ hstage ih =>
      have hgenuine := ih.threads stage (List.mem_of_getElem? hstage)
      constructor
      · rw [Desk.settings_stepFrom]
        exact ih.settings_eq
      · intro found hfound
        obtain heq | hold | heq := Desk.mem_threads_stepFrom hstage hfound
        · rw [heq]
          exact genuine_next ih.settings_eq ih.pending hgenuine spawns
        · exact (ih.threads found hold).append _
        · rw [heq]
          trivial
      · intro request hrequest
        rw [Desk.pending_stepFrom] at hrequest
        apply List.mem_append_left
        cases stage with
        | post posted => exact Option.mem_some.mp hrequest ▸ hgenuine
        | fetch => cases hrequest
        | _ => exact ih.pending request hrequest
      · intro deed hdeed
        obtain hold | hnew := List.mem_append.mp hdeed
        · exact (ih.deeds deed hold).append _
        · exact (genuine_deed ih.pending hgenuine deed hnew).append _

/-! ### One load for each generation -/

theorem generations_announced (hrecord : record.Reached settings edition) :
    (record.deeds.filterMap Deed.announced?).map Request.generation
      = List.range' 1 record.desk.generation := by
  induction hrecord with
  | fresh => rfl
  | enter call _ ih => exact ih
  | @step record thread stage spawns _ hstage ih =>
      simp only [List.filterMap_append, List.map_append, ih, Desk.generation_stepFrom]
      cases stage with
      | announce call =>
          simp [Desk.deed, Deed.announced?, List.range'_concat, Nat.add_comm]
      | compare build =>
          simp only [Desk.deed]
          split <;> simp [Deed.announced?]
      | _ => simp [Desk.deed, Deed.announced?]

theorem mem_announcements {request : Request} :
    request ∈ record.deeds.filterMap Deed.announced? ↔ .announced request ∈ record.deeds := by
  apply mem_filterMap_deeds
  intro deed announced
  cases deed <;> simp [Deed.announced?]

theorem announced_unique (hrecord : record.Reached settings edition) {a b : Request}
    (ha : .announced a ∈ record.deeds) (hb : .announced b ∈ record.deeds)
    (hgeneration : a.generation = b.generation) : a = b := by
  have hnodup : ((record.deeds.filterMap Deed.announced?).map Request.generation).Nodup := by
    rw [generations_announced hrecord]
    exact List.nodup_range'
  exact List.inj_on_of_nodup_map hnodup (mem_announcements.mpr ha) (mem_announcements.mpr hb)
    hgeneration

theorem pos_of_announced (hrecord : record.Reached settings edition) {request : Request}
    (hrequest : .announced request ∈ record.deeds) : 0 < request.generation := by
  have hmem := List.mem_map_of_mem (f := Request.generation) (mem_announcements.mpr hrequest)
  rw [generations_announced hrecord, List.mem_range'_1] at hmem
  exact hmem.1

/-- The load of a generation; that of generation zero is the first score. -/
def Record.load? (record : Record) (first : Score) (generation : Nat) : Option Load :=
  if generation = 0 then some (.score first)
  else ((record.deeds.filterMap Deed.announced?).find? fun request =>
    request.generation = generation).map Request.load

theorem load?_of_announced (hrecord : record.Reached settings edition) {request : Request}
    (hrequest : .announced request ∈ record.deeds) (first : Score) :
    record.load? first request.generation = some request.load := by
  rw [Record.load?, if_neg (Nat.ne_of_gt (pos_of_announced hrecord hrequest))]
  cases hfound : (record.deeds.filterMap Deed.announced?).find? fun other =>
      other.generation = request.generation with
  | none =>
      have hnot := List.find?_eq_none.mp hfound request (mem_announcements.mpr hrequest)
      simp at hnot
  | some other =>
      have hsame := List.find?_some hfound
      rw [decide_eq_true_eq] at hsame
      have hother := mem_announcements.mp (List.mem_of_find?_eq_some hfound)
      rw [announced_unique hrecord hother hrequest hsame]
      rfl

theorem compile_eq_of_built (hrecord : record.Reached settings edition) {request : Request}
    (hrequest : .announced request ∈ record.deeds) {result : Except Fault Edition}
    (hbuilt : Built settings record.deeds request.generation result) :
    request.load.compile settings = result := by
  obtain ⟨load, hload, hresult⟩ := hbuilt
  rw [announced_unique hrecord hrequest hload rfl]
  exact hresult

end ChordGrid.Live
