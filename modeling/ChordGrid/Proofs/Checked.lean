import ChordGrid.Sweep
import Mathlib.Data.List.Forall2

namespace ChordGrid

variable {ε α β : Type}

theorem bind_eq_ok_iff {x : Except ε α} {f : α → Except ε β} {b : β} :
    x >>= f = .ok b ↔ ∃ a, x = .ok a ∧ f a = .ok b := by
  cases x with
  | error failure => simp [bind, Except.bind]
  | ok a => simp [bind, Except.bind]

theorem map_eq_ok_iff {x : Except ε α} {f : α → β} {b : β} :
    x.map f = .ok b ↔ ∃ a, x = .ok a ∧ f a = b := by
  cases x with
  | error failure => simp [Except.map]
  | ok a => simp [Except.map]

theorem eq_ok_of_toOption {x : Except ε α} {a : α} (h : x.toOption = some a) : x = .ok a := by
  cases x with
  | error failure => cases h
  | ok b => exact congrArg Except.ok (Option.some.inj h)

theorem exists_ok_of_any {x : Except ε α} {P : α → Bool} (h : x.toOption.any P = true) :
    ∃ a, x = .ok a ∧ P a = true := by
  cases x with
  | error failure => cases h
  | ok a => exact ⟨a, rfl, h⟩

theorem exists_ok_of_isSome {x : Except ε α} (h : x.toOption.isSome = true) : ∃ a, x = .ok a := by
  cases x with
  | error failure => cases h
  | ok a => exact ⟨a, rfl⟩

theorem mapM_eq_ok_iff {f : α → Except ε β} {things : List α} {results : List β} :
    things.mapM f = .ok results
      ↔ List.Forall₂ (fun thing result => f thing = .ok result) things results := by
  induction things generalizing results with
  | nil => simp [pure, Except.pure, eq_comm]
  | cons thing rest ih =>
      rw [List.mapM_cons, bind_eq_ok_iff, List.forall₂_cons_left_iff]
      constructor
      · rintro ⟨result, hresult, hrest⟩
        obtain ⟨more, hmore, heq⟩ := bind_eq_ok_iff.mp hrest
        exact ⟨result, more, hresult, ih.mp hmore, (Except.ok.inj heq).symm⟩
      · rintro ⟨result, more, hresult, hmore, rfl⟩
        exact ⟨result, hresult, bind_eq_ok_iff.mpr ⟨more, ih.mpr hmore, rfl⟩⟩

theorem exists_of_mem_right {R : α → β → Prop} {things : List α} {results : List β}
    (h : List.Forall₂ R things results) {result : β} (hmem : result ∈ results) :
    ∃ thing ∈ things, R thing result := by
  induction h with
  | nil => cases hmem
  | @cons thing first rest more hfirst _ ih =>
      obtain rfl | hmore := List.mem_cons.mp hmem
      · exact ⟨thing, List.mem_cons_self, hfirst⟩
      · obtain ⟨found, hfound, hrelated⟩ := ih hmore
        exact ⟨found, List.mem_cons_of_mem thing hfound, hrelated⟩

theorem exists_of_mem_left {R : α → β → Prop} {things : List α} {results : List β}
    (h : List.Forall₂ R things results) {thing : α} (hmem : thing ∈ things) :
    ∃ result ∈ results, R thing result :=
  exists_of_mem_right (List.Forall₂.flip h) hmem

theorem exists_mem_iff {P : α → Prop} {Q : β → Prop} {things : List α} {results : List β}
    (h : List.Forall₂ (fun thing result => P thing ↔ Q result) things results) :
    (∃ thing ∈ things, P thing) ↔ ∃ result ∈ results, Q result := by
  constructor
  · intro hthing
    obtain ⟨thing, hmem, hthing⟩ := hthing
    obtain ⟨result, hresult, hiff⟩ := exists_of_mem_left h hmem
    exact ⟨result, hresult, hiff.mp hthing⟩
  · intro hresult
    obtain ⟨result, hmem, hresult⟩ := hresult
    obtain ⟨thing, hthing, hiff⟩ := exists_of_mem_right h hmem
    exact ⟨thing, hthing, hiff.mpr hresult⟩

theorem exists_forall₂ {R : α → β → Prop} {things : List α} (h : ∀ thing ∈ things, ∃ b, R thing b) :
    ∃ results, List.Forall₂ R things results := by
  induction things with
  | nil => exact ⟨[], .nil⟩
  | cons thing rest ih =>
      obtain ⟨result, hresult⟩ := h thing List.mem_cons_self
      obtain ⟨more, hmore⟩ := ih fun other hother => h other (List.mem_cons_of_mem thing hother)
      exact ⟨result :: more, .cons hresult hmore⟩

theorem exists_forall₂_and_forall₂ {γ : Type} {R : α → β → Prop} {S : β → γ → Prop}
    {things : List α} {results : List γ}
    (h : List.Forall₂ (fun thing result => ∃ b, R thing b ∧ S b result) things results) :
    ∃ between, List.Forall₂ R things between ∧ List.Forall₂ S between results := by
  induction h with
  | nil => exact ⟨[], .nil, .nil⟩
  | cons hfirst _ ih =>
      obtain ⟨b, hleft, hright⟩ := hfirst
      obtain ⟨between, hbefore, hafter⟩ := ih
      exact ⟨b :: between, .cons hleft hbefore, .cons hright hafter⟩

/-- Lists that are related place by place in two steps are related through something between. -/
theorem forall₂_comp {γ : Type} {R : α → β → Prop} {S : β → γ → Prop} {things : List α}
    {between : List β} {results : List γ} (hbefore : List.Forall₂ R things between)
    (hafter : List.Forall₂ S between results) :
    List.Forall₂ (fun thing result => ∃ b, R thing b ∧ S b result) things results := by
  induction hbefore generalizing results with
  | nil =>
      cases hafter
      exact .nil
  | cons hfirst _ ih =>
      cases hafter with
      | cons hsecond hrest => exact .cons ⟨_, hfirst, hsecond⟩ (ih hrest)

/-! ### Sweeps -/

section Sweep

variable {act : α → Except ε β × α}

theorem sweep_fst (things : List α) :
    (sweep act things).1 = things.mapM fun thing => (act thing).1 := by
  induction things with
  | nil => rfl
  | cons thing rest ih =>
      rw [sweep, List.mapM_cons, ← ih]
      cases act thing with
      | mk outcome after =>
          cases outcome with
          | error failure => rfl
          | ok result =>
              cases sweep act rest with
              | mk outcome after => cases outcome <;> rfl

/-- A sweep succeeds with the results of its acts. -/
theorem sweep_eq_ok_iff {things : List α} {results : List β} :
    (sweep act things).1 = .ok results
      ↔ List.Forall₂ (fun thing result => (act thing).1 = .ok result) things results := by
  induction things generalizing results with
  | nil => simp [sweep, eq_comm]
  | cons thing rest ih =>
      rw [List.forall₂_cons_left_iff]
      cases hact : act thing with
      | mk outcome after =>
          cases outcome with
          | error failure => simp [sweep, hact]
          | ok result =>
              simp only [sweep, hact, map_eq_ok_iff, ih, Except.ok.injEq]
              constructor
              · rintro ⟨more, hmore, rfl⟩
                exact ⟨result, more, rfl, hmore, rfl⟩
              · rintro ⟨_, more, rfl, hmore, rfl⟩
                exact ⟨more, hmore, rfl⟩

theorem forall_sweep_snd {P : α → Prop} (hact : ∀ thing, P thing → P (act thing).2)
    {things : List α} (hthings : ∀ thing ∈ things, P thing) :
    ∀ thing ∈ (sweep act things).2, P thing := by
  induction things with
  | nil => exact hthings
  | cons thing rest ih =>
      obtain ⟨hfirst, hrest⟩ := List.forall_mem_cons.mp hthings
      have hafter := hact thing hfirst
      rw [sweep]
      cases hstep : act thing with
      | mk outcome after =>
          rw [hstep] at hafter
          cases outcome with
          | error failure => exact List.forall_mem_cons.mpr ⟨hafter, hrest⟩
          | ok result => exact List.forall_mem_cons.mpr ⟨hafter, ih hrest⟩

theorem forall₂_sweep_snd {R : α → α → Prop} (hrefl : ∀ thing, R thing thing)
    (hact : ∀ thing, R thing (act thing).2) (things : List α) :
    List.Forall₂ R things (sweep act things).2 := by
  induction things with
  | nil => exact .nil
  | cons thing rest ih =>
      have hfirst := hact thing
      rw [sweep]
      cases hstep : act thing with
      | mk outcome after =>
          rw [hstep] at hfirst
          cases outcome with
          | error failure => exact .cons hfirst (List.forall₂_same.mpr fun other _ => hrefl other)
          | ok result => exact .cons hfirst ih

theorem forall₂_sweep_of_ok {γ δ : Type} {act' : γ → Except ε δ × γ} {R : α → γ → Prop}
    {S : β → δ → Prop}
    (hact : ∀ a c, R a c → ∀ b d, (act a).1 = .ok b → (act' c).1 = .ok d →
      S b d ∧ R (act a).2 (act' c).2)
    {things : List α} {others : List γ} (hthings : List.Forall₂ R things others)
    {results : List β} {answers : List δ} (hresults : (sweep act things).1 = .ok results)
    (hanswers : (sweep act' others).1 = .ok answers) :
    List.Forall₂ S results answers
      ∧ List.Forall₂ R (sweep act things).2 (sweep act' others).2 := by
  induction hthings generalizing results answers with
  | nil =>
      cases hresults
      cases hanswers
      exact ⟨.nil, .nil⟩
  | @cons thing other rest more hfirst _ ih =>
      have hstep := hact thing other hfirst
      rw [sweep] at hresults hanswers ⊢
      rw [sweep]
      cases hleft : act thing with
      | mk outcome after =>
          cases hright : act' other with
          | mk outcome' after' =>
              rw [hleft] at hresults hstep
              rw [hright] at hanswers hstep
              cases outcome with
              | error failure => cases hresults
              | ok result =>
                  cases outcome' with
                  | error failure => cases hanswers
                  | ok answer =>
                      obtain ⟨left, hleft, rfl⟩ := map_eq_ok_iff.mp hresults
                      obtain ⟨right, hright, rfl⟩ := map_eq_ok_iff.mp hanswers
                      obtain ⟨hmade, hafter⟩ := hstep result answer rfl rfl
                      obtain ⟨hmore, hrest⟩ := ih hleft hright
                      exact ⟨.cons hmade hmore, .cons hafter hrest⟩

end Sweep

end ChordGrid
