import ChordGrid.Proofs.Checked

namespace ChordGrid

variable {ε α β γ δ : Type}

/-- Both computations fail, and alike, or both succeed, and the relation holds of their results. -/
inductive Agree (R : α → β → Prop) : Except ε α → Except ε β → Prop
  | error (failure : ε) : Agree R (.error failure) (.error failure)
  | ok {a : α} {b : β} (h : R a b) : Agree R (.ok a) (.ok b)

namespace Agree

variable {R : α → β → Prop} {S : γ → δ → Prop} {x : Except ε α} {y : Except ε β}

theorem same (x : Except ε α) : Agree Eq x x := by
  cases x with
  | error failure => exact .error failure
  | ok a => exact .ok rfl

theorem eq {x x' : Except ε α} (h : Agree Eq x x') : x = x' := by
  cases h with
  | error failure => rfl
  | ok heq => rw [heq]

theorem exists_ok {a : α} (h : Agree R x y) (hx : x = .ok a) : ∃ b, y = .ok b ∧ R a b := by
  subst hx
  cases h with
  | ok hrelated => exact ⟨_, rfl, hrelated⟩

theorem cases_iff : Agree R x y
    ↔ (∃ failure, x = .error failure ∧ y = .error failure)
      ∨ ∃ a b, x = .ok a ∧ y = .ok b ∧ R a b := by
  constructor
  · intro h
    cases h with
    | error failure => exact .inl ⟨failure, rfl, rfl⟩
    | ok hrelated => exact .inr ⟨_, _, rfl, rfl, hrelated⟩
  · rintro (⟨failure, rfl, rfl⟩ | ⟨a, b, rfl, rfl, hrelated⟩)
    · exact .error failure
    · exact .ok hrelated

theorem imp {R' : α → β → Prop} (h : Agree R x y) (himp : ∀ a b, R a b → R' a b) :
    Agree R' x y := by
  cases h with
  | error failure => exact .error failure
  | ok hrelated => exact .ok (himp _ _ hrelated)

theorem bind {f : α → Except ε γ} {g : β → Except ε δ} (h : Agree R x y)
    (hnext : ∀ a b, R a b → Agree S (f a) (g b)) : Agree S (x >>= f) (y >>= g) := by
  cases h with
  | error failure => exact .error failure
  | ok hrelated => exact hnext _ _ hrelated

theorem map {f : α → γ} {g : β → δ} (h : Agree R x y) (hmap : ∀ a b, R a b → S (f a) (g b)) :
    Agree S (x.map f) (y.map g) := by
  cases h with
  | error failure => exact .error failure
  | ok hrelated => exact .ok (hmap _ _ hrelated)

theorem mapM {f : α → Except ε γ} {g : β → Except ε δ} {things : List α} {others : List β}
    (hthings : List.Forall₂ R things others) (h : ∀ a b, R a b → Agree S (f a) (g b)) :
    Agree (List.Forall₂ S) (things.mapM f) (others.mapM g) := by
  induction hthings with
  | nil => exact .ok .nil
  | cons hfirst _ ih =>
      rw [List.mapM_cons, List.mapM_cons]
      refine (h _ _ hfirst).bind ?_
      intro result result' hresult
      refine ih.bind ?_
      intro more more' hmore
      exact .ok (.cons hresult hmore)

theorem mapM_same {f : α → Except ε γ} {g : α → Except ε δ} {things : List α}
    (h : ∀ thing ∈ things, Agree S (f thing) (g thing)) :
    Agree (List.Forall₂ S) (things.mapM f) (things.mapM g) := by
  refine mapM (R := fun thing other => thing ∈ things ∧ thing = other)
    (List.forall₂_same.mpr fun thing hmem => ⟨hmem, rfl⟩) ?_
  rintro thing _ ⟨hmem, rfl⟩
  exact h thing hmem

/-- Two sweeps agree, and leave related things, if each two acts do. -/
theorem sweep (act : α → Except ε γ × α) (act' : β → Except ε δ × β) {things : List α}
    {others : List β} (hthings : List.Forall₂ R things others)
    (h : ∀ a b, R a b → Agree S (act a).1 (act' b).1 ∧ R (act a).2 (act' b).2) :
    Agree (List.Forall₂ S) (sweep act things).1 (sweep act' others).1
      ∧ List.Forall₂ R (sweep act things).2 (sweep act' others).2 := by
  induction hthings with
  | nil => exact ⟨.ok .nil, .nil⟩
  | @cons thing other rest rest' hfirst hrest ih =>
      obtain ⟨hact, hafter⟩ := h thing other hfirst
      rw [ChordGrid.sweep, ChordGrid.sweep]
      cases hleft : act thing with
      | mk outcome after =>
          cases hright : act' other with
          | mk outcome' after' =>
              rw [hleft, hright] at hact hafter
              cases hact with
              | error failure => exact ⟨.error failure, .cons hafter hrest⟩
              | ok hrelated =>
                  exact ⟨ih.1.map fun _ _ hmore => .cons hrelated hmore, .cons hafter ih.2⟩

end Agree

/-- Things that an act leaves alone and gets nothing from may be left out of a sweep. -/
theorem sweep_filter {act : α → Except ε (List β) × α} {keep : α → Bool}
    (hsilent : ∀ thing, keep thing = false → act thing = (.ok [], thing))
    (hkeep : ∀ thing, keep (act thing).2 = keep thing) (things : List α) :
    Agree (fun lists others => lists.flatten = others.flatten)
        (sweep act (things.filter keep)).1 (sweep act things).1
      ∧ (sweep act (things.filter keep)).2 = (sweep act things).2.filter keep := by
  induction things with
  | nil => exact ⟨.ok rfl, rfl⟩
  | cons thing rest ih =>
      obtain ⟨hmade, hafter⟩ := ih
      by_cases hthing : keep thing = true
      · have hkept := hkeep thing
        rw [List.filter_cons_of_pos hthing, sweep, sweep]
        cases hact : act thing with
        | mk outcome after =>
            rw [hact, hthing] at hkept
            cases outcome with
            | error failure => exact ⟨.error failure, (List.filter_cons_of_pos hkept).symm⟩
            | ok result =>
                refine ⟨hmade.map ?_, ?_⟩
                · intro lists others hlists
                  rw [List.flatten_cons, List.flatten_cons, hlists]
                · exact (congrArg (after :: ·) hafter).trans (List.filter_cons_of_pos hkept).symm
      · have hnone := hsilent thing (Bool.eq_false_iff.mpr hthing)
        rw [List.filter_cons_of_neg hthing, sweep, hnone]
        refine ⟨?_, hafter.trans (List.filter_cons_of_neg hthing).symm⟩
        change Agree _ _ ((sweep act rest).1.map ([] :: ·))
        generalize (sweep act rest).1 = outcome at hmade ⊢
        generalize (sweep act (rest.filter keep)).1 = kept at hmade ⊢
        cases hmade with
        | error failure => exact .error failure
        | ok hlists => exact .ok hlists

end ChordGrid
