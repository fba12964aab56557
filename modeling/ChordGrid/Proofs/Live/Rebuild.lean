import ChordGrid.Live.Calls

namespace ChordGrid.Live.Desk

variable {desk : Desk}

/-- The desk after a rebuild that nobody interferes with has come to a result. -/
def rebuilt (desk : Desk) : Except Fault Edition → Desk
  | .ok edition =>
    { desk with
      generation := desk.generation + 1
      valid := ⟨desk.valid.serial + 1, edition⟩
      reporter := desk.reporter.clear
      threads := desk.threads ++ [.done (some true)] }
  | .error fault =>
    { desk with
      generation := desk.generation + 1
      reporter := (desk.reporter.report fault).2
      threads := desk.threads ++ [.done (some false)] }

/-- **A rebuild on its own.** It answers whether the score compiles, and settles its result. -/
theorem rebuild_eq (hholder : desk.holder = none) (score : Score) :
    desk.rebuild score = ((Edition.compile score desk.settings).isOk,
      desk.rebuilt (Edition.compile score desk.settings)) := by
  cases hcompile : Edition.compile score desk.settings <;>
    simp [rebuild, call, callLength, steps, step, enter, stepFrom, put, hholder, Load.compile,
      hcompile, verdict, afterBuild, rebuilt, Except.isOk, Except.toBool]

/-- A rebuild that finds the lock taken waits for it, and settles nothing meanwhile. -/
theorem rebuild_eq_of_locked {thread : Nat} (hholder : desk.holder = some thread) (score : Score) :
    desk.rebuild score = (false,
      { desk with
        generation := desk.generation + 1
        threads := desk.threads ++
          [.lock ⟨desk.generation + 1, Edition.compile score desk.settings, .caller⟩] }) := by
  simp [rebuild, call, callLength, steps, step, enter, stepFrom, put, hholder, Load.compile]

/-- Desks that differ at most in their calls and in what was reported: neither a playhead nor the
result of a rebuild tells them apart. -/
structure SameFront (a b : Desk) : Prop where
  valid : a.valid = b.valid
  settings : a.settings = b.settings
  holder : a.holder = b.holder

theorem SameFront.refl (desk : Desk) : desk.SameFront desk :=
  ⟨rfl, rfl, rfl⟩

theorem SameFront.trans {a b c : Desk} (h : a.SameFront b) (hnext : b.SameFront c) :
    a.SameFront c :=
  ⟨h.valid.trans hnext.valid, h.settings.trans hnext.settings, h.holder.trans hnext.holder⟩

@[simp]
theorem settings_rebuild (desk : Desk) (score : Score) :
    (desk.rebuild score).2.settings = desk.settings := by
  cases hholder : desk.holder with
  | some thread => rw [rebuild_eq_of_locked hholder]
  | none =>
      rw [rebuild_eq hholder]
      cases Edition.compile score desk.settings <;> rfl

theorem SameFront.rebuild {a b : Desk} (h : a.SameFront b) (score : Score) :
    (a.rebuild score).1 = (b.rebuild score).1
      ∧ (a.rebuild score).2.SameFront (b.rebuild score).2 := by
  have hheld := h.holder
  cases hholder : b.holder with
  | some thread =>
      rw [hholder] at hheld
      rw [rebuild_eq_of_locked hheld, rebuild_eq_of_locked hholder]
      exact ⟨rfl, h.valid, h.settings, h.holder⟩
  | none =>
      rw [hholder] at hheld
      rw [rebuild_eq hheld, rebuild_eq hholder, h.settings]
      refine ⟨rfl, ?_⟩
      cases Edition.compile score b.settings with
      | error fault => exact ⟨h.valid, h.settings, h.holder⟩
      | ok edition =>
          have hserial : a.valid.serial + 1 = b.valid.serial + 1 := by rw [h.valid]
          exact ⟨congrArg (Publication.mk · edition) hserial, h.settings, h.holder⟩

/-- **A rebuild that fails** is answered so. The valid publication stays the very same one, with its
serial number. -/
theorem rebuild_of_error {score : Score} {fault : Fault}
    (hfault : Edition.compile score desk.settings = .error fault) :
    (desk.rebuild score).1 = false ∧ (desk.rebuild score).2.SameFront desk := by
  cases hholder : desk.holder with
  | some thread =>
      rw [rebuild_eq_of_locked hholder]
      exact ⟨rfl, rfl, rfl, rfl⟩
  | none =>
      rw [rebuild_eq hholder, hfault]
      exact ⟨rfl, rfl, rfl, rfl⟩

theorem snd_call (desk : Desk) (call : Call) :
    (desk.call call).2 = (desk.enter call).steps desk.threads.length callLength := by
  rw [Desk.call]
  split <;> rfl

end ChordGrid.Live.Desk
