import ChordGrid.Fault
import ChordGrid.Proofs.Checked

/-!
# Guarded reading

The program reads places that nothing at hand says are there: an entry of a list by its number, a
piece of a text by its bytes, a window of a roll by its ends. It also divides by what may be zero. A
guarded program looks before each of these steps, and halts with a slip where it cannot be taken. It
works on data that carry no proof of being well-formed. That the program never slips is said by
comparing the two: the guarded program gives what the program gives, with its faults and no slip
among them.
-/

namespace ChordGrid

/-- A read of something that is not there, or a division by zero. -/
inductive Slip where
  | entry (index : Nat)
  | bytes (start stop : Nat)
  | window (start stop : Nat)
  | divisor
  deriving DecidableEq, Repr

inductive Halt where
  | fault (fault : Fault)
  | slip (slip : Slip)
  deriving DecidableEq, Repr

namespace Guarded

variable {α β γ σ : Type}

/-- A result that nothing has slipped for. -/
def sure (x : Except Fault α) : Except Halt α :=
  x.mapError .fault

/-- Faults as an answer, so that only slips halt. -/
def answer : Except Halt α → Except Halt (Except Fault α)
  | .ok a => .ok (.ok a)
  | .error (.fault fault) => .ok (.error fault)
  | .error (.slip slip) => .error (.slip slip)

/-- The entry of a list at a place. -/
def entry (things : List α) (index : Nat) : Except Halt α :=
  match things[index]? with
  | some thing => .ok thing
  | none => .error (.slip (.entry index))

/-- The entries of a list from a place on. -/
def entriesFrom (things : List α) (index : Nat) : Except Halt (List α) :=
  if index ≤ things.length then .ok (things.drop index) else .error (.slip (.entry index))

def divisor (n : Nat) : Except Halt Nat :=
  if n = 0 then .error (.slip .divisor) else .ok n

theorem divisor_eq_ok {n : Nat} (h : 0 < n) : divisor n = .ok n :=
  if_neg (Nat.ne_of_gt h)

theorem entry_eq_ok {things : List α} {index : Nat} {thing : α}
    (h : things[index]? = some thing) : entry things index = .ok thing := by
  rw [entry, h]

theorem entriesFrom_append (things more : List α) :
    entriesFrom (things ++ more) things.length = .ok more := by
  rw [entriesFrom, if_pos (by simp), List.drop_left]

@[simp]
theorem answer_sure (x : Except Fault α) : answer (sure x) = .ok x := by
  cases x <;> rfl

/-! ### Sure results -/

@[simp]
theorem sure_ok (a : α) : sure (.ok a) = .ok a :=
  rfl

theorem sure_bind (x : Except Fault α) (f : α → Except Fault β) :
    sure (x >>= f) = sure x >>= fun a => sure (f a) := by
  cases x <;> rfl

/-- What goes on from a sure result is sure if it is from each result there is. -/
theorem bind_eq_sure {x : Except Fault α} {f : α → Except Halt β} {g : α → Except Fault β}
    (h : ∀ a, x = .ok a → f a = sure (g a)) : sure x >>= f = sure (x >>= g) := by
  cases x with
  | error fault => rfl
  | ok a => exact h a rfl

theorem map_bind {ε : Type} (x : Except ε α) (f : α → Except ε β) (g : β → γ) :
    (x >>= f).map g = x >>= fun a => (f a).map g := by
  cases x <;> rfl

theorem bind_map {ε : Type} (x : Except ε α) (f : α → β) (g : β → Except ε γ) :
    x.map f >>= g = x >>= fun a => g (f a) := by
  cases x <;> rfl

theorem sure_map (x : Except Fault α) (f : α → β) : sure (x.map f) = (sure x).map f := by
  cases x <;> rfl

theorem sure_mapM (f : α → Except Fault β) (things : List α) :
    sure (things.mapM f) = things.mapM fun thing => sure (f thing) := by
  induction things with
  | nil => rfl
  | cons thing rest ih =>
      rw [List.mapM_cons, List.mapM_cons, sure_bind, ← ih]
      congr 1
      funext result
      rw [sure_bind]
      rfl

theorem map_mapM {ε : Type} (f : α → Except ε β) (g : β → γ) (things : List α) :
    (things.mapM f).map (List.map g) = things.mapM fun thing => (f thing).map g := by
  induction things with
  | nil => rfl
  | cons thing rest ih =>
      rw [List.mapM_cons, List.mapM_cons, ← ih]
      cases f thing with
      | error failure => rfl
      | ok result => cases rest.mapM f <;> rfl

theorem sweep_sure {act : α → Except Fault β × α} {guarded : α → Except Halt β × α}
    (h : ∀ thing, guarded thing = (sure (act thing).1, (act thing).2)) (things : List α) :
    sweep guarded things = (sure (sweep act things).1, (sweep act things).2) := by
  induction things with
  | nil => rfl
  | cons thing rest ih =>
      rw [sweep, sweep, h thing, ih]
      cases act thing with
      | mk outcome after =>
          cases outcome with
          | error fault => rfl
          | ok result => exact congrArg (·, _) (sure_map _ _).symm

/-- Two passes go alike over two lists if each pair of their acts does. -/
theorem pass_sure {act : α → σ → Except Fault Unit × σ} {guarded : β → σ → Except Halt Unit × σ}
    {things : List α} {others : List β}
    (h : List.Forall₂ (fun thing other => ∀ state,
      guarded other state = (sure (act thing state).1, (act thing state).2)) things others)
    (state : σ) :
    pass guarded others state
      = (sure (pass act things state).1, (pass act things state).2) := by
  induction h generalizing state with
  | nil => rfl
  | @cons thing other _ _ hfirst _ ih =>
      rw [pass, pass, hfirst]
      cases act thing state with
      | mk outcome after =>
          cases outcome with
          | error fault => rfl
          | ok done => exact ih after

theorem pass_sure_same {act : α → σ → Except Fault Unit × σ}
    {guarded : α → σ → Except Halt Unit × σ}
    (h : ∀ thing state, guarded thing state = (sure (act thing state).1, (act thing state).2))
    (things : List α) (state : σ) :
    pass guarded things state = (sure (pass act things state).1, (pass act things state).2) :=
  pass_sure (List.forall₂_same.mpr fun thing _ => h thing) state

end Guarded

end ChordGrid
