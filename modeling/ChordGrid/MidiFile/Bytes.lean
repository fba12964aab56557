namespace ChordGrid.MidiFile

/-- The lowest `width` bytes of a number, the highest of them first. -/
def fixed : Nat → Nat → List UInt8
  | 0, _ => []
  | width + 1, n => fixed width (n / 256) ++ [UInt8.ofNat n]

def leading (n : Nat) : List UInt8 :=
  if n = 0 then [] else leading (n / 128) ++ [UInt8.ofNat (128 + n % 128)]
termination_by n

def quantity (n : Nat) : List UInt8 :=
  leading (n / 128) ++ [UInt8.ofNat (n % 128)]

theorem length_fixed (width n : Nat) : (fixed width n).length = width := by
  induction width generalizing n with
  | zero => rfl
  | succ width ih => simp [fixed, ih]

end ChordGrid.MidiFile
