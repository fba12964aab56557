namespace ChordGrid

/-- The largest number of so many bits. -/
def topOf (bits : Nat) : Nat :=
  Nat.pow 2 bits - 1

/-- Whether a number fits so many bits, one of them for the sign. -/
def fitsSigned (bits : Nat) (n : Int) : Bool :=
  -(topOf (bits - 1) : Int) - 1 ≤ n && n ≤ topOf (bits - 1)

example : topOf 32 = 4294967295 := rfl

example : fitsSigned 32 (-2147483648) = true ∧ fitsSigned 32 2147483648 = false := by decide

end ChordGrid
