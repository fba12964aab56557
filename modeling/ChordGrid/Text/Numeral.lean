import ChordGrid.Text.Blank

namespace ChordGrid.Text

/-- The value of a run of decimal digits read after `acc`; none at the first other character. -/
def digitsFrom (acc : Nat) : List Char → Option Nat
  | [] => some acc
  | c :: rest => if c.isDigit then digitsFrom (acc * 10 + (c.toNat - '0'.toNat)) rest else none

/-- The value of a numeral: leading zeros count for nothing, a minus sign is refused. -/
def numeral? : List Char → Option Nat
  | [] => none
  | ['+'] => none
  | '+' :: digits => digitsFrom 0 digits
  | digits => digitsFrom 0 digits

def numeralUpTo? (top : Nat) (text : List Char) : Option Nat :=
  (numeral? text).filter (· ≤ top)

theorem le_of_numeralUpTo? {top value : Nat} {text : List Char}
    (h : numeralUpTo? top text = some value) : value ≤ top := by
  simpa using (Option.filter_eq_some_iff.mp h).2

example : numeral? ['+', '0', '7'] = some 7 := by decide

example : numeral? ['-', '0'] = none := by decide

end ChordGrid.Text
