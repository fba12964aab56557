import ChordGrid.Bits
import ChordGrid.Json.Value

/-!
# Reading records

A record gives its fields by name, in any order, or as a list in the order of the fields. Unknown
names are passed over, a known name may stand only once, and a list may stop before fields that can
be left out but has nothing after the last.
-/

namespace ChordGrid.Json

def member (members : List (Option String × Json)) (name : String) : Option Json :=
  (members.find? fun entry => entry.1 == some name).map Prod.snd

def atMostOnce (members : List (Option String × Json)) (name : String) : Bool :=
  (members.filter fun entry => entry.1 == some name).length ≤ 1

def fields? (names : List String) : Json → Option (List (Option Json))
  | record members =>
    if members.all (fun entry => entry.1.isSome) && names.all (atMostOnce members) then
      some (names.map (member members))
    else none
  | list items =>
    if items.length ≤ names.length then
      some (items.map some ++ List.replicate (names.length - items.length) none)
    else none
  | _ => none

def natural? (bits : Nat) : Json → Option Nat
  | whole value => if 0 ≤ value ∧ value ≤ topOf bits then some value.toNat else none
  | _ => none

def signed? : Json → Option Int
  | whole value => if fitsSigned 32 value then some value else none
  | _ => none

def bool? : Json → Option Bool
  | bool value => some value
  | _ => none

def text? : Json → Option String
  | text value => value
  | _ => none

def list? {α : Type} (read : Json → Option α) : Json → Option (List α)
  | list items => items.mapM read
  | _ => none

def nullable? {α : Type} (read : Json → Option α) : Json → Option (Option α)
  | null => some none
  | json => (read json).map some

def required? {α : Type} (read : Json → Option α) (field : Option Json) : Option α :=
  field.bind read

def orElse? {α : Type} (default : α) (read : Json → Option α) : Option Json → Option α
  | none => some default
  | some json => read json

def optional? {α : Type} (read : Json → Option α) (field : Option Json) : Option (Option α) :=
  orElse? none (nullable? read) field

end ChordGrid.Json
