namespace ChordGrid

/-- A JSON text as far as documents need it. A record keeps its members with their repetitions. -/
inductive Json where
  | null
  | bool (value : Bool)
  /-- A number written without fraction and exponent. -/
  | whole (value : Int)
  /-- Any other number, negative zero among them. -/
  | real
  /-- A string; none if its escapes leave half of a surrogate pair alone. -/
  | text (value : Option String)
  | list (items : List Json)
  | record (members : List (Option String × Json))
  deriving Repr

end ChordGrid
