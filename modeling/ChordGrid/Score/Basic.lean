namespace ChordGrid

structure SongEntry where
  name : String
  tempo : Option Nat
  key : String
  mode : String
  /-- The names of the patterns in the order they are played. -/
  order : List String
  deriving DecidableEq, Repr

structure PatternEntry where
  name : String
  data : String
  deriving DecidableEq, Repr

/-- What a phrase of several voices says of each of them. -/
structure VoiceEntry where
  inst : Option (List String) := none
  note : Option (List String) := none
  oct : Option (List Int) := none
  pre : Option (List String) := none
  post : Option (List String) := none
  deriving DecidableEq, Repr

structure PhraseEntry where
  kind : String
  name : String
  note : Option String := none
  pre : Option String := none
  post : Option String := none
  data : Option VoiceEntry := none
  deriving DecidableEq, Repr

structure PartEntry where
  kind : String
  channel : Nat
  inst : String
  deriving DecidableEq, Repr

structure FaderEntry where
  kind : String
  volume : Nat
  pan : String
  mute : Bool
  deriving DecidableEq, Repr

structure Score where
  song : SongEntry
  patterns : List PatternEntry
  phrases : List PhraseEntry
  parts : List PartEntry
  faders : List FaderEntry
  deriving DecidableEq, Repr

end ChordGrid
