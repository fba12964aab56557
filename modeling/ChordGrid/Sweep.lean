namespace ChordGrid

variable {ε α β σ : Type}

/-- The results of an action on each thing in turn, or its first failure, and the things after
it. -/
def sweep (act : α → Except ε β × α) : List α → Except ε (List β) × List α
  | [] => (.ok [], [])
  | thing :: rest =>
    match act thing with
    | (.error failure, after) => (.error failure, after :: rest)
    | (.ok result, after) =>
      let (results, rest) := sweep act rest
      (results.map (result :: ·), after :: rest)

/-- An action on a state for each thing in turn, until it fails, and the state after it. -/
def pass (act : α → σ → Except ε Unit × σ) : List α → σ → Except ε Unit × σ
  | [], state => (.ok (), state)
  | thing :: rest, state =>
    match act thing state with
    | (.error failure, after) => (.error failure, after)
    | (.ok (), after) => pass act rest after

end ChordGrid
