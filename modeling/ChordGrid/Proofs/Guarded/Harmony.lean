import ChordGrid.Harmony.Pattern
import ChordGrid.Proofs.Guarded.Basic

namespace ChordGrid

open Text

/-- A pattern as a list of lists of spans, any of which may be empty. -/
structure LoosePattern where
  name : String
  measures : List (List Span)
  deriving DecidableEq, Repr

def Pattern.loose (pattern : Pattern) : LoosePattern :=
  ⟨pattern.name, pattern.measures.map Measure.spans⟩

namespace Guarded

/-! ### Keys and pitches -/

def keyTable : List Key :=
  (List.range 12).map Key.above

def key (name : String) : Except Halt Key :=
  match trim name.toList with
  | [] => .error (.fault (.unknown .key name))
  | letter :: accidental =>
    match Key.letters.lookup letter.toUpper,
      Key.accidentals.lookup (String.ofList (lower accidental)) with
    | some natural, some shift => entry keyTable ((natural + shift) % 12)
    | _, _ => .error (.fault (.unknown .key name))

def interval (mode : Mode) (index : Nat) : Except Halt Nat :=
  entry mode.intervals.toList index

def scalePitch (tonality : Tonality) (index : Nat) : Except Halt Nat := do
  let interval ← interval tonality.mode (index % 7)
  return tonality.key.root + interval + 12 * (index / 7)

def pitch (tonality : Tonality) (span : Span) (step : Step) : Except Halt Nat :=
  match span.mode with
  | some mode =>
    if mode = tonality.mode then scalePitch tonality (span.degree.index + step)
    else do
      let root ← scalePitch tonality span.degree.index
      let interval ← interval mode step
      return root + interval
  | none => scalePitch tonality (span.degree.index + step)

theorem key_eq (name : String) : key name = sure (Key.parse name) := by
  rw [key, Key.parse, Key.ofText?]
  cases trim name.toList with
  | nil => rfl
  | cons letter accidental =>
      simp only
      cases Key.letters.lookup letter.toUpper with
      | none => rfl
      | some natural =>
          cases Key.accidentals.lookup (String.ofList (lower accidental)) with
          | none => rfl
          | some shift =>
              have hlt : (natural + shift) % 12 < 12 := Nat.mod_lt _ (by decide)
              have hkey : keyTable[(natural + shift) % 12]?
                  = some (Key.above ((natural + shift) % 12)) := by
                rw [keyTable, List.getElem?_map, List.getElem?_range hlt, Option.map_some]
              refine (entry_eq_ok hkey).trans ?_
              simp [Key.above]

theorem interval_eq (mode : Mode) (index : Fin 7) :
    interval mode index = .ok (mode.interval index) := by
  apply entry_eq_ok
  rw [Vector.getElem?_toList]
  exact Vector.getElem?_eq_getElem index.isLt

theorem scalePitch_eq (tonality : Tonality) (index : Nat) :
    scalePitch tonality index = .ok (tonality.scalePitch index) := by
  have hinterval := interval_eq tonality.mode ⟨index % 7, Nat.mod_lt _ (by decide)⟩
  rw [scalePitch, hinterval]
  rfl

theorem pitch_eq (tonality : Tonality) (span : Span) (step : Step) :
    pitch tonality span step = .ok (tonality.pitch span step) := by
  unfold pitch Tonality.pitch
  cases span.mode with
  | none => exact scalePitch_eq tonality _
  | some mode =>
      simp only
      split
      · exact scalePitch_eq tonality _
      · rw [scalePitch_eq, interval_eq]
        rfl

/-! ### Pieces of text -/

def byteCount : List Char → Nat
  | [] => 0
  | c :: rest => c.utf8Size + byteCount rest

/-- What follows so many bytes of a text, if they end where a character does. -/
def afterBytes? (count : Nat) : List Char → Option (List Char)
  | [] => if count = 0 then some [] else none
  | c :: rest =>
    if count = 0 then some (c :: rest)
    else if c.utf8Size ≤ count then afterBytes? (count - c.utf8Size) rest
    else none

/-- The first so many bytes of a text, if they end where a character does. -/
def firstBytes? (count : Nat) : List Char → Option (List Char)
  | [] => if count = 0 then some [] else none
  | c :: rest =>
    if count = 0 then some []
    else if c.utf8Size ≤ count then (firstBytes? (count - c.utf8Size) rest).map (c :: ·)
    else none

/-- The piece of a text between two byte positions. -/
def cut (text : List Char) (start stop : Nat) : Except Halt (List Char) :=
  match (afterBytes? start text).bind (firstBytes? (stop - start)) with
  | some piece => if start ≤ stop then .ok piece else .error (.slip (.bytes start stop))
  | none => .error (.slip (.bytes start stop))

theorem byteCount_append (text more : List Char) :
    byteCount (text ++ more) = byteCount text + byteCount more := by
  induction text with
  | nil => exact (Nat.zero_add _).symm
  | cons c rest ih => rw [List.cons_append, byteCount, byteCount, ih, Nat.add_assoc]

theorem afterBytes?_append (text more : List Char) :
    afterBytes? (byteCount text) (text ++ more) = some more := by
  induction text with
  | nil => cases more <;> simp [byteCount, afterBytes?]
  | cons c rest ih =>
      have hpos := c.utf8Size_pos
      have hcount : byteCount (c :: rest) = c.utf8Size + byteCount rest := rfl
      rw [hcount, List.cons_append, afterBytes?, if_neg (by omega),
        if_pos (Nat.le_add_right _ _), Nat.add_sub_cancel_left, ih]

theorem firstBytes?_append (text more : List Char) :
    firstBytes? (byteCount text) (text ++ more) = some text := by
  induction text with
  | nil => cases more <;> simp [byteCount, firstBytes?]
  | cons c rest ih =>
      have hpos := c.utf8Size_pos
      have hcount : byteCount (c :: rest) = c.utf8Size + byteCount rest := rfl
      rw [hcount, List.cons_append, firstBytes?, if_neg (by omega),
        if_pos (Nat.le_add_right _ _), Nat.add_sub_cancel_left, ih]
      rfl

theorem cut_middle (before piece after : List Char) :
    cut (before ++ piece ++ after) (byteCount before) (byteCount (before ++ piece))
      = .ok piece := by
  have hlength : byteCount (before ++ piece) - byteCount before = byteCount piece := by
    rw [byteCount_append, Nat.add_sub_cancel_left]
  have hle : byteCount before ≤ byteCount (before ++ piece) := by
    rw [byteCount_append]
    exact Nat.le_add_right _ _
  rw [cut, List.append_assoc, afterBytes?_append, Option.bind_some, hlength, firstBytes?_append]
  exact if_pos hle

/-! ### Brackets -/

/-- The bodies of a text between brackets, read on from a place with the place where the bracket
that is open has its body. -/
def scan (text : List Char) (opened : Option Nat) (place : Nat) :
    List Char → Except Halt (List (List Char))
  | [] =>
    if opened.isSome then .error (.fault (.unbalancedBrackets (String.ofList text))) else .ok []
  | c :: rest =>
    match opened with
    | none =>
      if c = '[' then scan text (some (place + 1)) (place + c.utf8Size) rest
      else if c = ']' then .error (.fault (.unbalancedBrackets (String.ofList text)))
      else if isBlank c then scan text none (place + c.utf8Size) rest
      else .error (.fault (.unbalancedBrackets (String.ofList text)))
    | some start =>
      if c = ']' then do
        let body ← cut text start place
        let more ← scan text none (place + c.utf8Size) rest
        return body :: more
      else if c = '[' then .error (.fault (.unbalancedBrackets (String.ofList text)))
      else scan text (some start) (place + c.utf8Size) rest

def bodies (text : List Char) : Except Halt (List (List Char)) :=
  if text.any Pattern.isBracket then scan text none 0 text
  else .ok (if allBlank text then [] else [text])

/-- What comes of bodies that are found or not. -/
def found (text : List Char) (bodies : Option (List (List Char))) :
    Except Fault (List (List Char)) :=
  match bodies with
  | some bodies => .ok bodies
  | none => .error (.unbalancedBrackets (String.ofList text))

/-- The scan finds in a rest of the text, with no bracket open before it, what is to be found. -/
def ScansOutside (text rest : List Char) : Prop :=
  ∀ before, text = before ++ rest →
    scan text none (byteCount before) rest = sure (found text (bodiesOutside rest))

/-- The same behind an open bracket and the part of its body that has been read. -/
def ScansInside (text rest : List Char) : Prop :=
  ∀ before body, text = before ++ body ++ rest →
    scan text (some (byteCount before)) (byteCount (before ++ body)) rest
      = sure (found text ((bodiesInside rest).map fun inside => (body ++ inside.1) :: inside.2))

variable {text rest : List Char}

theorem byteCount_concat (front : List Char) (c : Char) :
    byteCount (front ++ [c]) = byteCount front + c.utf8Size :=
  byteCount_append front [c]

theorem ScansOutside.cons (houtside : ScansOutside text rest) (hinside : ScansInside text rest)
    (c : Char) : ScansOutside text (c :: rest) := by
  intro before htext
  rw [scan, bodiesOutside, ← byteCount_concat]
  by_cases hopen : c = '['
  · subst hopen
    have hbody := hinside (before ++ ['[']) [] (by simp [htext])
    have hstart : byteCount before + 1 = byteCount (before ++ ['[']) :=
      (byteCount_concat before '[').symm
    rw [List.append_nil] at hbody
    rw [if_pos rfl, if_pos rfl, hstart, hbody]
    rfl
  · rw [if_neg hopen, if_neg hopen]
    by_cases hclose : c = ']'
    · rw [if_pos hclose, hclose]
      rfl
    · rw [if_neg hclose]
      split
      · exact houtside (before ++ [c]) (by simp [htext])
      · rfl

theorem ScansInside.cons (houtside : ScansOutside text rest) (hinside : ScansInside text rest)
    (c : Char) : ScansInside text (c :: rest) := by
  intro before body htext
  rw [scan, bodiesInside, ← byteCount_concat]
  by_cases hclose : c = ']'
  · have hcut : cut text (byteCount before) (byteCount (before ++ body)) = .ok body := by
      rw [htext]
      exact cut_middle before body (c :: rest)
    have hmore := houtside (before ++ body ++ [c]) (by simp [htext])
    rw [if_pos hclose, if_pos hclose, hcut, hmore]
    cases bodiesOutside rest with
    | none => rfl
    | some more =>
        change Except.ok (body :: more) = Except.ok ((body ++ []) :: more)
        rw [List.append_nil]
  · rw [if_neg hclose, if_neg hclose]
    split
    · rfl
    · have hlonger := hinside before (body ++ [c]) (by simp [htext])
      rw [← List.append_assoc] at hlonger
      rw [hlonger, Option.map_map]
      simp [Function.comp_def]

theorem scans (text rest : List Char) : ScansOutside text rest ∧ ScansInside text rest := by
  induction rest with
  | nil => exact ⟨fun before h => rfl, fun before body h => rfl⟩
  | cons c rest ih =>
      obtain ⟨houtside, hinside⟩ := ih
      exact ⟨houtside.cons hinside c, hinside.cons houtside c⟩

theorem bodies_eq (text : List Char) : bodies text = sure (Pattern.bodies text) := by
  rw [bodies, Pattern.bodies]
  split
  · exact (scans text text).1 [] rfl
  · rfl

/-! ### Measures -/

/-- Whether a bar closes the fourth of five beats. -/
def isClosed (tokens : List (List Char)) : Except Halt Bool :=
  if tokens.length = 5 then (entry tokens 4).map List.isEmpty else .ok false

def beats (body : List Char) : Except Halt (List (List Char)) :=
  let tokens := (pieces (· = '|') body).map trim
  (isClosed tokens).map fun closed => if closed then tokens.dropLast else tokens

/-- The spans of beats, the first of which has to have a chord. -/
def spansOf (body : List Char) (beats : List (List Char)) : Except Halt (List Span) :=
  if beats.length ≠ beatsPerMeasure then
    .error (.fault (.beatCount (String.ofList body) beats.length))
  else do
    let chord ← entry beats 0
    if chord.isEmpty then .error (.fault (.blankDownbeat (String.ofList body)))
    else sure ((Measure.ofBeats (String.ofList body) chord beats.tail).map Measure.spans)

def measure (body : List Char) : Except Halt (List Span) := do
  let beats ← beats body
  spansOf body beats

theorem isClosed_eq (tokens : List (List Char)) :
    isClosed tokens = .ok (decide (tokens.length = 5 ∧ tokens.getLast? = some [])) := by
  unfold isClosed
  split
  · next hlength =>
      have hlast : tokens[4]? = tokens.getLast? := by
        rw [List.getLast?_eq_getElem?, hlength]
      obtain ⟨token, htoken⟩ : ∃ token, tokens[4]? = some token :=
        ⟨_, List.getElem?_eq_getElem (by omega)⟩
      rw [entry_eq_ok htoken, ← hlast, htoken]
      cases token <;> simp [Except.map, hlength]
  · next hlength => simp [hlength]

theorem beats_eq (body : List Char) : beats body = .ok (Measure.beats body) := by
  rw [beats, isClosed_eq]
  simp only [Except.map, decide_eq_true_eq]
  rfl

theorem measure_eq (body : List Char) :
    measure body = sure ((Measure.parse body).map Measure.spans) := by
  rw [measure, beats_eq, Measure.parse]
  change spansOf body (Measure.beats body) = _
  unfold spansOf
  split
  · rfl
  · next hlength =>
      cases hbeats : Measure.beats body with
      | nil => simp [hbeats, beatsPerMeasure] at hlength
      | cons chord others =>
          change (if chord.isEmpty then _ else _) = _
          by_cases hblank : chord.isEmpty
          · simp only [hblank, if_true]
            rfl
          · simp only [hblank]
            rfl

end Guarded

namespace LoosePattern

variable (pattern : LoosePattern)

def parse (name text : String) : Except Halt LoosePattern := do
  let found ← Guarded.bodies text.toList
  let measures ← found.mapM Guarded.measure
  if measures.isEmpty then throw (.fault (.emptyPattern name))
  return ⟨name, measures⟩

def beatCount : Nat :=
  pattern.measures.length * beatsPerMeasure

def cellCount : Nat :=
  pattern.beatCount * cellsPerBeat

/-- The first span of the first measure. -/
def opening : Except Halt Span := do
  let measure ← Guarded.entry pattern.measures 0
  Guarded.entry measure 0

/-- The span that holds a beat, among spans the first of which begins at some beat. Behind the last
span it is the last one, and the opening stands by for want of any. -/
def spanAmong (beat start : Nat) (last : Option Span) : List Span → Except Halt Span
  | [] => do
    let opening ← pattern.opening
    return last.getD opening
  | span :: rest =>
    if beat < start + span.beats then .ok span
    else spanAmong beat (start + span.beats) (some span) rest

def spanAt (beat : Nat) : Except Halt Span :=
  pattern.spanAmong beat 0 none pattern.measures.flatten

def closing : Except Halt Span :=
  pattern.spanAt (pattern.beatCount - 1)

def spanOfCell (cell : Nat) : Except Halt Span :=
  pattern.spanAt (cell / cellsPerBeat)

end LoosePattern

namespace Pattern

theorem parse_loose (name text : String) :
    LoosePattern.parse name text = Guarded.sure ((parse name text).map loose) := by
  have hmeasures : ∀ found : List (List Char), found.mapM Guarded.measure
      = Guarded.sure ((found.mapM Measure.parse).map (List.map Measure.spans)) := by
    intro found
    rw [Guarded.map_mapM, Guarded.sure_mapM]
    exact congrArg (List.mapM · found) (funext Guarded.measure_eq)
  rw [LoosePattern.parse, parse, Guarded.bodies_eq]
  cases bodies text.toList with
  | error fault => rfl
  | ok found =>
      change (found.mapM Guarded.measure >>= _) = Guarded.sure (Except.map _ (found.mapM _ >>= _))
      rw [hmeasures]
      cases found.mapM Measure.parse with
      | error fault => rfl
      | ok measures => cases measures <;> rfl

variable (pattern : Pattern)

theorem beatCount_loose : pattern.loose.beatCount = pattern.beatCount := by
  simp [LoosePattern.beatCount, beatCount, loose]

theorem cellCount_loose : pattern.loose.cellCount = pattern.cellCount :=
  congrArg (· * cellsPerBeat) pattern.beatCount_loose

theorem opening_loose : pattern.loose.opening = .ok pattern.opening :=
  rfl

theorem spanAmong_loose {beat start : Nat} (hstart : start ≤ beat) (last : Option Span)
    (spans : List Span) :
    pattern.loose.spanAmong beat start last spans
      = .ok (Span.holding (last.getD pattern.opening) spans (beat - start)) := by
  induction spans generalizing start last with
  | nil => rfl
  | cons span rest ih =>
      rw [LoosePattern.spanAmong, Span.holding]
      by_cases hbeat : beat < start + span.beats
      · rw [if_pos hbeat, if_pos (by omega)]
      · rw [if_neg hbeat, if_neg (by omega), ih (by omega), Nat.sub_add_eq]
        rfl

theorem spanAt_loose (beat : Nat) : pattern.loose.spanAt beat = .ok (pattern.spanAt beat) := by
  rw [LoosePattern.spanAt, spanAmong_loose pattern (Nat.zero_le beat)]
  rfl

theorem closing_loose : pattern.loose.closing = .ok pattern.closing := by
  rw [LoosePattern.closing, beatCount_loose, spanAt_loose]
  rfl

theorem spanOfCell_loose (cell : Nat) :
    pattern.loose.spanOfCell cell = .ok (pattern.spanOfCell cell) :=
  pattern.spanAt_loose (cell / cellsPerBeat)

/-- A pattern without measures has no opening to fall back on. -/
example : (LoosePattern.mk "a" []).spanAt 0 = .error (.slip (.entry 0)) := by
  rfl

end Pattern

end ChordGrid
