import ChordGrid.Json.Reader
import ChordGrid.Json.Record
import ChordGrid.Settings
import ChordGrid.Score.Basic

namespace ChordGrid

open Json

def SongEntry.ofJson? (json : Json) : Option SongEntry := do
  let [name, tempo, key, mode, pattern] ← fields? ["name", "tempo", "key", "mode", "pattern"] json
    | none
  return {
    name := ← orElse? "" text? name
    tempo := ← optional? (natural? 16) tempo
    key := ← required? text? key
    mode := ← required? text? mode
    order := ← required? (list? text?) pattern }

def PatternEntry.ofJson? (json : Json) : Option PatternEntry := do
  let [name, data] ← fields? ["name", "data"] json | none
  return {
    name := ← required? text? name
    data := ← required? text? data }

def VoiceEntry.ofJson? (json : Json) : Option VoiceEntry := do
  let [inst, note, oct, pre, post] ← fields? ["inst", "note", "oct", "pre", "post"] json | none
  return {
    inst := ← optional? (list? text?) inst
    note := ← optional? (list? text?) note
    oct := ← optional? (list? signed?) oct
    pre := ← optional? (list? text?) pre
    post := ← optional? (list? text?) post }

def PhraseEntry.ofJson? (json : Json) : Option PhraseEntry := do
  let [kind, name, note, pre, post, data] ←
    fields? ["type", "name", "note", "pre", "post", "data"] json | none
  return {
    kind := ← required? text? kind
    name := ← required? text? name
    note := ← optional? text? note
    pre := ← optional? text? pre
    post := ← optional? text? post
    data := ← optional? VoiceEntry.ofJson? data }

def PartEntry.ofJson? (json : Json) : Option PartEntry := do
  let [kind, midi, inst] ← fields? ["type", "midi", "inst"] json | none
  return {
    kind := ← required? text? kind
    channel := ← required? (natural? 8) midi
    inst := ← required? text? inst }

def FaderEntry.ofJson? (json : Json) : Option FaderEntry := do
  let [kind, vol, pan, mute] ← fields? ["type", "vol", "pan", "mute"] json | none
  return {
    kind := ← required? text? kind
    volume := ← required? (natural? 32) vol
    pan := ← required? text? pan
    mute := ← orElse? false bool? mute }

def Score.ofJson? (json : Json) : Option Score := do
  let [song, patterns, phrases, players, faders] ←
    fields? ["song", "patterns", "phrases", "players", "faders"] json | none
  return {
    song := ← required? SongEntry.ofJson? song
    patterns := ← required? (list? PatternEntry.ofJson?) patterns
    phrases := ← required? (list? PhraseEntry.ofJson?) phrases
    parts := ← required? (list? PartEntry.ofJson?) players
    faders := ← orElse? [] (list? FaderEntry.ofJson?) faders }

def Json.onlyField? {α : Type} (name : String) (read : Json → Option α) (json : Json) :
    Option α := do
  let [field] ← fields? [name] json | none
  required? read field

def Json.mixerFaders? (json : Json) : Option (List FaderEntry) := do
  let [fader] ← fields? ["fader"] json | none
  orElse? [] (list? FaderEntry.ofJson?) fader

def Settings.ofJson? (json : Json) : Option Settings := do
  let [ticks, tempo, velocity, seed, controller] ←
    fields? ["ticks_per_quarter", "tempo_bpm", "velocity", "seque_seed",
      "all_notes_off_controller"] json | none
  let usual : Settings := {}
  let seed ← optional? (natural? 64) seed
  return {
    ticksPerQuarter := ← orElse? usual.ticksPerQuarter (natural? 32) ticks
    tempo := ← orElse? usual.tempo (natural? 16) tempo
    velocity := ← orElse? usual.velocity (natural? 8) velocity
    seed := seed.map UInt64.ofNat
    silenceController := ← orElse? usual.silenceController (natural? 8) controller }

end ChordGrid
