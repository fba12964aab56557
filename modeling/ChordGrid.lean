import ChordGrid.CommandLine.Report
import ChordGrid.Live.Calls
import ChordGrid.Main
import ChordGrid.MidiFile.Encode
import ChordGrid.Playhead
import ChordGrid.Score.Directory
import ChordGrid.Proofs.Live.NewestRequest
import ChordGrid.Proofs.Performance.Republication
import ChordGrid.Proofs.Performance.Stranding
import ChordGrid.Proofs.Live.History
import ChordGrid.Proofs.Build.Balance
import ChordGrid.Proofs.Playhead.Playback
import ChordGrid.Proofs.MidiFile.Reader
import ChordGrid.Proofs.MidiFile.Events
import ChordGrid.Proofs.MidiFile.RoundTrip
import ChordGrid.Proofs.Grid.Notation
import ChordGrid.Proofs.Harmony.Continuation
import ChordGrid.Proofs.Performance.Setup
import ChordGrid.Proofs.Rescaling.Edition
import ChordGrid.Proofs.MidiFile.Exactness
import ChordGrid.Proofs.Build.Silence
import ChordGrid.Proofs.Performance.Restart
import ChordGrid.Proofs.Build.Tail
import ChordGrid.Proofs.Build.Pickups
import ChordGrid.Proofs.Build.Redraws
import ChordGrid.Proofs.Performance.Failure
import ChordGrid.Proofs.Build.Confinement
import ChordGrid.Proofs.Pitch.Transposition
import ChordGrid.Proofs.Pitch.Borrowing
import ChordGrid.Proofs.Build.Preamble
import ChordGrid.Proofs.Build.Extent
import ChordGrid.Proofs.Live.Handover
import ChordGrid.Proofs.Roll.Export
import ChordGrid.Proofs.Performance.Answers
import ChordGrid.Proofs.Phrase.Stream
import ChordGrid.Proofs.Phrase.Tiling
import ChordGrid.Proofs.Generator.Uniformity
import ChordGrid.Proofs.Generator.Seeding
import ChordGrid.Proofs.Timeline
import ChordGrid.Proofs.Guarded.Session
