import StackSynth.CommandLine.Arguments
import StackSynth.CommandLine.Files
import StackSynth.CommandLine.Form
import StackSynth.CommandLine.Listing
import StackSynth.CommandLine.Render
import StackSynth.CommandLine.Run
import StackSynth.CommandLine.Setup
import StackSynth.Console.Command
import StackSynth.Console.Reply
import StackSynth.Device.Choice
import StackSynth.Device.Interleaver
import StackSynth.Device.Machine
import StackSynth.Device.Stream
import StackSynth.Engine.Basic
import StackSynth.Engine.Listing
import StackSynth.Engine.Queue
import StackSynth.Engine.Scheduler
import StackSynth.Language.Build
import StackSynth.Language.CompileError
import StackSynth.Language.Depth
import StackSynth.Language.Dictionary
import StackSynth.Language.Excerpt
import StackSynth.Language.Instruction
import StackSynth.Language.Numeral
import StackSynth.Language.Token
import StackSynth.Language.Word
import StackSynth.Machine.Builtin
import StackSynth.Machine.Focus
import StackSynth.Machine.Native
import StackSynth.Machine.Run
import StackSynth.Machine.Stack
import StackSynth.Main
import StackSynth.Number.Double
import StackSynth.Number.Format
import StackSynth.Number.Power
import StackSynth.Number.Quantity
import StackSynth.Number.Sample
import StackSynth.Number.Scientific
import StackSynth.Number.Shortest
import StackSynth.Number.Written
import StackSynth.Proofs.Console.Lines
import StackSynth.Proofs.Device.Callbacks
import StackSynth.Proofs.Device.Selection
import StackSynth.Proofs.Device.Weaving
import StackSynth.Proofs.Engine.Blocks
import StackSynth.Proofs.Engine.Budget
import StackSynth.Proofs.Engine.Builds
import StackSynth.Proofs.Engine.Custody
import StackSynth.Proofs.Engine.Driven
import StackSynth.Proofs.Engine.Faults
import StackSynth.Proofs.Engine.Frames
import StackSynth.Proofs.Engine.Histories
import StackSynth.Proofs.Engine.Natives
import StackSynth.Proofs.Engine.Recursion
import StackSynth.Proofs.Engine.Requests
import StackSynth.Proofs.Engine.Schedule
import StackSynth.Proofs.Engine.Silence
import StackSynth.Proofs.Engine.Steady
import StackSynth.Proofs.Language.Acceptance
import StackSynth.Proofs.Language.Blame
import StackSynth.Proofs.Language.Brackets
import StackSynth.Proofs.Language.CallDepth
import StackSynth.Proofs.Language.Definitions
import StackSynth.Proofs.Language.Excerpts
import StackSynth.Proofs.Language.Expansion
import StackSynth.Proofs.Language.Grammar
import StackSynth.Proofs.Language.Keys
import StackSynth.Proofs.Language.Labels
import StackSynth.Proofs.Language.Moves
import StackSynth.Proofs.Language.Names
import StackSynth.Proofs.Language.Numerals
import StackSynth.Proofs.Language.Outline
import StackSynth.Proofs.Language.Pieces
import StackSynth.Proofs.Language.Rebuild
import StackSynth.Proofs.Language.Words
import StackSynth.Proofs.Machine.Activations
import StackSynth.Proofs.Machine.BoundedList
import StackSynth.Proofs.Machine.Depth
import StackSynth.Proofs.Machine.Effects
import StackSynth.Proofs.Machine.Keeping
import StackSynth.Proofs.Machine.Outputs
import StackSynth.Proofs.Number.Exact
import StackSynth.Proofs.Number.Field
import StackSynth.Proofs.Number.Float
import StackSynth.Proofs.Number.Overflow
import StackSynth.Proofs.Number.Product
import StackSynth.Proofs.Number.Remainder
import StackSynth.Proofs.Number.Rounding
import StackSynth.Proofs.Number.Samples
import StackSynth.Proofs.Number.Scaling
import StackSynth.Proofs.Number.Shortest
import StackSynth.Proofs.Number.Value
import StackSynth.Proofs.Number.Written
import StackSynth.Proofs.Session.Edits
import StackSynth.Proofs.Settings.Capacities
import StackSynth.Proofs.Settings.Reaching
import StackSynth.Proofs.Settings.RoundTrip
import StackSynth.Proofs.Storage.Writing
import StackSynth.Proofs.Synth.Delays
import StackSynth.Proofs.Synth.Delivery
import StackSynth.Proofs.Synth.Depth
import StackSynth.Proofs.Synth.Entries
import StackSynth.Proofs.Synth.Envelopes
import StackSynth.Proofs.Synth.Keeping
import StackSynth.Proofs.Synth.Notes
import StackSynth.Proofs.Synth.Patterns
import StackSynth.Proofs.Synth.Phases
import StackSynth.Proofs.Synth.Playback
import StackSynth.Proofs.Synth.Recordings
import StackSynth.Proofs.Synth.Tables
import StackSynth.Proofs.Synth.Tempo
import StackSynth.Proofs.Synth.Vocabulary
import StackSynth.Proofs.Text.Utf8
import StackSynth.Proofs.Toml.Document
import StackSynth.Proofs.Toml.Quoted
import StackSynth.Proofs.Toml.Scalar
import StackSynth.Proofs.Toml.Values
import StackSynth.Proofs.WaveFile.Integers
import StackSynth.Proofs.WaveFile.Quantized
import StackSynth.Proofs.WaveFile.Reading
import StackSynth.Proofs.WaveFile.RoundTrip
import StackSynth.Proofs.WaveFile.Stereo
import StackSynth.Session.Causes
import StackSynth.Session.Event
import StackSynth.Session.Failure
import StackSynth.Session.Log
import StackSynth.Session.Play
import StackSynth.Session.Reload
import StackSynth.Session.Watcher
import StackSynth.Settings.Basic
import StackSynth.Settings.Document
import StackSynth.Settings.Engine
import StackSynth.Settings.Files
import StackSynth.Storage.Folder
import StackSynth.Storage.Path
import StackSynth.Synth.Bank
import StackSynth.Synth.Clock
import StackSynth.Synth.DelayLine
import StackSynth.Synth.Envelope
import StackSynth.Synth.Install
import StackSynth.Synth.Midi
import StackSynth.Synth.Mixer
import StackSynth.Synth.Operator
import StackSynth.Synth.Pattern
import StackSynth.Synth.Recording
import StackSynth.Synth.Sampler
import StackSynth.Synth.Table
import StackSynth.Synth.Wave
import StackSynth.Synth.Words
import StackSynth.Text.Blank
import StackSynth.Text.Lowercase
import StackSynth.Text.Quoted
import StackSynth.Text.Utf8
import StackSynth.Toml.Quoted
import StackSynth.Toml.Reader
import StackSynth.Toml.Scalar
import StackSynth.Toml.Table
import StackSynth.Toml.Value
import StackSynth.Toml.Writer
import StackSynth.WaveFile.Error
import StackSynth.WaveFile.Reader
import StackSynth.WaveFile.Writer
