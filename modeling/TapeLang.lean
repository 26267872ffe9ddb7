import TapeLang.A64.Assembler
import TapeLang.A64.Instr
import TapeLang.Block
import TapeLang.Block.Build
import TapeLang.Block.Listing
import TapeLang.Command
import TapeLang.Command.Completion
import TapeLang.Command.Config
import TapeLang.Command.Directory
import TapeLang.Command.Flag
import TapeLang.Command.Help
import TapeLang.Command.Record
import TapeLang.Command.Settings
import TapeLang.Command.Value
import TapeLang.Compiled
import TapeLang.Console
import TapeLang.Console.Reader
import TapeLang.Console.Sink
import TapeLang.Device
import TapeLang.Double
import TapeLang.Failure
import TapeLang.Failure.Report
import TapeLang.Instruction
import TapeLang.Log
import TapeLang.Machine
import TapeLang.Main
import TapeLang.Moment
import TapeLang.Native.Generate
import TapeLang.Native.Image
import TapeLang.Native.Listing
import TapeLang.Native.Region
import TapeLang.Native.Session
import TapeLang.Optimize
import TapeLang.Optimize.Coalesce
import TapeLang.Optimize.Legalize
import TapeLang.Optimize.OffsetFold
import TapeLang.Optimize.Pass
import TapeLang.Optimize.ZeroIdiom
import TapeLang.Program
import TapeLang.Run
import TapeLang.Source
import TapeLang.Stats
import TapeLang.Table
import TapeLang.Tape
import TapeLang.Text
import TapeLang.Text.Blank
import TapeLang.Text.Escape
import TapeLang.Text.Json
import TapeLang.Text.Letter
import TapeLang.Text.Number
import TapeLang.Text.Printable
import TapeLang.Text.Quoted
import TapeLang.Text.Rune
import TapeLang.Yaml.Data
import TapeLang.Yaml.Document
import TapeLang.Yaml.Fault
import TapeLang.Yaml.Node
import TapeLang.Yaml.Scalar
import TapeLang.Yaml.Stream
import TapeLang.Yaml.Token
import TapeLang.Yaml.Token.Scalar
import TapeLang.Yaml.Token.Scanner
import TapeLang.Yaml.Token.Tag
import TapeLang.Proofs.Alike
import TapeLang.Proofs.Rewriting
import TapeLang.Proofs.Trace
import TapeLang.Proofs.Transparency
import TapeLang.Proofs.Decode
import TapeLang.Proofs.Linking
import TapeLang.Proofs.Layout
import TapeLang.Proofs.Simulation
import TapeLang.Proofs.Cpu
import TapeLang.Proofs.Pieces
import TapeLang.Proofs.Frame
import TapeLang.Proofs.Steps
import TapeLang.Proofs.Confinement
import TapeLang.Proofs.Hosting
import TapeLang.Proofs.Agreement
import TapeLang.Proofs.Links
import TapeLang.Proofs.JumpMachine
import TapeLang.Proofs.Delivery
import TapeLang.Proofs.Brackets
import TapeLang.Proofs.RoundTrip
import TapeLang.Proofs.Legality
import TapeLang.Proofs.Labels
import TapeLang.Proofs.Capacity
import TapeLang.Proofs.ReadFailure
import TapeLang.Proofs.LifeCycle
import TapeLang.Proofs.Cancellation
import TapeLang.Proofs.Isolation
import TapeLang.Proofs.Enlarging
import TapeLang.Proofs.Immediates
import TapeLang.Proofs.Acceptance
import TapeLang.Proofs.NormalForm
import TapeLang.Proofs.Spelling
import TapeLang.Proofs.Pairs
import TapeLang.Proofs.Growth
import TapeLang.Proofs.Cost
import TapeLang.Proofs.Savings
import TapeLang.Proofs.Numerals
import TapeLang.Proofs.Positions
import TapeLang.Proofs.Listings
import TapeLang.Proofs.Finishing
import TapeLang.Proofs.Characters
import TapeLang.Proofs.Caret
import TapeLang.Proofs.Sequences
import TapeLang.Proofs.Colors
import TapeLang.Proofs.Rectangles
