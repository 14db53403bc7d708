import StepStubs.Text.Basic
import StepStubs.Text.Escape
import StepStubs.Text.Segments
import StepStubs.Text.Utf8
import StepStubs.Text.WordRanges
import StepStubs.Text.Word
import StepStubs.Environment
import StepStubs.Path.Basic
import StepStubs.Path.Normal
import StepStubs.Files.Cause
import StepStubs.Files.Failure
import StepStubs.Files.Tree
import StepStubs.Files.System
import StepStubs.Files.Changes
import StepStubs.Files.Reading
import StepStubs.Files.Writing
import StepStubs.Json.Basic
import StepStubs.Json.Pretty
import StepStubs.Json.Line
import StepStubs.Json.Token
import StepStubs.Json.Read
import StepStubs.Yaml.Character
import StepStubs.Yaml.Cursor
import StepStubs.Yaml.Error
import StepStubs.Yaml.Block
import StepStubs.Yaml.Gap
import StepStubs.Yaml.Number
import StepStubs.Yaml.Plain
import StepStubs.Yaml.Quoted
import StepStubs.Yaml.Scalar
import StepStubs.Yaml.Token
import StepStubs.Yaml.Property
import StepStubs.Yaml.Scanner
import StepStubs.Yaml.Node
import StepStubs.Log.Level
import StepStubs.Log.Event
import StepStubs.Log.Line
import StepStubs.Log.Settings
import StepStubs.Config.Basic
import StepStubs.Config.Problem
import StepStubs.Config.Reference
import StepStubs.Config.Stored
import StepStubs.Config.File
import StepStubs.Step.Parameter
import StepStubs.Step.Phase
import StepStubs.Expression.Draft
import StepStubs.Expression.Pass
import StepStubs.Expression.Compile
import StepStubs.Feature.Line
import StepStubs.Feature.Step
import StepStubs.Feature.Extraction
import StepStubs.Step.Compiled
import StepStubs.Step.Set
import StepStubs.Step.Stored
import StepStubs.Stub.TemplateLiteral
import StepStubs.Stub.Definition
import StepStubs.Stub.File
import StepStubs.Run.Failure
import StepStubs.Run.Report
import StepStubs.Run.Summary
import StepStubs.Run.Progress
import StepStubs.Run.World
import StepStubs.Run.Project
import StepStubs.Command.Arguments
import StepStubs.Command.Error
import StepStubs.Command.Generate
import StepStubs.Command.Help
import StepStubs.Command.Program
import StepStubs.Main
import StepStubs.Proofs.Text.Basic
import StepStubs.Proofs.Text.ByteOrder
import StepStubs.Proofs.Text.Escape
import StepStubs.Proofs.Text.Lines
import StepStubs.Proofs.Text.Literal
import StepStubs.Proofs.Text.Numeral
import StepStubs.Proofs.Text.Segments
import StepStubs.Proofs.Path.Components
import StepStubs.Proofs.Path.Extension
import StepStubs.Proofs.Path.Normal
import StepStubs.Proofs.Path.Characters
import StepStubs.Proofs.Path.Relative
import StepStubs.Proofs.Path.NormalForm
import StepStubs.Proofs.Files.Tree
import StepStubs.Proofs.Files.Follow
import StepStubs.Proofs.Files.Change
import StepStubs.Proofs.Files.Directories
import StepStubs.Proofs.Files.Making
import StepStubs.Proofs.Files.Replace
import StepStubs.Proofs.Files.Walk
import StepStubs.Proofs.Files.Discovery
import StepStubs.Proofs.Files.Canonical
import StepStubs.Proofs.Files.Temporary
import StepStubs.Proofs.Files.Atomic
import StepStubs.Proofs.Yaml.Character
import StepStubs.Proofs.Yaml.Block
import StepStubs.Proofs.Yaml.Plain
import StepStubs.Proofs.Yaml.Quoted
import StepStubs.Proofs.Yaml.Scalar
import StepStubs.Proofs.Yaml.Scanner
import StepStubs.Proofs.Config.Expansion
import StepStubs.Proofs.Config.Stored
import StepStubs.Proofs.Config.Reference
import StepStubs.Proofs.Config.RoundTrip
import StepStubs.Proofs.Step.Set
import StepStubs.Proofs.Step.History
import StepStubs.Proofs.Expression.Group
import StepStubs.Proofs.Expression.NumericGroup
import StepStubs.Proofs.Expression.Token
import StepStubs.Proofs.Expression.Legal
import StepStubs.Proofs.Expression.Alternative
import StepStubs.Proofs.Expression.Instance
import StepStubs.Proofs.Expression.Numeral
import StepStubs.Proofs.Expression.Kept
import StepStubs.Proofs.Expression.Quoted
import StepStubs.Proofs.Expression.Inference
import StepStubs.Proofs.Expression.Collapse
import StepStubs.Proofs.Expression.Escaped
import StepStubs.Proofs.Expression.Placeholder
import StepStubs.Proofs.Expression.Structural
import StepStubs.Proofs.Feature.Line
import StepStubs.Proofs.Feature.Extraction
import StepStubs.Proofs.Feature.Concatenation
import StepStubs.Proofs.Feature.Layout
import StepStubs.Proofs.Stub.Reader
import StepStubs.Proofs.Stub.File
import StepStubs.Proofs.Feature.StepText
import StepStubs.Proofs.Stub.StringLiteral
import StepStubs.Proofs.Stub.TemplateLiteral
import StepStubs.Proofs.Run.Action
import StepStubs.Proofs.Run.Header
import StepStubs.Proofs.Run.Output
import StepStubs.Proofs.Run.Loop
import StepStubs.Proofs.Run.Result
import StepStubs.Proofs.Run.ReadOnly
import StepStubs.Proofs.Run.Reported
import StepStubs.Proofs.Run.Summary
import StepStubs.Proofs.Run.Overwritten
import StepStubs.Proofs.Command.Generate
