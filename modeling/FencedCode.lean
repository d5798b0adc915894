import FencedCode.Block
import FencedCode.Body.Basic
import FencedCode.Body.Directive
import FencedCode.Body.Header
import FencedCode.Body.Tags
import FencedCode.CommandLine.Arguments
import FencedCode.CommandLine.Basic
import FencedCode.Console
import FencedCode.Document.Basic
import FencedCode.Document.Error
import FencedCode.Document.Event
import FencedCode.Document.Segment
import FencedCode.Fence
import FencedCode.Files.Path
import FencedCode.Files.Tree
import FencedCode.Format.Command
import FencedCode.Format.Formatter
import FencedCode.Format.Options
import FencedCode.Format.Report
import FencedCode.Format.Target
import FencedCode.Format.Tidy
import FencedCode.Location
import FencedCode.Main
import FencedCode.Program.Basic
import FencedCode.Program.Script
import FencedCode.Program.Tidy
import FencedCode.Proofs.Artifacts
import FencedCode.Proofs.Closing
import FencedCode.Proofs.Counting
import FencedCode.Proofs.Draft
import FencedCode.Proofs.Feeding
import FencedCode.Proofs.Frame
import FencedCode.Proofs.Grammar
import FencedCode.Proofs.Idempotence
import FencedCode.Proofs.Layout
import FencedCode.Proofs.Lines
import FencedCode.Proofs.Reading
import FencedCode.Proofs.Rereading
import FencedCode.Proofs.Results
import FencedCode.Proofs.Rewriting
import FencedCode.Proofs.Scan
import FencedCode.Proofs.Settling
import FencedCode.Proofs.Space
import FencedCode.Proofs.Structure
import FencedCode.Proofs.Written
import FencedCode.Settings.Basic
import FencedCode.Settings.Discovery
import FencedCode.Settings.Table
import FencedCode.SystemError
import FencedCode.Text.Basic
import FencedCode.Text.Digit
import FencedCode.Text.Line
import FencedCode.Text.Numeral
import FencedCode.Text.Quoted
import FencedCode.Text.Ranges
import FencedCode.Text.Utf8
import FencedCode.Text.Visible
import FencedCode.Text.Word
import FencedCode.Toml.Document
import FencedCode.Toml.Literal
import FencedCode.Toml.Quoted
import FencedCode.Toml.Statement
import FencedCode.Toml.Value
import FencedCode.Toml.Writer
import FencedCode.Update
import FencedCode.Yaml.Event
import FencedCode.Yaml.Node
import FencedCode.Yaml.Number
import FencedCode.Yaml.Scalar
import FencedCode.Yaml.Scan
import FencedCode.Yaml.Token
import FencedCode.Yaml.Value
import FencedCode.Proofs.Dressing
import FencedCode.Proofs.Endings
import FencedCode.Proofs.Nesting
import FencedCode.Proofs.Sources
import FencedCode.Proofs.Decoding
import FencedCode.Proofs.Recording
import FencedCode.Proofs.Sections
import FencedCode.Proofs.Trees
import FencedCode.Proofs.UpdateLoop
import FencedCode.Proofs.Stopping
import FencedCode.Proofs.Independence
import FencedCode.Proofs.Checking
import FencedCode.Proofs.Positions
import FencedCode.Proofs.Unchanged
import FencedCode.Proofs.Weaving
import FencedCode.Proofs.Freezing
import FencedCode.Proofs.TagErrors
import FencedCode.Proofs.Reports
import FencedCode.Proofs.Shape
import FencedCode.Proofs.CodeLines
import FencedCode.Proofs.Brackets
import FencedCode.Proofs.Spacing
import FencedCode.Proofs.Joining
import FencedCode.Proofs.Tidying
import FencedCode.Proofs.Conservation
import FencedCode.Proofs.TomlStrings
import FencedCode.Proofs.TomlValues
import FencedCode.Proofs.TomlTables
import FencedCode.Proofs.SettingsFiles
import FencedCode.Proofs.Indentation
import FencedCode.Proofs.Walking
import FencedCode.Proofs.Nearest
import FencedCode.Proofs.Readers
import FencedCode.Proofs.Cutting
