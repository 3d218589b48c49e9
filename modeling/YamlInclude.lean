import YamlInclude.Text.Blank
import YamlInclude.Text.Quoted
import YamlInclude.Text.Utf8
import YamlInclude.Text.Category
import YamlInclude.Text.CaseFold
import YamlInclude.Json.Printer
import YamlInclude.Json.Parser
import YamlInclude.TagProgram.Request
import YamlInclude.TagProgram.Response
import YamlInclude.TagProgram.Run
import YamlInclude.Shell.Run
import YamlInclude.Text.Lines
import YamlInclude.Yaml.Token.Stream
import YamlInclude.Yaml.Event.Grammar
import YamlInclude.Yaml.Document
import YamlInclude.Yaml.Json
import YamlInclude.Path.Normal
import YamlInclude.Path.Yaml
import YamlInclude.Include.Load
import YamlInclude.Compile.Collect
import YamlInclude.Compile.Batch
import YamlInclude.Settings.Load
import YamlInclude.FileTree.Source
import YamlInclude.Command.Report
import YamlInclude.Command.Log
import YamlInclude.CommandLine.Execution
import YamlInclude.Main
import YamlInclude.Proofs.Resolve
import YamlInclude.Proofs.Load
import YamlInclude.Proofs.Traced
import YamlInclude.Proofs.Chain
import YamlInclude.Proofs.Walk
import YamlInclude.Proofs.Keys
import YamlInclude.Proofs.Merge
import YamlInclude.Proofs.Position
import YamlInclude.Proofs.Transparency
import YamlInclude.Proofs.Extraction
import YamlInclude.Proofs.Context
import YamlInclude.Proofs.Equality
import YamlInclude.Proofs.Invariant
import YamlInclude.Proofs.Expansion
import YamlInclude.Proofs.Numeral
import YamlInclude.Proofs.Target
import YamlInclude.Proofs.Spelling
import YamlInclude.Proofs.Entry
import YamlInclude.Proofs.Untagged
import YamlInclude.Proofs.Entrywise
import YamlInclude.Proofs.Members
import YamlInclude.Proofs.JsonScalar
import YamlInclude.Proofs.JsonText
import YamlInclude.Proofs.KeyOrder
import YamlInclude.Proofs.TagLayers
import YamlInclude.Proofs.Below
import YamlInclude.Proofs.ByteOrder
import YamlInclude.Proofs.Consulted
import YamlInclude.Proofs.ErrorOrigin
import YamlInclude.Proofs.Normal
import YamlInclude.Proofs.Extent
import YamlInclude.Proofs.Batch
import YamlInclude.Proofs.Place
import YamlInclude.Proofs.DepthFirst
import YamlInclude.Proofs.Collect
import YamlInclude.Proofs.Reach
import YamlInclude.Proofs.Change
import YamlInclude.Proofs.Written
import YamlInclude.Proofs.FileName
import YamlInclude.Proofs.JsonPath
import YamlInclude.Proofs.Folding
import YamlInclude.Proofs.Canonical
import YamlInclude.Proofs.Mirrored
import YamlInclude.Proofs.Turns
import YamlInclude.Proofs.Accounting
import YamlInclude.Proofs.Frame
import YamlInclude.Proofs.Failure
import YamlInclude.Proofs.Untorn
import YamlInclude.Proofs.Override
import YamlInclude.Proofs.Commands
import YamlInclude.Proofs.MissedAnchor
import YamlInclude.Proofs.AddedFiles
import YamlInclude.Proofs.Unchanged
import YamlInclude.Proofs.AnchorScan
import YamlInclude.Proofs.Lookup
import YamlInclude.Proofs.Defaults
import YamlInclude.Proofs.JsonDepth
import YamlInclude.Proofs.ResponseLine
import YamlInclude.Proofs.RequestLine
import YamlInclude.Proofs.ProgramData
import YamlInclude.Proofs.Registry
import YamlInclude.Proofs.ReferenceText
import YamlInclude.Proofs.ProjectFile
import YamlInclude.Proofs.NormalForm
import YamlInclude.Proofs.Markers
import YamlInclude.Proofs.ExtractedValue
