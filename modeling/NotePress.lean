import NotePress.Cache
import NotePress.Cli.Arguments
import NotePress.Cli.Basic
import NotePress.Cli.Failure
import NotePress.Cli.Request
import NotePress.Collection.Basic
import NotePress.Collection.Memory
import NotePress.Collection.Vault
import NotePress.CommandLine
import NotePress.Conversion.Basic
import NotePress.Conversion.Command
import NotePress.Conversion.Error
import NotePress.Conversion.Prepared
import NotePress.Data.Basic
import NotePress.Diagnostic
import NotePress.Disk.Basic
import NotePress.Disk.Path
import NotePress.Document.Id
import NotePress.Document.Order
import NotePress.Expansion
import NotePress.Format
import NotePress.Json.Reader
import NotePress.Json.Writer
import NotePress.Link.Path
import NotePress.Link.Reference
import NotePress.Link.Resolver
import NotePress.Lint
import NotePress.Lowering.Attributes
import NotePress.Lowering.Directive
import NotePress.Lowering.Language
import NotePress.Lowering.Pass
import NotePress.Main
import NotePress.Note.Embed
import NotePress.Note.Fence
import NotePress.Note.Line
import NotePress.Note.Section
import NotePress.Number.Floating
import NotePress.Number.Layout
import NotePress.Number.Rounding
import NotePress.Number.Shortest
import NotePress.Preamble
import NotePress.Process.Basic
import NotePress.Process.Concatenate
import NotePress.Process.FileName
import NotePress.Process.Limit
import NotePress.Process.Machine
import NotePress.Process.Rehearsal
import NotePress.Process.Stream
import NotePress.Process.Task
import NotePress.Process.Utility
import NotePress.Profile.Basic
import NotePress.Profile.Codec
import NotePress.Proofs.ActiveEntry
import NotePress.Proofs.Anew
import NotePress.Proofs.Arrangement
import NotePress.Proofs.BlockScan
import NotePress.Proofs.BlockTokens
import NotePress.Proofs.Copying
import NotePress.Proofs.Cycle
import NotePress.Proofs.Decimals
import NotePress.Proofs.Digits
import NotePress.Proofs.Enclosure
import NotePress.Proofs.FenceBodies
import NotePress.Proofs.Fencing
import NotePress.Proofs.FlowScan
import NotePress.Proofs.FlowTokens
import NotePress.Proofs.FoldedReferences
import NotePress.Proofs.Footprint
import NotePress.Proofs.Joining
import NotePress.Proofs.JsonLexemes
import NotePress.Proofs.JsonNodes
import NotePress.Proofs.JsonReading
import NotePress.Proofs.JsonRecords
import NotePress.Proofs.JsonStores
import NotePress.Proofs.JsonTokens
import NotePress.Proofs.LeftMargin
import NotePress.Proofs.Leftovers
import NotePress.Proofs.LineLocal
import NotePress.Proofs.LineNumbers
import NotePress.Proofs.LineReports
import NotePress.Proofs.ListedProfiles
import NotePress.Proofs.Lists
import NotePress.Proofs.LiteralScan
import NotePress.Proofs.Passes
import NotePress.Proofs.Paths
import NotePress.Proofs.Pictures
import NotePress.Proofs.QuotedScan
import NotePress.Proofs.Reading
import NotePress.Proofs.Remembering
import NotePress.Proofs.Reports
import NotePress.Proofs.Rounding
import NotePress.Proofs.ScalarStyles
import NotePress.Proofs.Scanning
import NotePress.Proofs.SettingsFiles
import NotePress.Proofs.Shelter
import NotePress.Proofs.SortedIds
import NotePress.Proofs.Splicing
import NotePress.Proofs.StoredDocuments
import NotePress.Proofs.Termination
import NotePress.Proofs.Validity
import NotePress.Proofs.Weaving
import NotePress.Proofs.WrittenFiles
import NotePress.Proofs.YamlNodes
import NotePress.Proofs.YamlStores
import NotePress.Proofs.YamlTokens
import NotePress.Shell.Action
import NotePress.Shell.Arithmetic
import NotePress.Shell.Builtin
import NotePress.Shell.Builtin.Argument
import NotePress.Shell.Builtin.Control
import NotePress.Shell.Builtin.Directory
import NotePress.Shell.Builtin.Lookup
import NotePress.Shell.Builtin.Permission
import NotePress.Shell.Builtin.Setting
import NotePress.Shell.Call
import NotePress.Shell.Condition
import NotePress.Shell.Expansion
import NotePress.Shell.Field
import NotePress.Shell.Input
import NotePress.Shell.Job
import NotePress.Shell.Launch
import NotePress.Shell.Pattern
import NotePress.Shell.Printing
import NotePress.Shell.Redirect
import NotePress.Shell.Run
import NotePress.Shell.Script
import NotePress.Shell.Session
import NotePress.Shell.Signal
import NotePress.Shell.Start
import NotePress.Shell.Syntax
import NotePress.Store.Basic
import NotePress.Store.Error
import NotePress.Store.Event
import NotePress.Store.Persistence
import NotePress.Text.Basic
import NotePress.Text.Blank
import NotePress.Text.Case
import NotePress.Text.CaseTable
import NotePress.Text.Digit
import NotePress.Text.LineCount
import NotePress.Text.Octets
import NotePress.Text.Scan
import NotePress.Text.Utf8
import NotePress.Text.Word
import NotePress.Warning
import NotePress.Weaving
import NotePress.Yaml.Cursor
import NotePress.Yaml.Link
import NotePress.Yaml.Node
import NotePress.Yaml.Reader
import NotePress.Yaml.Resolution
import NotePress.Yaml.Scalar
import NotePress.Yaml.Token
import NotePress.Yaml.Writer
import NotePress.Proofs.Calls
import NotePress.Proofs.CommandWords
import NotePress.Proofs.Deliveries
import NotePress.Proofs.Settling
import NotePress.Proofs.Changes
import NotePress.Proofs.Edits
import NotePress.Proofs.InPlace
import NotePress.Proofs.KeptSites
import NotePress.Proofs.LeftmostFences
import NotePress.Proofs.Lines
import NotePress.Proofs.CopiedLines
import NotePress.Proofs.Headings
import NotePress.Proofs.LowerCase
import NotePress.Proofs.NameMatches
import NotePress.Proofs.SectionFences
import NotePress.Proofs.Sections
import NotePress.Proofs.WrittenNames
import NotePress.Proofs.PreambleForm
import NotePress.Proofs.PreambleLines
import NotePress.Proofs.CountedLines
import NotePress.Proofs.Trimming
import NotePress.Proofs.AttributeBlocks
import NotePress.Proofs.NestedQuotes
import NotePress.Proofs.Occurrences
import NotePress.Proofs.Listings
import NotePress.Proofs.BlockWords
import NotePress.Proofs.FigureBlocks
import NotePress.Proofs.PassedArguments
import NotePress.Proofs.MessageLines
import NotePress.Proofs.RenderedReferences
import NotePress.Proofs.ListedFiles
import NotePress.Proofs.Bytes
import NotePress.Proofs.FrontMatter
import NotePress.Proofs.UnifiedBreaks
