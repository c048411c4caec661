import LocaleKeys.Bundle
import LocaleKeys.CallSite.Arguments
import LocaleKeys.CallSite.Scan
import LocaleKeys.Collection
import LocaleKeys.CommandLine.Arguments
import LocaleKeys.CommandLine.Run
import LocaleKeys.CommandLine.Usage
import LocaleKeys.Comparison
import LocaleKeys.Config.Basic
import LocaleKeys.Config.Json
import LocaleKeys.Config.Search
import LocaleKeys.DefinedKeys
import LocaleKeys.Files.Path
import LocaleKeys.Files.Selection
import LocaleKeys.Files.Tree
import LocaleKeys.Glob.Pattern
import LocaleKeys.Glob.Search
import LocaleKeys.Issue
import LocaleKeys.Json.Printer
import LocaleKeys.Json.Reader
import LocaleKeys.Json.Token
import LocaleKeys.Json.Value
import LocaleKeys.Key
import LocaleKeys.Log
import LocaleKeys.Main
import LocaleKeys.Markup.Character
import LocaleKeys.Markup.CharacterData
import LocaleKeys.Markup.Document
import LocaleKeys.Markup.Lookup
import LocaleKeys.Markup.Namespace
import LocaleKeys.Markup.Piece
import LocaleKeys.Markup.Tag
import LocaleKeys.Project
import LocaleKeys.Proofs.CallSite.Item
import LocaleKeys.Proofs.CallSite.Opening
import LocaleKeys.Proofs.CallSite.Scan
import LocaleKeys.Proofs.Cursor
import LocaleKeys.Properties.Entry
import LocaleKeys.Properties.Escape
import LocaleKeys.Properties.LogicalLine
import LocaleKeys.Report.Json
import LocaleKeys.Report.Style
import LocaleKeys.Report.Text
import LocaleKeys.SortedMap
import LocaleKeys.Source.LineIndex
import LocaleKeys.Source.Position
import LocaleKeys.Text.CodeUnit
import LocaleKeys.Text.DisplayWidth
import LocaleKeys.Text.Lines
import LocaleKeys.Text.Lowercase
import LocaleKeys.Text.Quoted
import LocaleKeys.Text.Ranges
import LocaleKeys.Text.Space
import LocaleKeys.Text.Unprintable
import LocaleKeys.Text.WidthRanges
import LocaleKeys.Text.Word
import LocaleKeys.UsedKeys
import LocaleKeys.Proofs.CallSite.Passes
import LocaleKeys.Proofs.Key
import LocaleKeys.Proofs.Properties.RawKey
import LocaleKeys.Proofs.SortedMap
import LocaleKeys.Proofs.Attempts
import LocaleKeys.Proofs.Properties.KeyLine
import LocaleKeys.Proofs.DefinedKeys
import LocaleKeys.Proofs.Mending
import LocaleKeys.Proofs.Collection
import LocaleKeys.Proofs.Sorting
import LocaleKeys.Proofs.Gate
import LocaleKeys.Proofs.Properties.Escaping
import LocaleKeys.Proofs.Properties.Encoding
import LocaleKeys.Proofs.Properties.UnitEscapes
import LocaleKeys.Proofs.Merging
import LocaleKeys.Proofs.Independence
import LocaleKeys.Proofs.Bytes
import LocaleKeys.Proofs.Accounting
import LocaleKeys.Proofs.CallSite.Concatenation
import LocaleKeys.Proofs.Files.Path
import LocaleKeys.Proofs.Files.Tree
import LocaleKeys.Proofs.Glob.Search
import LocaleKeys.Proofs.Files.Selection
import LocaleKeys.Proofs.Config.Search
import LocaleKeys.Proofs.ReportOrder
import LocaleKeys.Proofs.CallSite.LineEndings
import LocaleKeys.Proofs.Json.RoundTrip
import LocaleKeys.Proofs.Report.Contents
import LocaleKeys.Proofs.Config.Json
import LocaleKeys.Proofs.Files.Growth
import LocaleKeys.Proofs.Init
import LocaleKeys.Proofs.CallSite.Balance
import LocaleKeys.Proofs.CallSite.Reading
import LocaleKeys.Proofs.CallSite.FirstArgument
import LocaleKeys.Proofs.CallSite.Insertion
import LocaleKeys.Proofs.Glob.Ways
import LocaleKeys.Proofs.Glob.Joined
import LocaleKeys.Proofs.Files.Includes
import LocaleKeys.Proofs.Properties.LineNumbers
import LocaleKeys.Proofs.Properties.Composition
import LocaleKeys.Proofs.Properties.Wrapping
import LocaleKeys.Proofs.CallSite.KeyErrors
import LocaleKeys.Proofs.Markup.CharacterData
import LocaleKeys.Proofs.Markup.Declaration
import LocaleKeys.Proofs.Markup.Piece
import LocaleKeys.Proofs.Markup.Content
import LocaleKeys.Proofs.Markup.Comment
import LocaleKeys.Proofs.Definitions
import LocaleKeys.Proofs.Files.Selected
import LocaleKeys.Proofs.Definable
import LocaleKeys.Proofs.Properties.Splitting
import LocaleKeys.Proofs.CallSite.Pointing
import LocaleKeys.Proofs.Source.LineIndex
import LocaleKeys.Proofs.Report.Gutter
import LocaleKeys.Proofs.Report.Carets
import LocaleKeys.Proofs.Log
