import Extraction.Base64
import Extraction.Catalog.Build
import Extraction.Catalog.Event
import Extraction.Command.Arguments
import Extraction.Command.Help
import Extraction.Command.Report
import Extraction.Command.Run
import Extraction.Config.Basic
import Extraction.Config.Lookup
import Extraction.Config.Reading
import Extraction.Config.Url
import Extraction.Config.Validation
import Extraction.Config.Writing
import Extraction.FileTree
import Extraction.Host
import Extraction.Json.Document
import Extraction.Json.Failure
import Extraction.Json.Gate
import Extraction.Json.Numeral
import Extraction.Json.OfTree
import Extraction.Json.Printer
import Extraction.Json.Quoted
import Extraction.Json.Value
import Extraction.Main
import Extraction.Number.Binary64
import Extraction.Number.Shortest
import Extraction.Path
import Extraction.Record
import Extraction.Search
import Extraction.Success
import Extraction.Table
import Extraction.Template
import Extraction.Text.Blank
import Extraction.Text.Displayed
import Extraction.Text.Hexadecimal
import Extraction.Text.Invisible
import Extraction.Text.Octets
import Extraction.Tree
import Extraction.Yaml.Characters
import Extraction.Yaml.Cursor
import Extraction.Yaml.Event
import Extraction.Yaml.Fault
import Extraction.Yaml.Node
import Extraction.Yaml.Plain
import Extraction.Yaml.Printer
import Extraction.Yaml.Reading
import Extraction.Yaml.Scalar
import Extraction.Yaml.Style
import Extraction.Yaml.Token.Basic
import Extraction.Yaml.Token.Block
import Extraction.Yaml.Token.Folding
import Extraction.Yaml.Token.Plain
import Extraction.Yaml.Token.Property
import Extraction.Yaml.Token.Quoted
import Extraction.Yaml.Token.Scan
import Extraction.Proofs.Catalog.Offer
import Extraction.Proofs.Table
import Extraction.Proofs.Catalog.Provenance
import Extraction.Proofs.Template.Layout
import Extraction.Proofs.Template.Rendering
import Extraction.Proofs.Json.Numeral
import Extraction.Proofs.Json.Quoted
import Extraction.Proofs.Json.Reading
import Extraction.Proofs.Json.Container
import Extraction.Proofs.Json.RoundTrip
import Extraction.Proofs.Record
import Extraction.Proofs.Catalog.Account
import Extraction.Proofs.Json.Pretty
import Extraction.Proofs.Command.WireForm
import Extraction.Proofs.Json.Phrase
import Extraction.Proofs.Json.Gate.Language
import Extraction.Proofs.Json.Gate.Token
import Extraction.Proofs.Json.Gate.Grammar
import Extraction.Proofs.Json.Gate.Characters
import Extraction.Proofs.Number.Rounding
import Extraction.Proofs.Json.Range
import Extraction.Proofs.Json.Limits
import Extraction.Proofs.Json.Complete
import Extraction.Proofs.Json.Line
import Extraction.Proofs.Json.Agreement
import Extraction.Proofs.Text.Octets
import Extraction.Proofs.Catalog.Listing
import Extraction.Proofs.Catalog.Isolation
import Extraction.Proofs.Catalog.Reordering
import Extraction.Proofs.Command.Description
import Extraction.Proofs.Command.Arguments
import Extraction.Proofs.Command.Agreement
import Extraction.Proofs.Command.Output
import Extraction.Proofs.Command.Payload
import Extraction.Proofs.Path
import Extraction.Proofs.Config.Containment
import Extraction.Proofs.Base64
import Extraction.Proofs.Catalog.Schema
import Extraction.Proofs.Yaml.Content
import Extraction.Proofs.Yaml.Shape
import Extraction.Proofs.Yaml.Plain
import Extraction.Proofs.Yaml.Written
import Extraction.Proofs.Config.Shape
import Extraction.Proofs.Config.Priority
import Extraction.Proofs.Config.RoundTrip
import Extraction.Proofs.Config.KeyOrder
import Extraction.Proofs.Template.Staging
import Extraction.Proofs.Template.Diagnosis
import Extraction.Proofs.Config.Violation
import Extraction.Proofs.Json.Depth
import Extraction.Proofs.Record.Elements
import Extraction.Proofs.Text.Pattern
import Extraction.Proofs.Config.Url
import Extraction.Proofs.Catalog.Lossless
import Extraction.Proofs.Json.Spelling
import Extraction.Proofs.Record.Members
