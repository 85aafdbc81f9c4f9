import NodeSchema.Alias
import NodeSchema.Calendar
import NodeSchema.CommandLine
import NodeSchema.Config
import NodeSchema.Crawl
import NodeSchema.Decimal.Binary64
import NodeSchema.Decimal.Shortest
import NodeSchema.Declaration.Basic
import NodeSchema.Declaration.Printer
import NodeSchema.Declaration.Recognize
import NodeSchema.Extraction
import NodeSchema.Failure
import NodeSchema.Feature.Basic
import NodeSchema.Feature.Cfg
import NodeSchema.Feature.Gate
import NodeSchema.FileTree
import NodeSchema.Host
import NodeSchema.Json.Printer
import NodeSchema.Json.Reader
import NodeSchema.Json.Value
import NodeSchema.Log
import NodeSchema.Main
import NodeSchema.Manifest
import NodeSchema.Path
import NodeSchema.Proofs.Alias
import NodeSchema.Proofs.Alias.Chain
import NodeSchema.Proofs.Alias.Renames
import NodeSchema.Proofs.Alias.Respaced
import NodeSchema.Proofs.Alike
import NodeSchema.Proofs.Config
import NodeSchema.Proofs.Crawl.Aliases
import NodeSchema.Proofs.Crawl.Declarations
import NodeSchema.Proofs.Crawl.Deferral
import NodeSchema.Proofs.Crawl.Depth
import NodeSchema.Proofs.Crawl.Findings
import NodeSchema.Proofs.Crawl.Frame
import NodeSchema.Proofs.Crawl.Gates
import NodeSchema.Proofs.Crawl.Order
import NodeSchema.Proofs.Crawl.Reading
import NodeSchema.Proofs.Crawl.Walk
import NodeSchema.Proofs.Decimal.Rounding
import NodeSchema.Proofs.Decimal.Shortest
import NodeSchema.Proofs.Declaration
import NodeSchema.Proofs.Declaration.Agreement
import NodeSchema.Proofs.Declaration.Alone
import NodeSchema.Proofs.Declaration.Call
import NodeSchema.Proofs.Declaration.Entries
import NodeSchema.Proofs.Declaration.Hidden
import NodeSchema.Proofs.Declaration.Place
import NodeSchema.Proofs.Declaration.RoundTrip
import NodeSchema.Proofs.Extraction
import NodeSchema.Proofs.Extraction.Faults
import NodeSchema.Proofs.Extraction.Growth
import NodeSchema.Proofs.Failure
import NodeSchema.Proofs.Feature.Cfg
import NodeSchema.Proofs.Feature.Combine
import NodeSchema.Proofs.Feature.Merge
import NodeSchema.Proofs.FileTree
import NodeSchema.Proofs.FileTree.Growth
import NodeSchema.Proofs.Json.Number
import NodeSchema.Proofs.Json.Plain
import NodeSchema.Proofs.Json.Readable
import NodeSchema.Proofs.Json.RoundTrip
import NodeSchema.Proofs.Layout.Agreement
import NodeSchema.Proofs.Layout.Basic
import NodeSchema.Proofs.Layout.Rust
import NodeSchema.Proofs.Layout.Spelling
import NodeSchema.Proofs.Order
import NodeSchema.Proofs.Reports
import NodeSchema.Proofs.Result
import NodeSchema.Proofs.Run.Check
import NodeSchema.Proofs.Run.Faults
import NodeSchema.Proofs.Run.Frame
import NodeSchema.Proofs.Rust.Cursor
import NodeSchema.Proofs.Rust.Entry
import NodeSchema.Proofs.Rust.Grammar.Basic
import NodeSchema.Proofs.Rust.Grammar.Item
import NodeSchema.Proofs.Rust.Grammar.PlainType
import NodeSchema.Proofs.Rust.Grammar.Type
import NodeSchema.Proofs.Rust.Grammar.Value
import NodeSchema.Proofs.Rust.Grouping
import NodeSchema.Proofs.Rust.Lexeme.Extent
import NodeSchema.Proofs.Rust.Lexeme.Run
import NodeSchema.Proofs.Rust.Moved
import NodeSchema.Proofs.Rust.Moving
import NodeSchema.Proofs.Rust.OneItem
import NodeSchema.Proofs.Rust.Parser
import NodeSchema.Proofs.Rust.PathText
import NodeSchema.Proofs.Rust.Place
import NodeSchema.Proofs.Rust.PlainType
import NodeSchema.Proofs.Rust.Respaced
import NodeSchema.Proofs.Rust.Single
import NodeSchema.Proofs.Rust.Snippet
import NodeSchema.Proofs.Rust.Spelled
import NodeSchema.Proofs.Rust.Token
import NodeSchema.Proofs.Rust.Tokens
import NodeSchema.Proofs.Rust.TypeTree
import NodeSchema.Proofs.Rust.Unplaced
import NodeSchema.Proofs.Rust.Within
import NodeSchema.Proofs.Schema.Agreement
import NodeSchema.Proofs.Schema.Closed
import NodeSchema.Proofs.Schema.Feature
import NodeSchema.Proofs.Schema.Growth
import NodeSchema.Proofs.Schema.Lookup
import NodeSchema.Proofs.Schema.Members
import NodeSchema.Proofs.Schema.Opaque
import NodeSchema.Proofs.Schema.Order
import NodeSchema.Proofs.Schema.Proper
import NodeSchema.Proofs.Schema.RoundTrip
import NodeSchema.Proofs.Schema.Validation
import NodeSchema.Proofs.Schema.Written
import NodeSchema.Proofs.Spelling.Balance
import NodeSchema.Proofs.Spelling.Bijection
import NodeSchema.Proofs.Spelling.Comment
import NodeSchema.Proofs.Spelling.Coverage
import NodeSchema.Proofs.Spelling.Gap
import NodeSchema.Proofs.Spelling.Group
import NodeSchema.Proofs.Spelling.Inverse
import NodeSchema.Proofs.Spelling.Offset
import NodeSchema.Proofs.Spelling.Place
import NodeSchema.Proofs.Spelling.Rules
import NodeSchema.Proofs.Spelling.TopLevel
import NodeSchema.Proofs.Table
import NodeSchema.Proofs.Text.Boundary
import NodeSchema.Proofs.Text.Newlines
import NodeSchema.Proofs.Text.PathName
import NodeSchema.Proofs.Text.Position
import NodeSchema.Proofs.Text.Utf8
import NodeSchema.Run
import NodeSchema.Rust.Attribute
import NodeSchema.Rust.Cursor
import NodeSchema.Rust.Grammar.Basic
import NodeSchema.Rust.Grammar.File
import NodeSchema.Rust.Grammar.Item
import NodeSchema.Rust.Grammar.Type
import NodeSchema.Rust.Grammar.Value
import NodeSchema.Rust.Item
import NodeSchema.Rust.Lexeme
import NodeSchema.Rust.Parser
import NodeSchema.Rust.Single
import NodeSchema.Rust.Snippet
import NodeSchema.Rust.Source
import NodeSchema.Rust.Tree
import NodeSchema.Rust.TypeExpr
import NodeSchema.Rust.TypeNode
import NodeSchema.Schema.Assemble
import NodeSchema.Schema.Basic
import NodeSchema.Schema.Introspect
import NodeSchema.Schema.Json
import NodeSchema.Schema.Read
import NodeSchema.Schema.Written
import NodeSchema.Spelling.File
import NodeSchema.Spelling.Lexeme
import NodeSchema.Spelling.Table
import NodeSchema.Table
import NodeSchema.Text.Base64
import NodeSchema.Text.Blank
import NodeSchema.Text.IdentChar
import NodeSchema.Text.Newlines
import NodeSchema.Text.PathName
import NodeSchema.Text.Position
import NodeSchema.Text.Printable
import NodeSchema.Text.Quoted
import NodeSchema.Text.Ranges
import NodeSchema.Text.Utf8
import NodeSchema.Text.WordChar
import NodeSchema.Toml.Document
import NodeSchema.Toml.Reader
import NodeSchema.Toml.Value
import NodeSchema.Yaml.Document
import NodeSchema.Yaml.Input
import NodeSchema.Yaml.Layout
import NodeSchema.Yaml.Lexeme
import NodeSchema.Yaml.Node
import NodeSchema.Yaml.Reader
import NodeSchema.Yaml.Scalar.Block
import NodeSchema.Yaml.Scalar.Number
import NodeSchema.Yaml.Scalar.Plain
import NodeSchema.Yaml.Scalar.Quoted
import NodeSchema.Yaml.Tag
import NodeSchema.Yaml.Timestamp
import NodeSchema.Yaml.Value
