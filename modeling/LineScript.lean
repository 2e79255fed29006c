import LineScript.Bytes
import LineScript.Calendar
import LineScript.Text.Utf8
import LineScript.Text.Blank
import LineScript.Text.Printable
import LineScript.Text.Quoted
import LineScript.Text.Base64
import LineScript.Diagnostic
import LineScript.Word.Basic
import LineScript.Word.Operator
import LineScript.Word.Scan
import LineScript.Word.Tokenize
import LineScript.Statement.Expression
import LineScript.Statement.Keyword
import LineScript.Statement.Shape
import LineScript.Line
import LineScript.Stream
import LineScript.Source
import LineScript.Settings.Basic
import LineScript.Journal
import LineScript.Number.Binary64
import LineScript.Number.Shortest
import LineScript.Number.Notation
import LineScript.Number.Literal
import LineScript.Image.Cell
import LineScript.Image.Basic
import LineScript.Image.Verify
import LineScript.Image.Listing
import LineScript.Image.Writer
import LineScript.Image.Reader
import LineScript.Builder
import LineScript.Toml.Quoted
import LineScript.Toml.Numeral
import LineScript.Toml.Document
import LineScript.Toml.Table
import LineScript.Yaml.Characters
import LineScript.Yaml.Cursor
import LineScript.Yaml.Token
import LineScript.Yaml.ScalarText
import LineScript.Yaml.TokenStream
import LineScript.Yaml.Node
import LineScript.Yaml.Scalar
import LineScript.Yaml.Mapping
import LineScript.Settings.Decode
import LineScript.Casebook.Block
import LineScript.Casebook.Case
import LineScript.Proofs.Bytes.Numeral
import LineScript.Proofs.Bytes.Order
import LineScript.Proofs.Number.Shortest
import LineScript.Proofs.Text.Pieces
import LineScript.Proofs.Text.OneLine
import LineScript.Proofs.Number.Literal
import LineScript.Proofs.Number.RoundTrip
import LineScript.Proofs.Number.Positional
import LineScript.Proofs.Image.Parts
import LineScript.Proofs.Image.RoundTrip
import LineScript.Proofs.Image.Contents
import LineScript.Proofs.Source.Scope
import LineScript.Proofs.Word.Enclosed
import LineScript.Proofs.Word.OnePass
import LineScript.Proofs.Statement.Expression
import LineScript.Proofs.Statement.LongestPhrase
import LineScript.Proofs.Statement.InPlace
import LineScript.Proofs.Statement.Validation
import LineScript.Proofs.Image.Canonical
import LineScript.Proofs.Image.TableOrder
import LineScript.Proofs.Image.Verification
import LineScript.Proofs.Image.Truncation
import LineScript.Proofs.Image.FailingStream
import LineScript.Proofs.Builder.Edits
import LineScript.Proofs.Builder.Writable
import LineScript.Proofs.Word.WellFormed
import LineScript.Proofs.Word.Rendering
import LineScript.Proofs.Word.TextRendering
import LineScript.Proofs.Word.Admissible
import LineScript.Proofs.Source.Linewise
import LineScript.Proofs.Image.ListingRows
import LineScript.Proofs.Image.FromListing
import LineScript.Proofs.Image.Annotations
import LineScript.Proofs.Builder.Calls
import LineScript.Proofs.Builder.Interning
import LineScript.Proofs.Builder.Resolution
import LineScript.Proofs.Builder.ResolvedNumbers
import LineScript.Proofs.Builder.Discipline
import LineScript.Proofs.Builder.Tables
import LineScript.Proofs.Builder.Rearrangement
import LineScript.Proofs.Builder.Positions
import LineScript.Proofs.Builder.SourceMarks
import LineScript.Proofs.Word.Comments
import LineScript.Proofs.Word.LetterCase
import LineScript.Proofs.Word.Cursor
import LineScript.Proofs.Word.Progress
import LineScript.Proofs.Source.BlankLines
import LineScript.Proofs.Source.LineEndings
import LineScript.Proofs.Source.Strictness
import LineScript.Proofs.Settings.TextLimits
import LineScript.Proofs.Word.TextLimit
import LineScript.Proofs.Casebook.Chapters
import LineScript.Proofs.Casebook.Extraction
