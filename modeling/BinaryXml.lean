import BinaryXml.Bytes.Layout
import BinaryXml.Bytes.Cursor
import BinaryXml.Bytes.Sink
import BinaryXml.Text.Utf8
import BinaryXml.Text.Utf16
import BinaryXml.Text.Numeral
import BinaryXml.Markup.Fault
import BinaryXml.Error
import BinaryXml.Format.Record
import BinaryXml.StringPool.Entry
import BinaryXml.StringPool.Basic
import BinaryXml.StringPool.Format
import BinaryXml.Namespace
import BinaryXml.Document.Basic
import BinaryXml.Document.Walk
import BinaryXml.Chunk.Basic
import BinaryXml.Chunk.Write
import BinaryXml.Chunk.Read
import BinaryXml.File
import BinaryXml.ChunkReader
import BinaryXml.Compile
import BinaryXml.Text.Blank
import BinaryXml.Text.Quoted
import BinaryXml.Text.Split
import BinaryXml.Markup.Token
import BinaryXml.Markup.Lexer
import BinaryXml.Markup.Tree
import BinaryXml.Render.Xml
import BinaryXml.Command.Listing
import BinaryXml.Command.Tree
import BinaryXml.Command.Directory
import BinaryXml.Main
import BinaryXml.Proofs.Bytes.Writing
import BinaryXml.Proofs.Bytes.Truncation
import BinaryXml.Proofs.Bytes.Reading
import BinaryXml.Proofs.Text.Utf16
import BinaryXml.Proofs.Format.Record
import BinaryXml.Proofs.StringPool.Entry
import BinaryXml.Proofs.StringPool.Placed
import BinaryXml.Proofs.StringPool.Invariant
import BinaryXml.Proofs.Except
import BinaryXml.Proofs.Repeats
import BinaryXml.Proofs.StringPool.Adding
import BinaryXml.Proofs.StringPool.Format
import BinaryXml.Proofs.Chunk.Read
import BinaryXml.Proofs.Chunk.Format
import BinaryXml.Proofs.Chunk.RoundTrip
import BinaryXml.Proofs.Chunk.Run
import BinaryXml.Proofs.File.Format
import BinaryXml.Proofs.File.RoundTrip
import BinaryXml.Proofs.Document.Walk
import BinaryXml.Proofs.Namespace
import BinaryXml.Proofs.Compile.Collection
import BinaryXml.Proofs.Compile.Bindings
import BinaryXml.Proofs.Compile.Building
import BinaryXml.Proofs.File.Forest
import BinaryXml.Proofs.Compile.Tree
import BinaryXml.Proofs.Compile.Hoisting
import BinaryXml.Proofs.File.Failing
import BinaryXml.Proofs.Compile.Sound
import BinaryXml.Proofs.Document.Names
import BinaryXml.Proofs.Render.Tags
import BinaryXml.Proofs.Compile.Rendering
import BinaryXml.Proofs.Trapping.Decoding
import BinaryXml.Proofs.Trapping.Pool
import BinaryXml.Proofs.Trapping.Run
import BinaryXml.Proofs.StringPool.Failing
import BinaryXml.Proofs.Chunk.Failing
import BinaryXml.Proofs.File.Refusing
import BinaryXml.Proofs.Trapping.Safety
import BinaryXml.Proofs.Compile.Kept
import BinaryXml.Proofs.StringPool.Filling
import BinaryXml.Proofs.Compile.Lookups
import BinaryXml.Proofs.File.Sizes
import BinaryXml.Proofs.Render.Lookups
import BinaryXml.Proofs.Render.Writing
import BinaryXml.Proofs.File.Truncation
import BinaryXml.Proofs.Command.Listing
import BinaryXml.Proofs.Command.Recognition
import BinaryXml.Proofs.Command.Tree
import BinaryXml.Proofs.Command.Batch
import BinaryXml.Proofs.Command.Directory
import BinaryXml.Proofs.Chunk.Locality
import BinaryXml.Proofs.File.Tiling
import BinaryXml.Proofs.File.Cutting
import BinaryXml.Proofs.File.Window
import BinaryXml.Proofs.Compile.Encodings
import BinaryXml.Proofs.Compile.Policies
import BinaryXml.Proofs.Compile.Order
import BinaryXml.Proofs.Render.Tree
import BinaryXml.Proofs.Compile.Events
import BinaryXml.Proofs.Chunk.Alike
import BinaryXml.Proofs.Render.Alike
import BinaryXml.Proofs.Chunk.StartTag
import BinaryXml.Proofs.Chunk.StringPool
import BinaryXml.Proofs.Document.Stopping
import BinaryXml.Proofs.File.Frame
import BinaryXml.Proofs.Render.Scopes
import BinaryXml.Proofs.Render.Declarations
import BinaryXml.Proofs.Compile.Size
import BinaryXml.Proofs.Document.Pieces
import BinaryXml.Proofs.Markup.Attributes
import BinaryXml.Proofs.Markup.Tree
import BinaryXml.Proofs.Trapping.Requests
import BinaryXml.Proofs.Markup.LineMap
import BinaryXml.Proofs.Markup.Lexer
import BinaryXml.Proofs.Markup.Lines
