import BinaryXml.ChunkReader
import BinaryXml.Command.Outcome
import BinaryXml.Compile
import BinaryXml.Markup.Tree
import BinaryXml.Render.Xml

/-!
# Converting single files

The commands that turn one file of XML text into a binary document and one binary document into XML
text.
-/

namespace BinaryXml.Command

/-- The binary document that the XML text of a file compiles to. -/
def compileContent (options : Compile.Options) (input : Input) : Except Failure ByteArray := do
  let content ← read input
  let text ← match Utf8.decode content with
    | .ok text => pure text
    | .error fault => throw { report := "Input is not UTF-8", causes := [fault.message] }
  let file ← orReport "Failed to compile XML" (Document.parse text >>= compile options)
  orFail file.toBytes

/-- Compile the file `inputName` into the file `outputName`; `elapsed` is how long it took. -/
def compile (options : Compile.Options) (inputName outputName elapsed : String)
    (input : Input) : Outcome :=
  let announced := s!"Compiling: {inputName} -> {outputName}\n"
  match compileContent options input with
  | .error failure => { printed := announced, failure := some failure }
  | .ok bytes =>
    { printed := announced ++ s!"Wrote {bytes.size} bytes in {elapsed}\n"
      output := some bytes }

/-- The binary document in a file. -/
def readBinary (input : Input) : Except Failure ChunkFile := do
  let content ← read input
  if !ChunkFile.looksBinary content then
    throw { report := "Input file is not a binary XML file" }
  orReport "Failed to parse binary XML" (ChunkFile.parse content)

/-- The XML text of the binary document in a file. -/
def decodeContent (input : Input) : Except Failure String := do
  let file ← readBinary input
  orReport "Failed to convert to XML" file.toXml

/-- Decode the file `inputName` into the file `outputName`, or print the text. -/
def decode (inputName : String) (outputName : Option String) (input : Input) : Outcome :=
  match decodeContent input, outputName with
  | .error failure, _ => { printed := "", failure := some failure }
  | .ok text, none => { printed := text ++ "\n" }
  | .ok text, some outputName =>
    { printed := s!"Decoded {inputName} -> {outputName}\n", output := some text.toUTF8 }

end BinaryXml.Command
