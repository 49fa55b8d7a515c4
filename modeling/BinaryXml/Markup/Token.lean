import BinaryXml.Markup.Fault
import BinaryXml.Text.Blank
import BinaryXml.Text.Split

/-!
# Tokens of XML text

XML text is a sequence of tokens: tags, texts, sections of character data, comments, and the
declarations and instructions that say nothing about the tree. A token is found by its ends alone;
what is inside a tag is looked at later. Each token carries the offset of its first byte. White
space around a text belongs to no token.
-/

namespace BinaryXml.Markup

inductive Token where
  /-- A start tag, without its angle brackets. -/
  | startTag (content : List Char)
  /-- The tag of an element without content, without its brackets and its slash. -/
  | emptyTag (content : List Char)
  /-- An end tag's name. -/
  | endTag (name : List Char)
  /-- A text, its references not replaced. -/
  | text (raw : List Char)
  | cdata (content : List Char)
  | comment (content : List Char)
  /-- A processing instruction or an XML declaration. -/
  | instruction (content : List Char)
  | doctype (content : List Char)
  deriving DecidableEq, Repr

/-- The rest of a text that is being read, with the offset of its first byte. -/
structure Place where
  /-- What is still to be read. -/
  rest : List Char
  /-- The number of bytes before it. -/
  offset : Nat

structure Located where
  /-- The offset of the first byte. -/
  offset : Nat
  token : Token
  deriving DecidableEq

/-! ### Ends of markup -/

/-- What stands before the bracket that ends a tag, and what stands behind it. Brackets in quotes
count for nothing; `quote` is the quote that is open. -/
def splitTag (quote : Option Char) (done : List Char) :
    List Char → Option (List Char × List Char)
  | [] => none
  | c :: rest =>
    match quote with
    | some q => splitTag (if c = q then none else quote) (c :: done) rest
    | none =>
      if c = '>' then some (done.reverse, rest)
      else splitTag (if c = '\'' || c = '"' then some c else none) (c :: done) rest

/-- What stands before the bracket that ends an instruction, and what stands behind it: the first
one after a question mark, and `previous` is the character just before. -/
def splitInstruction (previous : Char) (done : List Char) :
    List Char → Option (List Char × List Char)
  | [] => none
  | c :: rest =>
    if c = '>' ∧ previous = '?' then some (done.reverse, rest)
    else splitInstruction c (c :: done) rest

/-- What stands before the bracket that ends a document type declaration, and what stands behind it:
the one that no bracket opened inside of it, of which `depth` are open. -/
def splitDoctype (depth : Nat) (done : List Char) : List Char → Option (List Char × List Char)
  | [] => none
  | c :: rest =>
    if c = '<' then splitDoctype (depth + 1) (c :: done) rest
    else if c = '>' then
      match depth with
      | 0 => some (done.reverse, rest)
      | depth + 1 => splitDoctype depth (c :: done) rest
    else splitDoctype depth (c :: done) rest

/-! ### One token -/

/-- A token with what follows it, or what is wrong with the markup. -/
abbrev Scan := Except Fault (Token × Place)

/-- Scan a section of character data, whose `<` is at `start`; `rest` begins with its `[`. -/
def scanCdata (start : Nat) (rest : List Char) : Scan :=
  match (Text.dropFront? "[CDATA[".toList rest).bind (Text.split? "]]>".toList) with
  | some (content, behind) =>
    .ok (.cdata content, ⟨behind, start + 12 + Text.byteLength content⟩)
  | none => .error (.malformed start .cdataNotClosed)

/-- Scan a comment, whose `<` is at `start`; `rest` begins with its first dash. -/
def scanComment (start : Nat) (rest : List Char) : Scan :=
  match (Text.dropFront? "--".toList rest).bind (Text.split? "-->".toList) with
  | some (content, behind) =>
    .ok (.comment content, ⟨behind, start + 7 + Text.byteLength content⟩)
  | none => .error (.malformed start .commentNotClosed)

/-- Whether a text begins with `DOCTYPE` in any case. -/
def startsDoctype (text : List Char) : Bool :=
  (text.take 7).map Char.toUpper = "DOCTYPE".toList

/-- Scan a document type declaration, whose `<` is at `start`; `rest` begins with its `D`. A
declaration that names no type is reported at its end. -/
def scanDoctype (start : Nat) (rest : List Char) : Scan :=
  match splitDoctype 0 [] rest with
  | some (content, behind) =>
    if startsDoctype content then
      let stop := start + 2 + Text.byteLength content
      if (content.drop 7).all Text.isMarkupSpace then
        .error (.malformed stop .doctypeUnnamed)
      else .ok (.doctype content, ⟨behind, stop + 1⟩)
    else .error (.malformed start .doctypeNotClosed)
  | none => .error (.malformed start .doctypeNotClosed)

/-- Scan an instruction, whose `<` is at `start`, from behind its first question mark, which does
not end it. -/
def scanInstruction (start : Nat) (rest : List Char) : Scan :=
  match splitInstruction '?' [] rest with
  | some (content, behind) =>
    if content.isEmpty then .error (.malformed start .instructionNotClosed)
    else .ok (.instruction content, ⟨behind, start + 3 + Text.byteLength content⟩)
  | none => .error (.malformed start .instructionNotClosed)

/-- A text without the white space at its end. -/
def trimEnd (text : List Char) : List Char :=
  (text.reverse.dropWhile Text.isMarkupSpace).reverse

/-- The name in an end tag of the given content. White space behind a name is no part of it, but
content that is nothing but white space is a name as it stands. -/
def endTagName (content : List Char) : List Char :=
  if content.all Text.isMarkupSpace then content else trimEnd content

/-- Scan an end tag, whose `<` is at `start`, from behind its slash. -/
def scanEndTag (start : Nat) (rest : List Char) : Scan :=
  match splitTag none [] rest with
  | some (content, behind) =>
    .ok (.endTag (endTagName content), ⟨behind, start + 3 + Text.byteLength content⟩)
  | none => .error (.malformed start .tagNotClosed)

/-- Scan a start tag or the tag of an element without content, whose `<` is at `start`. -/
def scanTag (start : Nat) (rest : List Char) : Scan :=
  match splitTag none [] rest with
  | some (content, behind) =>
    let place : Place := ⟨behind, start + 2 + Text.byteLength content⟩
    if content.getLast? = some '/' then .ok (.emptyTag content.dropLast, place)
    else .ok (.startTag content, place)
  | none => .error (.malformed start .tagNotClosed)

/-- Scan a piece of markup, whose `<` is at `start`, from behind it. -/
def scanMarkup (start : Nat) : List Char → Scan
  | '!' :: rest =>
    match rest with
    | '[' :: _ => scanCdata start rest
    | '-' :: _ => scanComment start rest
    | 'D' :: _ | 'd' :: _ => scanDoctype start rest
    | _ => .error (.malformed start .unknownMarkup)
  | '?' :: rest => scanInstruction start rest
  | '/' :: rest => scanEndTag start rest
  | rest => scanTag start rest

/-- A place behind the white space at its front. -/
def Place.skipSpace (place : Place) : Place :=
  let space := place.rest.takeWhile Text.isMarkupSpace
  ⟨place.rest.dropWhile Text.isMarkupSpace, place.offset + Text.byteLength space⟩

/-- The token at the front of a text that does not start with white space, and what follows it, or
nothing at the end. -/
def scan (place : Place) : Except Fault (Option (Located × Place)) :=
  match place.rest with
  | [] => .ok none
  | '<' :: rest => do
    let (token, behind) ← scanMarkup place.offset rest
    return some (⟨place.offset, token⟩, behind)
  | c :: rest =>
    let text := c :: rest.takeWhile (· ≠ '<')
    .ok (some (⟨place.offset, .text (trimEnd text)⟩,
      ⟨rest.dropWhile (· ≠ '<'), place.offset + Text.byteLength text⟩))

end BinaryXml.Markup
