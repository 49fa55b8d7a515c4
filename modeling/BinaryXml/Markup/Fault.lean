/-!
# Faults of XML text

Everything that can be wrong with XML text, each with its report: faults of a piece of markup,
of an attribute, of a reference, and of the document as a whole.
-/

namespace BinaryXml.Markup

/-- A fault of a piece of markup, which starts at some `<`. -/
inductive SyntaxFault where
  /-- After `<!` stands none of the kinds of markup there are. -/
  | unknownMarkup
  /-- A processing instruction or declaration without its `?>`. -/
  | instructionNotClosed
  /-- A comment without its `-->`. -/
  | commentNotClosed
  /-- A document type declaration whose brackets do not balance. -/
  | doctypeNotClosed
  /-- A section of character data without its `]]>`. -/
  | cdataNotClosed
  /-- A tag without its `>`. -/
  | tagNotClosed
  /-- A document type declaration that names no type. -/
  | doctypeUnnamed
  /-- A close tag where no element is open. -/
  | closeTagUnopened (name : String)
  /-- A close tag for another element than the innermost open one. -/
  | closeTagMismatch (expected found : String)
  deriving DecidableEq, Repr

def SyntaxFault.message : SyntaxFault → String
  | unknownMarkup => "syntax error: unknown or missed symbol in markup"
  | instructionNotClosed =>
    "syntax error: processing instruction or xml declaration not closed: "
      ++ "`?>` not found before end of input"
  | commentNotClosed =>
    "syntax error: comment not closed: `-->` not found before end of input"
  | doctypeNotClosed =>
    "syntax error: DOCTYPE not closed: `>` not found before end of input"
  | cdataNotClosed =>
    "syntax error: CDATA not closed: `]]>` not found before end of input"
  | tagNotClosed => "syntax error: tag not closed: `>` not found before end of input"
  | doctypeUnnamed =>
    "ill-formed document: `<!DOCTYPE>` declaration does not contain a name of a document type"
  | closeTagUnopened name =>
    s!"ill-formed document: close tag `</{name}>` does not match any open tag"
  | closeTagMismatch expected found =>
    s!"ill-formed document: expected `</{expected}>`, but `</{found}>` was found"

/-- A fault of an attribute; positions are byte offsets in the content of its tag. -/
inductive AttributeFault where
  /-- No `=` follows a key. -/
  | equalsExpected (position : Nat)
  /-- A key that the tag already has. -/
  | duplicate (position previous : Nat)
  /-- Nothing follows the `=`. -/
  | valueExpected (position : Nat)
  /-- What follows the `=` is no quote. -/
  | valueUnquoted (position : Nat)
  /-- The closing quote of a value is missing. -/
  | quoteExpected (position : Nat) (quote : Char)
  deriving DecidableEq, Repr

def AttributeFault.message : AttributeFault → String
  | equalsExpected position =>
    s!"position {position}: attribute key must be directly followed by `=` or space"
  | duplicate position previous =>
    s!"position {position}: duplicated attribute, "
      ++ s!"previous declaration at position {previous}"
  | valueExpected position =>
    s!"position {position}: `=` must be followed by an attribute value"
  | valueUnquoted position =>
    s!"position {position}: attribute value must be enclosed in `\"` or `'`"
  | quoteExpected position quote =>
    s!"position {position}: missing closing quote `{quote}` in attribute value"

/-- A fault of a character reference's number. -/
inductive NumberFault where
  /-- The number has a sign. -/
  | signed
  /-- There is no number. -/
  | empty
  /-- A character that is no digit. -/
  | invalidDigit
  /-- The number does not fit into 32 bits. -/
  | tooLarge
  /-- The number is zero, which is no character of XML. -/
  | zero
  /-- The number is that of no character. -/
  | notCharacter (code : Nat)
  deriving DecidableEq, Repr

def NumberFault.message : NumberFault → String
  | signed => "unexpected number sign"
  | empty => "cannot parse integer from empty string"
  | invalidDigit => "invalid digit found in string"
  | tooLarge => "number too large to fit in target type"
  | zero => "0x0 character is not permitted in XML"
  | notCharacter code => s!"`{code}` is not a valid codepoint"

/-- A fault of a reference; places are byte offsets in the text or value that holds it. -/
inductive ReferenceFault where
  /-- An `&` without its `;`, in a text of the given size. -/
  | semicolonMissing (start size : Nat)
  /-- A name that no entity has, with the range of the name. -/
  | unknownEntity (start stop : Nat) (name : String)
  /-- A character reference with a faulty number. -/
  | invalidNumber (fault : NumberFault)
  deriving DecidableEq, Repr

def ReferenceFault.message : ReferenceFault → String
  | semicolonMissing start size =>
    s!"Error while escaping character at range {start}..{size}: Cannot find ';' after '&'"
  | unknownEntity start stop name => s!"at {start}..{stop}: unrecognized entity `{name}`"
  | invalidNumber fault => "invalid character reference: " ++ fault.message

/-- A fault of XML text, read or written. -/
inductive Fault where
  /-- A piece of markup is wrong; `offset` is that of the byte reported. -/
  | malformed (offset : Nat) (fault : SyntaxFault)
  /-- An attribute is wrong. -/
  | faultyAttribute (fault : AttributeFault)
  /-- A reference is wrong. -/
  | faultyReference (fault : ReferenceFault)
  /-- The text ends inside an element. -/
  | unclosedElement (name : String)
  /-- The text holds no element. -/
  | noElement
  /-- The text did not fit where it was written. -/
  | outOfRoom
  deriving DecidableEq, Repr

def Fault.message : Fault → String
  | malformed offset fault => s!"XML parse error at byte {offset}: " ++ fault.message
  | faultyAttribute fault => fault.message
  | faultyReference fault => fault.message
  | unclosedElement name => s!"unclosed element <{name}>"
  | noElement => "no root element found in XML"
  | outOfRoom => "failed to write whole buffer"

end BinaryXml.Markup
