import BinaryXml.Error

/-!
# Writing into bounded room

A `Sink` is where bytes are written: it keeps what it was given and may have room for a limited
number of bytes. A piece that does not fit is kept as far as it fits, and the write fails, so
whatever happens the sink holds a prefix of what an unbounded one would hold. A `Writing` is an
action on a sink, and what was written before a failure stays written.
-/

namespace BinaryXml

/-- Where bytes are written. -/
structure Sink where
  /-- The bytes written so far. -/
  stored : ByteArray := .empty
  /-- The number of bytes that still fit, or nothing when all do. -/
  room : Option Nat := none

/-- A write: it fills a sink and may fail part-way. -/
abbrev Writing := EStateM Error Sink

/-- The bytes in a sink after a write, and how the write ended. -/
structure Written where
  /-- The bytes that arrived. -/
  stored : ByteArray
  /-- The error that stopped the write, if one did. -/
  failure : Option Error

namespace Writing

/-- Write one piece of bytes; `full` is the error when the sink runs out of room. -/
def put (full : Error) (piece : ByteArray) : Writing Unit := fun sink =>
  match sink.room with
  | none => .ok () { sink with stored := sink.stored ++ piece }
  | some room =>
    if piece.size ≤ room then
      .ok () { stored := sink.stored ++ piece, room := some (room - piece.size) }
    else
      .error full { stored := sink.stored ++ piece.extract 0 room, room := some 0 }

/-- Write one piece of a binary document. -/
def bytes (piece : ByteArray) : Writing Unit :=
  put .outOfRoom piece

def record {α : Type} (layout : Layout α) (value : α) : Writing Unit :=
  bytes (layout.encode value).toByteArray

/-- Write one piece of XML text. -/
def text (piece : String) : Writing Unit :=
  put (.xml .outOfRoom) piece.toUTF8

/-- Write for each member of a list in turn. -/
def each {α : Type} (write : α → Writing Unit) : List α → Writing Unit
  | [] => pure ()
  | a :: rest => do
    write a
    each write rest

/-- The outcome of a write into a fresh sink with the given room. -/
def runIn (write : Writing Unit) (room : Option Nat) : Written :=
  match write { room } with
  | .ok _ sink => ⟨sink.stored, none⟩
  | .error error sink => ⟨sink.stored, some error⟩

/-- The bytes of a write that nothing limits. -/
def toBytes (write : Writing Unit) : Except Error ByteArray :=
  match write {} with
  | .ok _ sink => .ok sink.stored
  | .error error _ => .error error

end Writing

end BinaryXml
