import BinaryXml.StringPool.Basic
import BinaryXml.Format.Record

/-!
# Chunks

A binary document is a list of chunks: a string pool, the starts and ends of namespace scopes, the
tags and the character data of the tree, a map of resource identifiers, and chunks of other types,
which are kept as they are. All strings are indices into the string pool.
-/

namespace BinaryXml

/-- A typed value: a type and four bytes of data. -/
structure Value where
  kind : UInt8
  data : UInt32
  deriving DecidableEq, Repr

namespace Value

/-- The type of a value that refers to a string. -/
def stringKind : UInt8 := 0x03

def string (index : UInt32) : Value :=
  ⟨stringKind, index⟩

/-- The string that a value refers to, if it is of that type. -/
def stringIndex? (value : Value) : Option UInt32 :=
  if value.kind = stringKind then some value.data else none

def toRecord (value : Value) : ValueRecord :=
  ⟨8, 0, value.kind, value.data⟩

def ofRecord (record : ValueRecord) : Value :=
  ⟨record.kind, record.data⟩

end Value

structure Attribute where
  /-- The string index of the namespace. -/
  uri : Option UInt32
  /-- The string index of the local name. -/
  name : UInt32
  /-- The string index of the value as it was written. -/
  rawValue : Option UInt32
  value : Value
  deriving DecidableEq, Repr

namespace Attribute

def toRecord (attr : Attribute) : AttributeRecord :=
  ⟨storeIndex attr.uri, attr.name, storeIndex attr.rawValue, attr.value.toRecord⟩

def ofRecord (record : AttributeRecord) : Attribute :=
  ⟨loadIndex record.uri, record.name, loadIndex record.rawValue, .ofRecord record.value⟩

/-- The strings that an attribute refers to. -/
def stringRefs (attr : Attribute) : List UInt32 :=
  attr.uri.toList ++ [attr.name] ++ attr.rawValue.toList ++ attr.value.stringIndex?.toList

end Attribute

/-- The start or the end of a namespace's scope. -/
structure NamespaceScope where
  line : UInt32
  /-- The string index of a comment. -/
  comment : Option UInt32
  /-- The string index of the prefix. -/
  name : Option UInt32
  /-- The string index of the uri. -/
  uri : UInt32
  deriving DecidableEq, Repr

structure StartTag where
  line : UInt32
  /-- The string index of a comment. -/
  comment : Option UInt32
  /-- The string index of the element's namespace. -/
  uri : Option UInt32
  /-- The string index of the element's name. -/
  name : UInt32
  attributes : List Attribute
  /-- The place of the `id` attribute counted from one, or zero. -/
  idIndex : UInt16
  /-- The place of the `class` attribute counted from one, or zero. -/
  classIndex : UInt16
  /-- The place of the `style` attribute counted from one, or zero. -/
  styleIndex : UInt16
  deriving DecidableEq, Repr

structure EndTag where
  line : UInt32
  /-- The string index of a comment. -/
  comment : Option UInt32
  /-- The string index of the element's namespace. -/
  uri : Option UInt32
  /-- The string index of the element's name. -/
  name : UInt32
  deriving DecidableEq, Repr

structure CharacterData where
  line : UInt32
  /-- The string index of a comment. -/
  comment : Option UInt32
  /-- The string index of the text. -/
  data : UInt32
  value : Value
  deriving DecidableEq, Repr

/-- Bytes are compared as arrays. -/
instance decidableEqByteArray : DecidableEq ByteArray := ByteArray.instDecidableEq

/-- A chunk of a type that is not interpreted. -/
structure OtherChunk where
  kind : UInt16
  /-- The size of the header as the chunk declares it. -/
  headerSize : UInt16
  /-- The bytes behind the eight of the common header. -/
  body : ByteArray
  deriving DecidableEq

/-- A chunk of a document. -/
inductive Chunk where
  | stringPool (pool : StringPool)
  /-- Resource identifiers of the attribute names at the front of the string pool. -/
  | resourceMap (ids : List UInt32)
  | startNamespace (scope : NamespaceScope)
  | endNamespace (scope : NamespaceScope)
  | startTag (tag : StartTag)
  | endTag (tag : EndTag)
  | characterData (data : CharacterData)
  | other (chunk : OtherChunk)
  deriving DecidableEq

namespace Chunk

def kind : Chunk → UInt16
  | stringPool _ => ChunkType.stringPool
  | resourceMap _ => ChunkType.resourceMap
  | startNamespace _ => ChunkType.startNamespace
  | endNamespace _ => ChunkType.endNamespace
  | startTag _ => ChunkType.startTag
  | endTag _ => ChunkType.endTag
  | characterData _ => ChunkType.characterData
  | other chunk => chunk.kind

/-- The strings that a chunk refers to, in the order of its fields. -/
def stringRefs : Chunk → List UInt32
  | stringPool _ => []
  | resourceMap _ => []
  | startNamespace scope | endNamespace scope =>
    scope.comment.toList ++ scope.name.toList ++ [scope.uri]
  | startTag tag =>
    tag.comment.toList ++ tag.uri.toList ++ [tag.name]
      ++ tag.attributes.flatMap Attribute.stringRefs
  | endTag tag => tag.comment.toList ++ tag.uri.toList ++ [tag.name]
  | characterData data =>
    data.comment.toList ++ [data.data] ++ data.value.stringIndex?.toList
  | other _ => []

end Chunk

end BinaryXml
