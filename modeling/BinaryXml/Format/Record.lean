import BinaryXml.Bytes.Layout

/-!
# The records of the binary format

Every chunk starts with a `ChunkHeader`. A string pool continues it to a `PoolHeader`, the chunks
of the tree to a `NodeHeader` with an extension record of their own. All of them are written as
they stand here; what their fields mean is up to the chunks that hold them.
-/

namespace BinaryXml

/-! ### Type tags -/
namespace ChunkType

/-- A pool of strings. -/
def stringPool : UInt16 := 0x0001

/-- A whole document. -/
def document : UInt16 := 0x0003

def startNamespace : UInt16 := 0x0100

def endNamespace : UInt16 := 0x0101

def startTag : UInt16 := 0x0102

def endTag : UInt16 := 0x0103

def characterData : UInt16 := 0x0104

/-- The resource identifiers of attribute names. -/
def resourceMap : UInt16 := 0x0180

/-- The tags of the chunks that a document may hold and that are interpreted there. -/
def interpreted : List UInt16 :=
  [stringPool, startNamespace, endNamespace, startTag, endTag, characterData, resourceMap]

end ChunkType

/-- What an optional string index holds when it refers to nothing. -/
def noIndex : UInt32 := 0xFFFFFFFF

/-- An optional string index as it is stored. -/
def storeIndex (index : Option UInt32) : UInt32 :=
  index.getD noIndex

/-- The optional string index that is stored as a word. -/
def loadIndex (word : UInt32) : Option UInt32 :=
  if word = noIndex then none else some word

/-- The header of every chunk. -/
structure ChunkHeader where
  kind : UInt16
  /-- The size of the header, the fields of the chunk's own type included. -/
  headerSize : UInt16
  /-- The size of the whole chunk. -/
  size : UInt32
  deriving DecidableEq, Repr

/-- A chunk header is two 16-bit words and a 32-bit word. -/
def ChunkHeader.layout : Layout ChunkHeader :=
  (Layout.u16.pair (Layout.u16.pair .u32)).convert
    (fun (kind, headerSize, size) => ⟨kind, headerSize, size⟩)
    (fun h => (h.kind, h.headerSize, h.size)) (fun _ => rfl)

/-- The header of a string pool. -/
structure PoolHeader where
  chunk : ChunkHeader
  stringCount : UInt32
  styleCount : UInt32
  /-- The flags, of which `PoolHeader.utf8Flag` matters. -/
  flags : UInt32
  /-- The offset of the string data in the chunk. -/
  stringsStart : UInt32
  /-- The offset of the style data in the chunk. -/
  stylesStart : UInt32
  deriving DecidableEq, Repr

/-- The flag of a pool whose strings are stored as UTF-8. -/
def PoolHeader.utf8Flag : UInt32 := 0x100

/-- A pool header is a chunk header and five words. -/
def PoolHeader.layout : Layout PoolHeader :=
  (ChunkHeader.layout.pair (Layout.u32.pair (Layout.u32.pair
      (Layout.u32.pair (Layout.u32.pair .u32))))).convert
    (fun (chunk, stringCount, styleCount, flags, stringsStart, stylesStart) =>
      ⟨chunk, stringCount, styleCount, flags, stringsStart, stylesStart⟩)
    (fun h => (h.chunk, h.stringCount, h.styleCount, h.flags, h.stringsStart, h.stylesStart))
    (fun _ => rfl)

/-- The header of every chunk of the tree. -/
structure NodeHeader where
  chunk : ChunkHeader
  /-- The line that the node comes from. -/
  line : UInt32
  /-- The string index of a comment, or `noIndex`. -/
  comment : UInt32
  deriving DecidableEq, Repr

/-- A node header is a chunk header and two words. -/
def NodeHeader.layout : Layout NodeHeader :=
  (ChunkHeader.layout.pair (Layout.u32.pair .u32)).convert
    (fun (chunk, line, comment) => ⟨chunk, line, comment⟩)
    (fun h => (h.chunk, h.line, h.comment)) (fun _ => rfl)

/-- The extension record of a namespace's start or end. -/
structure NamespaceRecord where
  /-- The string index of the prefix, or `noIndex`. -/
  name : UInt32
  /-- The string index of the uri. -/
  uri : UInt32
  deriving DecidableEq, Repr

/-- A namespace record is two words. -/
def NamespaceRecord.layout : Layout NamespaceRecord :=
  (Layout.u32.pair .u32).convert (fun (name, uri) => ⟨name, uri⟩)
    (fun r => (r.name, r.uri)) (fun _ => rfl)

/-- The extension record of a start tag, ahead of its attribute records. -/
structure StartTagRecord where
  /-- The string index of the element's namespace, or `noIndex`. -/
  uri : UInt32
  /-- The string index of the element's name. -/
  name : UInt32
  /-- The offset of the first attribute record in this record. -/
  attributeStart : UInt16
  /-- The distance from one attribute record to the next. -/
  attributeSize : UInt16
  attributeCount : UInt16
  /-- The place of the `id` attribute counted from one, or zero. -/
  idIndex : UInt16
  /-- The place of the `class` attribute counted from one, or zero. -/
  classIndex : UInt16
  /-- The place of the `style` attribute counted from one, or zero. -/
  styleIndex : UInt16
  deriving DecidableEq, Repr

/-- A start tag record is two 32-bit and six 16-bit words. -/
def StartTagRecord.layout : Layout StartTagRecord :=
  (Layout.u32.pair (Layout.u32.pair (Layout.u16.pair (Layout.u16.pair
      (Layout.u16.pair (Layout.u16.pair (Layout.u16.pair .u16))))))).convert
    (fun (uri, name, start, size, count, idIndex, classIndex, styleIndex) =>
      ⟨uri, name, start, size, count, idIndex, classIndex, styleIndex⟩)
    (fun r => (r.uri, r.name, r.attributeStart, r.attributeSize, r.attributeCount,
      r.idIndex, r.classIndex, r.styleIndex))
    (fun _ => rfl)

/-- The extension record of an end tag. -/
structure EndTagRecord where
  /-- The string index of the element's namespace, or `noIndex`. -/
  uri : UInt32
  /-- The string index of the element's name. -/
  name : UInt32
  deriving DecidableEq, Repr

/-- An end tag record is two words. -/
def EndTagRecord.layout : Layout EndTagRecord :=
  (Layout.u32.pair .u32).convert (fun (uri, name) => ⟨uri, name⟩)
    (fun r => (r.uri, r.name)) (fun _ => rfl)

/-- The record of a typed value. -/
structure ValueRecord where
  /-- The size of this record. -/
  size : UInt16
  /-- A byte without a meaning. -/
  reserved : UInt8
  kind : UInt8
  data : UInt32
  deriving DecidableEq, Repr

/-- A value record is a 16-bit word, two bytes and a 32-bit word. -/
def ValueRecord.layout : Layout ValueRecord :=
  (Layout.u16.pair (Layout.u8.pair (Layout.u8.pair .u32))).convert
    (fun (size, reserved, kind, data) => ⟨size, reserved, kind, data⟩)
    (fun r => (r.size, r.reserved, r.kind, r.data)) (fun _ => rfl)

/-- The extension record of character data. -/
structure CharacterDataRecord where
  /-- The string index of the text. -/
  data : UInt32
  value : ValueRecord
  deriving DecidableEq, Repr

/-- A character data record is a word and a value record. -/
def CharacterDataRecord.layout : Layout CharacterDataRecord :=
  (Layout.u32.pair ValueRecord.layout).convert (fun (data, value) => ⟨data, value⟩)
    (fun r => (r.data, r.value)) (fun _ => rfl)

structure AttributeRecord where
  /-- The string index of the attribute's namespace, or `noIndex`. -/
  uri : UInt32
  /-- The string index of the attribute's name. -/
  name : UInt32
  /-- The string index of the value as it was written, or `noIndex`. -/
  rawValue : UInt32
  value : ValueRecord
  deriving DecidableEq, Repr

/-- An attribute record is three words and a value record. -/
def AttributeRecord.layout : Layout AttributeRecord :=
  (Layout.u32.pair (Layout.u32.pair (Layout.u32.pair ValueRecord.layout))).convert
    (fun (uri, name, rawValue, value) => ⟨uri, name, rawValue, value⟩)
    (fun r => (r.uri, r.name, r.rawValue, r.value)) (fun _ => rfl)

end BinaryXml
