import BinaryXml.Proofs.Compile.Encodings
import BinaryXml.Proofs.Compile.Order
import BinaryXml.Proofs.File.Sizes
import Mathlib.Algebra.GroupWithZero.Nat

/-!
# The size of a compiled document

How many bytes a document compiles to is counted without compiling it (`Document.compiledSize`).
What is built of an event has a size of its own, so the tags are counted along the trace and then
along the tree (`sum_traceAll`). If the whole fits into 32 bits, the file is written and has this
many bytes (`size_of_compile`).
-/

namespace BinaryXml

/-- The number of attributes in a document that do not declare a namespace. -/
def Document.attributeCount (document : Document) : Nat :=
  (document.openTags.map fun tag => tag.ordinary.length).sum

/-- The number of bytes that a document compiles to: the headers of the file and of its pool, the
offset and the entry of every distinct string, the entries filled up to a multiple of four, the
start and the end of a scope for every distinct declaration, and for every element its two tags and
its attributes. -/
def Document.compiledSize (encoding : StringEncoding) (document : Document) : Nat :=
  8 + 28 + 4 * document.collected.eraseDups.length
    + (StringPool.entriesSize encoding document.collected.eraseDups + 3) / 4 * 4
    + 48 * document.declarations.eraseDups.length + 60 * document.openTags.length
    + 20 * document.attributeCount

namespace Compile

variable {unbound : UnboundPolicy} {collected : Collection}

/-! ## The tags -/

/-- What the tags of an event come to. -/
def eventExtent : WalkEvent → Nat
  | .start tag => 36 + 20 * tag.ordinary.length
  | .declaration _ _ => 0
  | .finish _ _ => 24

/-- What is built of an event has the extent of the event. -/
theorem extent_of_build {event : WalkEvent} {chunks : List Chunk}
    (h : build unbound collected event = .ok chunks) :
    (chunks.map Chunk.extent).sum = eventExtent event := by
  cases event with
  | start tag =>
    obtain ⟨built, hbuilt, rfl⟩ := map_eq_ok_iff.mp h
    obtain ⟨attributes, name, hattributes, -, -, rfl⟩ := buildStartTag_eq_ok_iff.mp hbuilt
    rw [List.map_singleton, List.sum_singleton, Chunk.extent, eventExtent, hattributes.length_eq]
  | declaration name uri =>
    cases h
    rfl
  | finish name line =>
    obtain ⟨index, -, rfl⟩ := map_eq_ok_iff.mp h
    rfl

/-- What is built of some events has their extents together. -/
theorem extent_of_buildAll {events : List WalkEvent} {chunks : List Chunk}
    (h : buildAll unbound collected events = .ok chunks) :
    (chunks.map Chunk.extent).sum = (events.map eventExtent).sum := by
  induction events generalizing chunks with
  | nil =>
    cases h
    rfl
  | cons event rest ih =>
    obtain ⟨front, back, hfront, hback, rfl⟩ := buildAll_cons_eq_ok_iff.mp h
    rw [List.map_append, List.sum_append, extent_of_build hfront, ih hback, List.map_cons,
      List.sum_cons]

/-- What the two tags of an element come to. -/
def tagsExtent (tag : OpenTag) : Nat :=
  60 + 20 * tag.ordinary.length

mutual

/-- Along a node its events come to what its elements come to. -/
theorem sum_trace : ∀ node : Node,
    (node.trace.map eventExtent).sum = (node.openTags.map tagsExtent).sum
  | .element name attributes children line => by
    have hchildren := sum_traceAll children
    -- declarations are built into nothing
    have hdeclarations (declared : List (String × String)) :
        ((declared.map fun (name, uri) => WalkEvent.declaration name uri).map eventExtent).sum
          = 0 := by
      simp [Function.comp_def, eventExtent]
    rw [Node.trace, Node.openTags, List.map_append, List.map_append, List.sum_append,
      List.sum_append, List.map_cons, List.sum_cons, hdeclarations, hchildren, List.map_singleton,
      List.sum_singleton, List.map_cons, List.sum_cons, eventExtent, eventExtent, tagsExtent]
    omega
  | .text _ => rfl
  | .comment _ => rfl

theorem sum_traceAll : ∀ nodes,
    ((traceAll nodes).map eventExtent).sum = ((openTagsAll nodes).map tagsExtent).sum
  | [] => rfl
  | node :: rest => by
    rw [traceAll, openTagsAll, List.map_append, List.map_append, List.sum_append, List.sum_append,
      sum_trace node, sum_traceAll rest]

end

/-- The tags are counted by the elements and the attributes of the document. -/
theorem sum_tagsExtent (document : Document) :
    (document.openTags.map tagsExtent).sum
      = 60 * document.openTags.length + 20 * document.attributeCount := by
  rw [Document.attributeCount]
  induction document.openTags with
  | nil => rfl
  | cons tag rest ih =>
    rw [List.map_cons, List.sum_cons, ih, tagsExtent, List.length_cons, List.map_cons,
      List.sum_cons]
    omega

/-! ## The whole -/

/-- A file comes to its header, its pool, two chunks for every scope, and its tags. -/
theorem extent_assemble (chunks : List Chunk) :
    (assemble collected chunks.toArray).extent
      = 8 + (Chunk.stringPool collected.pool).extent
        + 48 * collected.namespaces.bindings.length + (chunks.map Chunk.extent).sum := by
  have hstarts (scopes : List NamespaceScope) :
      ((scopes.map Chunk.startNamespace).map Chunk.extent).sum = 24 * scopes.length := by
    simp [Function.comp_def, Chunk.extent, Nat.mul_comm]
  have hends (scopes : List NamespaceScope) :
      ((scopes.map Chunk.endNamespace).map Chunk.extent).sum = 24 * scopes.length := by
    simp [Function.comp_def, Chunk.extent, Nat.mul_comm]
  rw [assemble, ChunkFile.extent]
  dsimp only
  rw [List.cons_append, List.cons_append, List.map_cons, List.sum_cons, List.map_append,
    List.map_append, List.sum_append, List.sum_append, hstarts, hends, List.length_reverse,
    List.length_map]
  omega

variable {document : Document} {options : Options} {file : ChunkFile}

/-- What a compiled file comes to is counted on its document. -/
theorem extent_of_compile (h : compile options document = .ok file) :
    file.extent = document.compiledSize options.encoding := by
  obtain ⟨collected, chunks, hcollected, hchunks, rfl⟩ := compile_eq_ok_iff.mp h
  have hstrings : collected.pool.strings.toList = document.collected.eraseDups := by
    rw [strings_of_collection hcollected, eraseDups_stringsOf]
  have hsize : collected.pool.size = document.collected.eraseDups.length := by
    rw [← hstrings, Array.length_toList, StringPool.size]
  -- the entries in the pool are those of the distinct strings
  have hdata : collected.pool.dataSize
      = StringPool.entriesSize options.encoding document.collected.eraseDups := by
    rw [(built_of_collection hcollected).wellFormed.dataSize_eq, hstrings,
      encoding_of_collection hcollected]
  have hbindings : collected.namespaces.bindings.length
      = document.declarations.eraseDups.length := by
    rw [NamespaceTable.bindings, declared_of_collection hcollected, List.length_map,
      List.length_map]
  have hheader : StringPool.headerSize = 28 := rfl
  rw [extent_assemble, Chunk.extent, hsize, hdata, hbindings, extent_of_buildAll hchunks,
    Document.trace, sum_traceAll, ← Document.openTags, sum_tagsExtent, hheader,
    Document.compiledSize]
  omega

/-- A compiled file is written when what it comes to fits into 32 bits. -/
theorem exists_toBytes_iff_of_compile (h : compile options document = .ok file) :
    (∃ data, file.toBytes = .ok data) ↔ file.extent < UInt32.size := by
  have hcounts := attributeCount_le_of_compile h
  constructor
  · rintro ⟨data, hdata⟩
    obtain ⟨total, -, htotal, -, -⟩ := ChunkFile.toBytes_eq_ok_iff.mp hdata
    exact (ChunkFile.size_eq_ok_iff.mp htotal).1
  · intro hfits
    have hsize := ChunkFile.size_eq_ok_iff.mpr ⟨hfits, rfl⟩
    rcases ChunkFile.toBytes_eq_ok_or_chunkTooLarge hcounts with ⟨_, data, -, hdata⟩ | ⟨herror, -⟩
    · exact ⟨data, hdata⟩
    · rw [hsize] at herror
      cases herror

/-- **The size of a compiled document** is known from the document: as long as it fits into 32 bits,
the file is written, and it has just this many bytes. -/
theorem size_of_compile (h : compile options document = .ok file) :
    ((∃ data, file.toBytes = .ok data) ↔
      document.compiledSize options.encoding < UInt32.size) ∧
    ∀ data, file.toBytes = .ok data → data.size = document.compiledSize options.encoding := by
  have hchunks : ∀ chunk ∈ file.chunks, chunk.WellFormed :=
    fun chunk hchunk => (representable_of_compile h chunk hchunk).wellFormed
  rw [← extent_of_compile h]
  refine ⟨exists_toBytes_iff_of_compile h, fun data hdata => ?_⟩
  have hsize := (ChunkFile.sizedAs_of_toBytes hchunks hdata).size_eq
  exact (ChunkFile.size_eq_ok_iff.mp hsize).2

/-- The document comes to 592 bytes, and as many are written. -/
theorem size_of_compile_nested :
    ∃ file data, compile { unbound := .sentinel } nested = .ok file ∧ file.toBytes = .ok data ∧
      data.size = 592 := by
  obtain ⟨file, hfile⟩ := exists_compile_nested
  obtain ⟨hwritten, hsize⟩ := size_of_compile hfile
  have hcounted : Document.compiledSize .utf8 nested = 592 := by decide +kernel
  obtain ⟨data, hdata⟩ := hwritten.mpr (by rw [hcounted]; decide)
  exact ⟨file, data, hfile, hdata, (hsize data hdata).trans hcounted⟩

end Compile

end BinaryXml
