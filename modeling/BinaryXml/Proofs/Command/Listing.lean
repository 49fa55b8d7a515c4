import BinaryXml.Command.Listing
import BinaryXml.Proofs.Render.Writing

/-!
# The strings that a listing looks up

Where a string is not there, a listing leaves a note. Here the listing is given how to look strings
up (`listBy`): leaving notes it is `list`, and with look-ups that fail it fails with them. A valid
document never makes it fail, so none of what is printed is a note (`legible_of_valid`).
-/

namespace BinaryXml.Command

/-! ## The listing with its look-ups open -/

section

variable {m : Type → Type} [Monad m]

def describeScopeBy (name : UInt32 → m String) (side : String) (scope : NamespaceScope) :
    m String := do
  let first ← match scope.name with
    | some index => name index
    | none => pure ""
  let uri ← name scope.uri
  return s!"namespace {side}: {first}=" ++ uri

/-- What a listing shows of a chunk's contents, `name` looking up the strings. -/
def describeBy (name : UInt32 → m String) : Chunk → m String
  | .stringPool pool =>
    return s!"string pool: {pool.size} strings, " ++ encodingName pool.encoding
  | .resourceMap ids => return s!"resource map: {ids.length} ids"
  | .startNamespace scope => describeScopeBy name "start" scope
  | .endNamespace scope => describeScopeBy name "end" scope
  | .startTag tag => do
    let started ← name tag.name
    return "<" ++ started ++ s!"> line {tag.line}, {tag.attributes.length} attributes"
  | .endTag tag => do
    let ended ← name tag.name
    return "</" ++ ended ++ ">"
  | .characterData data => do
    let content ← name data.data
    return "text " ++ Text.quoted content
  | .other _ => return "unknown"

open Numeral in
def chunkLineBy (name : UInt32 → m String) (chunk : Chunk) (size : Nat) : m String := do
  let described ← describeBy name chunk
  return typeTag chunk.kind ++ " " ++ padLeft 8 ' ' (toString size) ++ "  " ++ described ++ "\n"

def chunkLinesBy (name : UInt32 → m String) (strings : Bool) (chunk : Chunk) (size : Nat) :
    m String := do
  let line ← chunkLineBy name chunk size
  match chunk with
  | .stringPool pool => return if strings then line ++ String.join (entryLines pool) else line
  | _ => return line

def listOntoBy (name : UInt32 → m String) (strings : Bool) (printed : String) :
    List Chunk → m Outcome
  | [] => return { printed }
  | chunk :: rest =>
    match orFail chunk.size with
    | .error failure => return { printed, failure := some failure }
    | .ok size => do
      let lines ← chunkLinesBy name strings chunk size
      listOntoBy name strings (printed ++ lines) rest

/-- List the binary document in the file `inputName`, `name` looking up the strings of a document.
-/
def listBy (name : ChunkFile → UInt32 → m String) (strings : Bool) (inputName : String)
    (input : Input) : m Outcome :=
  let sized : Except Failure (ChunkFile × Nat) := do
    let file ← readBinary input
    let size ← orFail file.size
    return (file, size)
  match sized with
  | .error failure => return { printed := "", failure := some failure }
  | .ok (file, size) =>
    listOntoBy (name file) strings
      s!"{inputName}: {size} bytes, {file.chunks.length} chunks\n" file.chunks

end

/-! ## Look-ups that find their strings -/

section

variable {m : Type → Type} [Monad m] [LawfulMonad m] {file : ChunkFile}

/-- The look-up finds the strings of a chunk, and without an effect. -/
def FindsIn (name : UInt32 → m String) (file : ChunkFile) (chunk : Chunk) : Prop :=
  ∀ index ∈ chunk.stringRefs, name index = pure (stringOrNote file index)

/-- A scope is described as the listing does when its prefix and its uri are found. -/
theorem describeScopeBy_eq_pure {name : UInt32 → m String} {scope : NamespaceScope}
    (h : FindsIn name file (.startNamespace scope)) (side : String) :
    describeScopeBy name side scope = pure (describeScope file side scope) := by
  obtain ⟨line, comment, first, uri⟩ := scope
  have huri : name uri = pure (stringOrNote file uri) := h uri (by simp [Chunk.stringRefs])
  unfold describeScopeBy describeScope
  cases first with
  | none => simp [huri]
  | some index =>
    have hindex : name index = pure (stringOrNote file index) :=
      h index (by simp [Chunk.stringRefs])
    simp [huri, hindex]

/-- So is any chunk whose strings are found. -/
theorem describeBy_eq_pure {name : UInt32 → m String} {chunk : Chunk}
    (h : FindsIn name file chunk) : describeBy name chunk = pure (describe file chunk) := by
  cases chunk with
  | startNamespace scope | endNamespace scope => exact describeScopeBy_eq_pure h _
  | startTag tag | endTag tag =>
    have hname : name tag.name = pure (stringOrNote file tag.name) :=
      h tag.name (by simp [Chunk.stringRefs])
    rw [describeBy, hname, pure_bind]
    rfl
  | characterData data =>
    have hdata : name data.data = pure (stringOrNote file data.data) :=
      h data.data (by simp [Chunk.stringRefs])
    rw [describeBy, hdata, pure_bind]
    rfl
  -- these show no string
  | stringPool pool | resourceMap ids | other rest => rfl

theorem chunkLinesBy_eq_pure {name : UInt32 → m String} {chunk : Chunk}
    (h : FindsIn name file chunk) (strings : Bool) (size : Nat) :
    chunkLinesBy name strings chunk size = pure (chunkLines strings file chunk size) := by
  have hline : chunkLineBy name chunk size = pure (chunkLine file chunk size) := by
    rw [chunkLineBy, describeBy_eq_pure h, pure_bind]
    rfl
  rw [chunkLinesBy, hline, pure_bind]
  cases chunk <;> rfl

/-- The chunks are listed as the listing does, up to the first whose size does not fit. -/
theorem listOntoBy_eq_pure {name : UInt32 → m String} {chunks : List Chunk}
    (h : ∀ chunk ∈ chunks, FindsIn name file chunk) (strings : Bool) (printed : String) :
    listOntoBy name strings printed chunks = pure (listOnto strings file printed chunks) := by
  induction chunks generalizing printed with
  | nil => rfl
  | cons chunk rest ih =>
    obtain ⟨hchunk, hrest⟩ := List.forall_mem_cons.mp h
    rw [listOntoBy, listOnto]
    cases orFail chunk.size with
    | error failure => rfl
    | ok size =>
      dsimp only
      rw [chunkLinesBy_eq_pure hchunk, pure_bind]
      exact ih hrest _

/-- **A listing whose look-ups find their strings is `list`.** -/
theorem listBy_eq_pure {name : ChunkFile → UInt32 → m String} {input : Input}
    (h : ∀ file, readBinary input = .ok file →
      ∀ chunk ∈ file.chunks, FindsIn (name file) file chunk)
    (strings : Bool) (inputName : String) :
    listBy name strings inputName input = pure (list strings inputName input) := by
  unfold listBy list
  cases hread : readBinary input with
  | error failure => rfl
  | ok file =>
    cases hsize : orFail file.size with
    | error failure => simp only [bind, Except.bind, hsize]
    | ok size =>
      simp only [bind, Except.bind, hsize]
      exact listOntoBy_eq_pure (h file hread) strings _

/-- With notes for the strings that are not there, the listing is `list`. -/
theorem listBy_stringOrNote (strings : Bool) (inputName : String) (input : Input) :
    (listBy (fun file index => pure (stringOrNote file index)) strings inputName input : Id Outcome)
      = list strings inputName input :=
  listBy_eq_pure (fun _ _ _ _ _ _ => rfl) strings inputName

end

/-! ## Valid documents -/

theorem findsIn_of_validate {file : ChunkFile} (h : file.validate = .ok ()) :
    ∀ chunk ∈ file.chunks, FindsIn file.string file chunk := by
  intro chunk hchunk index hindex
  obtain ⟨s, hs⟩ := ChunkFile.finds_of_validate h chunk hchunk index hindex
  have hstring : file.string index = .ok s := hs
  rw [stringOrNote, hstring]
  rfl

/-- The commands read valid documents only. -/
theorem validate_of_readBinary {input : Input} {file : ChunkFile}
    (h : readBinary input = .ok file) : file.validate = .ok () := by
  unfold readBinary at h
  dsimp only at h
  simp only [throw_bind, bind_eq_ok_iff, guard_eq_ok_iff] at h
  obtain ⟨content, -, -, hparse⟩ := h
  -- a file that does not parse is reported, and one that does has been validated
  cases hfile : ChunkFile.parse content with
  | error error =>
    rw [hfile] at hparse
    cases hparse
  | ok found =>
    rw [hfile] at hparse
    cases hparse
    exact (ChunkFile.parse_eq_ok_iff.mp hfile).2

/-- Every string that is wanted of a document is there. -/
structure Legible (file : ChunkFile) : Prop where
  /-- It is rendered as XML text, and writing the text comes to its bytes. -/
  exists_toXml : ∃ text, file.toXml = .ok text ∧ file.writeXml.toBytes = .ok text.toUTF8
  /-- Its chunks are listed the same with look-ups that fail where a string is not there. -/
  listOntoBy_string : ∀ strings printed,
    listOntoBy file.string strings printed file.chunks
      = .ok (listOnto strings file printed file.chunks)

/-- Of a valid document every string is there. -/
theorem legible_of_validate {file : ChunkFile} (h : file.validate = .ok ()) : Legible file where
  exists_toXml := by
    obtain ⟨text, htext⟩ := ChunkFile.exists_toXml h
    refine ⟨text, htext, ?_⟩
    rw [ChunkFile.toBytes_writeXml, htext]
    rfl
  listOntoBy_string := listOntoBy_eq_pure (findsIn_of_validate h)

/-- **Validation covers every look-up.** Valid documents are legible, those that bytes parse as
among them, and no listing of any input leaves a note. -/
theorem legible_of_valid :
    (∀ file : ChunkFile, file.validate = .ok () → Legible file) ∧
      (∀ data file, ChunkFile.parse data = .ok file → Legible file) ∧
      ∀ strings inputName input,
        listBy ChunkFile.string strings inputName input = .ok (list strings inputName input) := by
  refine ⟨fun file => legible_of_validate, fun data file hparse => ?_,
    fun strings inputName input => ?_⟩
  · exact legible_of_validate (ChunkFile.parse_eq_ok_iff.mp hparse).2
  · exact listBy_eq_pure (fun file hfile => findsIn_of_validate (validate_of_readBinary hfile))
      strings inputName

/-- Tags and scopes that do not match, with the pool behind some of them and another pool. -/
def unmatched : ChunkFile where
  chunks := [
    .endTag ⟨1, none, some 1, 0⟩,
    .startNamespace ⟨1, none, some 0, 1⟩,
    .stringPool
      { encoding := .utf8, strings := #["p", "u"], offsets := #[0, 4], dataSize := 8,
        firstIndex := ((∅ : Std.ExtHashMap String UInt32).insert "p" 0).insert "u" 1 },
    .endNamespace ⟨1, none, none, 1⟩,
    .startTag ⟨2, none, some 1, 0, [⟨some 1, 0, none, .string 1⟩], 0, 0, 0⟩,
    .stringPool { encoding := .utf16 },
    .characterData ⟨2, none, 1, ⟨0, 0⟩⟩]

/-- Neither tags nor scopes have to match for that. -/
theorem legible_unmatched : unmatched.validate = .ok () ∧ Legible unmatched :=
  ⟨rfl, legible_of_valid.1 unmatched rfl⟩

end BinaryXml.Command
