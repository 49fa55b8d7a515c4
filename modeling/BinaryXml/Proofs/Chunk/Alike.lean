import BinaryXml.File
import BinaryXml.Render.Scope
import Mathlib.Data.List.Forall2
import Mathlib.Logic.Relator

/-!
# Documents that differ in string indices

Two documents are alike when their chunks agree in everything but string indices and the indices at
the same places denote the same strings, each in the pool of its own document (`ChunkFile.Alike`).
The pools may list these strings in any order, with repeats and with others between them.
-/

namespace BinaryXml

/-- The indices denote one string. -/
def SameString (lookUp lookUp' : UInt32 → Except Error String) (i j : UInt32) : Prop :=
  ∃ s, lookUp i = .ok s ∧ lookUp' j = .ok s

/-- Indices of one string are looked up with one outcome. -/
theorem SameString.lookUp_eq {lookUp lookUp' : UInt32 → Except Error String} {i j : UInt32}
    (h : SameString lookUp lookUp' i j) : lookUp i = lookUp' j := by
  obtain ⟨s, hi, hj⟩ := h
  rw [hi, hj]

section

variable (same : UInt32 → UInt32 → Prop)

/-- Values of the same type and data, up to the string that one refers to. -/
inductive Value.Alike : Value → Value → Prop where
  | string {i j : UInt32} (h : same i j) : Alike (.string i) (.string j)
  | plain {value : Value} (h : value.stringIndex? = none) : Alike value value

/-- Attributes whose indices are related, and which are missing in both where they are missing in
one. -/
structure Attribute.Alike (attr other : Attribute) : Prop where
  uri : Option.Rel same attr.uri other.uri
  name : same attr.name other.name
  rawValue : Option.Rel same attr.rawValue other.rawValue
  value : attr.value.Alike same other.value

structure NamespaceScope.Alike (scope other : NamespaceScope) : Prop where
  line_eq : scope.line = other.line
  comment : Option.Rel same scope.comment other.comment
  name : Option.Rel same scope.name other.name
  uri : same scope.uri other.uri

/-- Start tags at one line whose indices are related. The numbers of their special attributes are no
string indices and have to be equal. -/
structure StartTag.Alike (tag other : StartTag) : Prop where
  line_eq : tag.line = other.line
  comment : Option.Rel same tag.comment other.comment
  uri : Option.Rel same tag.uri other.uri
  name : same tag.name other.name
  attributes : List.Forall₂ (Attribute.Alike same) tag.attributes other.attributes
  idIndex_eq : tag.idIndex = other.idIndex
  classIndex_eq : tag.classIndex = other.classIndex
  styleIndex_eq : tag.styleIndex = other.styleIndex

structure EndTag.Alike (tag other : EndTag) : Prop where
  line_eq : tag.line = other.line
  comment : Option.Rel same tag.comment other.comment
  uri : Option.Rel same tag.uri other.uri
  name : same tag.name other.name

structure CharacterData.Alike (text other : CharacterData) : Prop where
  line_eq : text.line = other.line
  comment : Option.Rel same text.comment other.comment
  data : same text.data other.data
  value : text.value.Alike same other.value

/-- Chunks of one kind that agree in everything but string indices. Pools need not agree at all. -/
inductive Chunk.Alike : Chunk → Chunk → Prop where
  | stringPool (pool other : StringPool) : Alike (.stringPool pool) (.stringPool other)
  | resourceMap (ids : List UInt32) : Alike (.resourceMap ids) (.resourceMap ids)
  | startNamespace {scope other : NamespaceScope} (h : scope.Alike same other) :
      Alike (.startNamespace scope) (.startNamespace other)
  | endNamespace {scope other : NamespaceScope} (h : scope.Alike same other) :
      Alike (.endNamespace scope) (.endNamespace other)
  | startTag {tag other : StartTag} (h : tag.Alike same other) :
      Alike (.startTag tag) (.startTag other)
  | endTag {tag other : EndTag} (h : tag.Alike same other) : Alike (.endTag tag) (.endTag other)
  | characterData {text other : CharacterData} (h : text.Alike same other) :
      Alike (.characterData text) (.characterData other)
  | other (chunk : OtherChunk) : Alike (.other chunk) (.other chunk)

end

/-- The documents agree in everything but string indices, and the indices denote the same strings.
-/
def ChunkFile.Alike (file other : ChunkFile) : Prop :=
  List.Forall₂ (Chunk.Alike (SameString file.string other.string)) file.chunks other.chunks

/-! ## The indices that namespaces are told apart by -/

/-- The uris of the scopes that a chunk starts and of the names in it. -/
def Chunk.uriRefs : Chunk → List UInt32
  | startNamespace scope => [scope.uri]
  | startTag tag => tag.uri.toList ++ tag.attributes.flatMap (·.uri.toList)
  | endTag tag => tag.uri.toList
  | _ => []

/-- The binding whose scope a chunk starts or ends. -/
def Chunk.bindingRefs : Chunk → List ScopedBinding
  | startNamespace scope | endNamespace scope => [⟨scope.name, scope.uri⟩]
  | _ => []

namespace ChunkFile

def uriRefs (file : ChunkFile) : List UInt32 :=
  file.chunks.flatMap Chunk.uriRefs

def bindingRefs (file : ChunkFile) : List ScopedBinding :=
  file.chunks.flatMap Chunk.bindingRefs

end ChunkFile

/-! ## Members at the same places -/

variable {α α' β β' : Type}

/-- What stands at the same places is equal in one list where it is in the other. -/
def OneToOne (l : List α) (l' : List α') : Prop :=
  ∀ p ∈ l.zip l', ∀ q ∈ l.zip l', p.1 = q.1 ↔ p.2 = q.2

instance decidableOneToOne [DecidableEq α] [DecidableEq α'] (l : List α) (l' : List α') :
    Decidable (OneToOne l l') :=
  inferInstanceAs (Decidable (∀ p ∈ _, ∀ q ∈ _, _))

theorem OneToOne.biUnique {l : List α} {l' : List α'} (h : OneToOne l l') :
    Relator.BiUnique fun a a' => (a, a') ∈ l.zip l' :=
  ⟨fun _ _ _ ha hb => (h _ ha _ hb).mpr rfl, fun _ _ _ hb hc => (h _ hb _ hc).mp rfl⟩

/-- What holds of all that is at the same places in two lists made piece by piece holds of the
pieces, if these are equally long. -/
theorem forall₂_zip_of_flatMap {R : α → α' → Prop} {S : β × β' → Prop} {f : α → List β}
    {f' : α' → List β'} {l : List α} {l' : List α'} (h : List.Forall₂ R l l')
    (hlength : ∀ a a', R a a' → (f a).length = (f' a').length)
    (hall : ∀ p ∈ (l.flatMap f).zip (l'.flatMap f'), S p) :
    List.Forall₂ (fun a a' => R a a' ∧ ∀ p ∈ (f a).zip (f' a'), S p) l l' := by
  induction h with
  | nil => exact .nil
  | @cons a a' l l' ha _ ih =>
    rw [List.flatMap_cons, List.flatMap_cons, List.zip_append (hlength a a' ha),
      List.forall_mem_append] at hall
    exact .cons ⟨ha, hall.1⟩ (ih hall.2)

theorem length_toList_of_rel {R : α → α' → Prop} {a : Option α} {a' : Option α'}
    (h : Option.Rel R a a') : a.toList.length = a'.toList.length := by
  cases h <;> rfl

/-- Lists that are made of related members with equally many each are equally long. -/
theorem length_flatMap_of_forall₂ {R : α → α' → Prop} {f : α → List β} {f' : α' → List β'}
    {l : List α} {l' : List α'} (h : List.Forall₂ R l l')
    (hlength : ∀ a a', R a a' → (f a).length = (f' a').length) :
    (l.flatMap f).length = (l'.flatMap f').length := by
  induction h with
  | nil => rfl
  | cons ha _ ih =>
    rw [List.flatMap_cons, List.flatMap_cons, List.length_append, List.length_append,
      hlength _ _ ha, ih]

namespace Chunk.Alike

variable {same : UInt32 → UInt32 → Prop} {chunk other : Chunk}

/-- Chunks that are alike refer to equally many uris, so that these can be taken in pairs. -/
theorem length_uriRefs_eq (h : chunk.Alike same other) :
    chunk.uriRefs.length = other.uriRefs.length := by
  cases h with
  | startTag h =>
    rw [uriRefs, uriRefs, List.length_append, List.length_append, length_toList_of_rel h.uri,
      length_flatMap_of_forall₂ h.attributes fun _ _ ha => length_toList_of_rel ha.uri]
  | endTag h => exact length_toList_of_rel h.uri
  | _ => rfl

/-- Chunks that are alike start or end equally many scopes. -/
theorem length_bindingRefs_eq (h : chunk.Alike same other) :
    chunk.bindingRefs.length = other.bindingRefs.length := by
  cases h <;> rfl

end Chunk.Alike

end BinaryXml
