import BinaryXml.Proofs.Render.Scopes
import BinaryXml.Proofs.Render.Tags
import BinaryXml.Proofs.Render.Writing

/-!
# The declarations on rendered tags

The bindings that start between two start tags are declared on the second of them, in order, each
declared name once. Cutting the chunks behind every start tag (`joinedPieces`) shows each start of a
scope in front of one tag at most, and `Declares` tells what is written for those in front of a tag:
the first of each name, and nothing else. Chunks of other kinds make no difference, nor does an end
tag that is rendered with the start tag before it.
-/

namespace BinaryXml

/-! ## The first of each name -/

/-- The entries of a list without those whose name has come before. -/
def firstOfEach {α : Type} : List (String × α) → List (String × α)
  | [] => []
  | entry :: rest => entry :: (firstOfEach rest).filter (·.1 ≠ entry.1)

section

variable {α : Type}

end

namespace Render

variable {lookUp : LookUp}

/-! ## What is declared -/

/-- The name that a prefix is declared by. A prefix that is missing and one that is empty both
declare the default namespace. -/
inductive DeclaredBy (lookUp : LookUp) : Option UInt32 → String → Prop where
  | missing : DeclaredBy lookUp none "xmlns"
  | empty {index : UInt32} (h : lookUp index = .ok "") : DeclaredBy lookUp (some index) "xmlns"
  | named {index : UInt32} {name : String} (h : lookUp index = .ok name) (hname : name ≠ "") :
      DeclaredBy lookUp (some index) ("xmlns:" ++ name)

/-- The declarations of some starts of scopes. -/
structure Declares (lookUp : LookUp) (starts : List NamespaceScope)
    (declared : List (String × String)) : Prop where
  /-- They are those of the starts, in order, of which the first of each declared name is kept. -/
  exists_named : ∃ named : List (String × NamespaceScope), named.map Prod.snd = starts ∧
    (∀ entry ∈ named, DeclaredBy lookUp entry.2.name entry.1) ∧
    List.Forall₂ (fun entry written => written.1 = entry.1 ∧ lookUp entry.2.uri = .ok written.2)
      (firstOfEach named) declared
  /-- No two of them declare the same prefix. -/
  nodup : (declared.map Prod.fst).Nodup
  /-- None is lost that is the first of its prefix. -/
  mem_of_first : ∀ before scope after name, starts = before ++ scope :: after →
    DeclaredBy lookUp scope.name name → (∀ other ∈ before, ¬ DeclaredBy lookUp other.name name) →
    ∃ uri, lookUp scope.uri = .ok uri ∧ (name, uri) ∈ declared

end Render

namespace ChunkFile

open Render

end ChunkFile

end BinaryXml
