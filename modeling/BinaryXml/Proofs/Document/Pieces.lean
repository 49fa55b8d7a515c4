import BinaryXml.Document.Basic

/-!
# Forests flattened

A document flattens, depth first, to a list of pieces (`Document.pieces`): the start and the end of
every element, and the texts and comments between them. The pieces say all there is to say about it,
since no two forests flatten alike (`Document.pieces_injective`).
-/

namespace BinaryXml

/-- A step through a forest, depth first. -/
inductive Piece where
  | opening (name : String) (attributes : List (String × String)) (line : UInt32)
  | closing (name : String)
  | text (content : String)
  | comment (content : String)
  deriving DecidableEq, Repr

mutual

def Node.pieces : Node → List Piece
  | .element name attributes children line =>
    .opening name attributes line :: (piecesAll children ++ [.closing name])
  | .text content => [.text content]
  | .comment content => [.comment content]

def piecesAll : List Node → List Piece
  | [] => []
  | node :: rest => node.pieces ++ piecesAll rest

end

/-- A document flattened, depth first and in order. -/
def Document.pieces (document : Document) : List Piece :=
  piecesAll document

/-- Two forests side by side flatten to their pieces one behind the other. -/
theorem piecesAll_append (first second : List Node) :
    piecesAll (first ++ second) = piecesAll first ++ piecesAll second := by
  induction first with
  | nil => rfl
  | cons node rest ih => rw [List.cons_append, piecesAll, piecesAll, ih, List.append_assoc]

/-! ## No two forests flatten alike -/

/-- What may stand behind the nodes of a forest: the end of an element, or nothing. -/
def EndsForest (pieces : List Piece) : Prop :=
  ∀ piece ∈ pieces.head?, ∃ name, piece = .closing name

theorem endsForest_nil : EndsForest [] := fun _ hpiece => by cases hpiece

theorem endsForest_closing (name : String) (rest : List Piece) :
    EndsForest (.closing name :: rest) := by
  intro piece hpiece
  cases hpiece
  exact ⟨name, rfl⟩

/-- A node is never behind its forest: its first piece ends no element. -/
theorem not_endsForest_pieces (node : Node) (rest : List Piece) :
    ¬ EndsForest (node.pieces ++ rest) := by
  intro h
  cases node with
  | element name attributes children line =>
    rw [Node.pieces] at h
    obtain ⟨_, hclosing⟩ := h _ rfl
    cases hclosing
  | text content | comment content =>
    obtain ⟨_, hclosing⟩ := h _ rfl
    cases hclosing

mutual

/-- The pieces at the front of a list tell the node and what is behind it. By recursion through the
children, whose forest ends with the element. -/
theorem Node.eq_of_pieces_append : ∀ {node other : Node} {rest rest' : List Piece},
    node.pieces ++ rest = other.pieces ++ rest' → node = other ∧ rest = rest'
  | .element name attributes children line, .element name' attributes' children' line', rest,
      rest', h => by
    simp only [Node.pieces, List.cons_append, List.append_assoc, List.cons.injEq,
      Piece.opening.injEq] at h
    obtain ⟨⟨rfl, rfl, rfl⟩, hinner⟩ := h
    obtain ⟨rfl, hbehind⟩ :=
      eq_of_piecesAll_append (endsForest_closing _ _) (endsForest_closing _ _) hinner
    exact ⟨rfl, (List.cons.inj hbehind).2⟩
  | .text content, .text content', rest, rest', h => by
    cases h
    exact ⟨rfl, rfl⟩
  | .comment content, .comment content', rest, rest', h => by
    cases h
    exact ⟨rfl, rfl⟩
  | .element .., .text _, _, _, h => by cases h
  | .element .., .comment _, _, _, h => by cases h
  | .text _, .element .., _, _, h => by cases h
  | .text _, .comment _, _, _, h => by cases h
  | .comment _, .element .., _, _, h => by cases h
  | .comment _, .text _, _, _, h => by cases h

/-- The pieces at the front of a list tell the forest, if what is behind may end one. Without that a
longer forest might begin with the same pieces. -/
theorem eq_of_piecesAll_append : ∀ {nodes others : List Node} {rest rest' : List Piece},
    EndsForest rest → EndsForest rest' → piecesAll nodes ++ rest = piecesAll others ++ rest' →
      nodes = others ∧ rest = rest'
  | [], [], _, _, _, _, h => ⟨rfl, h⟩
  | [], other :: others, _, _, hrest, _, h => by
    rw [piecesAll, piecesAll, List.nil_append, List.append_assoc] at h
    exact absurd (h ▸ hrest) (not_endsForest_pieces other _)
  | node :: nodes, [], _, _, _, hrest', h => by
    rw [piecesAll, piecesAll, List.nil_append, List.append_assoc] at h
    exact absurd (h ▸ hrest') (not_endsForest_pieces node _)
  | node :: nodes, other :: others, _, _, hrest, hrest', h => by
    rw [piecesAll, piecesAll, List.append_assoc, List.append_assoc] at h
    obtain ⟨rfl, hbehind⟩ := Node.eq_of_pieces_append h
    obtain ⟨rfl, hends⟩ := eq_of_piecesAll_append hrest hrest' hbehind
    exact ⟨rfl, hends⟩

end

/-- A document is known by its pieces. -/
theorem Document.pieces_injective : Function.Injective Document.pieces := by
  intro document other h
  have happend : piecesAll document ++ [] = piecesAll other ++ [] := by
    rw [List.append_nil, List.append_nil]
    exact h
  exact (eq_of_piecesAll_append endsForest_nil endsForest_nil happend).1

end BinaryXml
