import BinaryXml.Markup.Tree
import BinaryXml.Proofs.Document.Pieces
import BinaryXml.Proofs.Except
import BinaryXml.Proofs.Markup.Attributes

/-!
# The tree that a text tells

Every event of a text puts its pieces into a forest (`Event.pieces`). A tree builder holds the
pieces of all the events that it has taken, those of the elements that are still open included
(`exists_take`), so at the end it holds the forest that flattens to the events
(`toldBy_of_matched`). Which texts are documents is told by their events as well
(`parseBy_eq_ok_iff`).
-/

namespace BinaryXml

namespace Markup

/-! ## Events -/

/-- The event that a token is, whose element if any starts on a line. A tag has the attributes that
stand in it, in their order. The references in a text are replaced, character data is as it stands.
-/
inductive Token.Delivers (line : UInt32) : Token → Event → Prop where
  | startTag {content : List Char} {name : String} {attributes : List (String × String)}
      (h : SpellsTag content name attributes) :
      Delivers line (.startTag content) (.start name attributes line)
  | emptyTag {content : List Char} {name : String} {attributes : List (String × String)}
      (h : SpellsTag content name attributes) :
      Delivers line (.emptyTag content) (.empty name attributes line)
  | endTag (name : List Char) : Delivers line (.endTag name) (.finish (String.ofList name))
  | text {raw content : List Char} (h : unescape raw = .ok content) :
      Delivers line (.text raw) (.text (String.ofList content))
  | cdata (content : List Char) : Delivers line (.cdata content) (.cdata (String.ofList content))
  | comment (content : List Char) :
      Delivers line (.comment content) (.comment (String.ofList content))
  | instruction (content : List Char) : Delivers line (.instruction content) .ignored
  | doctype (content : List Char) : Delivers line (.doctype content) .ignored

/-- A token is accepted exactly as an event that it is. -/
theorem ofToken_eq_ok_iff {lines : LineMap} {located : Located} {event : Event} :
    Event.ofToken lines located = .ok event ↔
      located.token.Delivers (UInt32.ofNat (lines.line located.offset)) event := by
  obtain ⟨offset, token⟩ := located
  cases token with
  | startTag content =>
    simp only [Event.ofToken, bind_eq_ok_iff, pure_eq_ok_iff]
    constructor
    · rintro ⟨attributes, hattributes, rfl⟩
      exact .startTag (spellsTag_iff.mpr ⟨rfl, hattributes⟩)
    · intro h
      cases h with
      | startTag hspells =>
        obtain ⟨rfl, hattributes⟩ := spellsTag_iff.mp hspells
        exact ⟨_, hattributes, rfl⟩
  | emptyTag content =>
    simp only [Event.ofToken, bind_eq_ok_iff, pure_eq_ok_iff]
    constructor
    · rintro ⟨attributes, hattributes, rfl⟩
      exact .emptyTag (spellsTag_iff.mpr ⟨rfl, hattributes⟩)
    · intro h
      cases h with
      | emptyTag hspells =>
        obtain ⟨rfl, hattributes⟩ := spellsTag_iff.mp hspells
        exact ⟨_, hattributes, rfl⟩
  | text raw =>
    rw [Event.ofToken]
    dsimp only
    constructor
    · intro h
      -- the references of a text are replaced, or one of them has no replacement
      cases hcontent : unescape raw with
      | error fault =>
        rw [hcontent] at h
        cases h
      | ok content =>
        rw [hcontent] at h
        cases h
        exact .text hcontent
    · intro h
      cases h with
      | text hcontent => rw [hcontent]
  | endTag content | cdata content | comment content | instruction content | doctype content =>
    constructor
    · rintro ⟨⟩
      constructor
    · rintro ⟨⟩
      rfl

namespace Event

/-- What an event puts into a forest. Character data is put into it even when it is blank, other
text is not. -/
def pieces : Event → List Piece
  | start name attributes line => [.opening name attributes line]
  | empty name attributes line => [.opening name attributes line, .closing name]
  | finish name => [.closing name]
  | text content => if Text.isBlank content.toList then [] else [.text content]
  | cdata content => [.text content]
  | comment content => [.comment content]
  | ignored => []

/-- Whether an event starts or ends an element, and not both. -/
def isHalf : Event → Bool
  | start .. | finish _ => true
  | _ => false

end Event

/-- Some events lead from the elements that are open before them to those that are open behind them,
both by their names and the innermost first: every end is that of the innermost. -/
inductive Matched : List String → List Event → List String → Prop where
  | nil (names : List String) : Matched names [] names
  | start {name : String} {attributes : List (String × String)} {line : UInt32}
      {names after : List String} {rest : List Event} (hrest : Matched (name :: names) rest after) :
      Matched names (.start name attributes line :: rest) after
  | finish {name : String} {names after : List String} {rest : List Event}
      (hrest : Matched names rest after) : Matched (name :: names) (.finish name :: rest) after
  | pass {event : Event} {names after : List String} {rest : List Event}
      (hevent : event.isHalf = false) (hrest : Matched names rest after) :
      Matched names (event :: rest) after

/-! ## The builder -/

/-- The pieces of elements that are open, the innermost first. -/
def openPieces : List OpenElement → List Piece
  | [] => []
  | top :: others =>
    openPieces others ++ .opening top.name top.attributes top.line :: piecesAll top.children.reverse

namespace TreeBuilder

variable {builder : TreeBuilder}

/-- The pieces that a builder has come to. -/
def pieces (builder : TreeBuilder) : List Piece :=
  piecesAll builder.nodes.reverse ++ openPieces builder.openElements

/-- The names of the elements that are open, the innermost first. -/
def openNames (builder : TreeBuilder) : List String :=
  builder.openElements.map (·.name)

theorem piecesAll_reverse_cons (node : Node) (nodes : List Node) :
    piecesAll (node :: nodes).reverse = piecesAll nodes.reverse ++ node.pieces := by
  rw [List.reverse_cons, piecesAll_append, piecesAll, piecesAll, List.append_nil]

/-- A node is put behind all the pieces that there are. -/
theorem pieces_add (node : Node) (builder : TreeBuilder) :
    (builder.add node).pieces = builder.pieces ++ node.pieces := by
  rw [add, pieces, pieces]
  split
  · rename_i hopen
    rw [hopen, piecesAll_reverse_cons, openPieces, List.append_nil, List.append_nil]
  · rename_i top others hopen
    rw [hopen, openPieces, openPieces, piecesAll_reverse_cons]
    simp only [List.append_assoc, List.cons_append]

/-- A node opens no element and closes none. -/
theorem openNames_add (node : Node) (builder : TreeBuilder) :
    (builder.add node).openNames = builder.openNames := by
  rw [add, openNames, openNames]
  split
  · rename_i hopen
    rw [hopen]
  · rename_i top others hopen
    rw [hopen]
    rfl

/-- A step of a builder: the pieces that it adds, and the elements that are open behind it. -/
structure Follows (builder : TreeBuilder) (names : List String) (pieces : List Piece)
    (next : TreeBuilder) : Prop where
  openNames_eq : next.openNames = names
  pieces_eq : next.pieces = builder.pieces ++ pieces

theorem follows_self (builder : TreeBuilder) : builder.Follows builder.openNames [] builder :=
  ⟨rfl, (List.append_nil _).symm⟩

/-- A whole node adds its pieces and leaves the same elements open. -/
theorem follows_add (node : Node) (builder : TreeBuilder) :
    builder.Follows builder.openNames node.pieces (builder.add node) :=
  ⟨openNames_add node builder, pieces_add node builder⟩

/-- The start of an element is always taken, and the element is then the innermost. -/
theorem exists_take_start (name : String) (attributes : List (String × String)) (line : UInt32)
    (offset : Nat) :
    ∃ next, builder.take offset (.start name attributes line) = .ok next ∧
      builder.Follows (name :: builder.openNames) [.opening name attributes line] next := by
  refine ⟨_, rfl, rfl, ?_⟩
  rw [pieces, pieces, openPieces, List.append_assoc]
  rfl

/-- The innermost element is closed and stands where it was opened. -/
theorem exists_take_finish {name : String} {names : List String}
    (hopen : builder.openNames = name :: names) (offset : Nat) :
    ∃ next, builder.take offset (.finish name) = .ok next ∧
      builder.Follows names [.closing name] next := by
  obtain ⟨top, others, helements, hname, hnames⟩ := List.map_eq_cons_iff.mp hopen
  have hadd := follows_add top.close { builder with openElements := others }
  refine ⟨add top.close { builder with openElements := others }, ?_,
    hadd.openNames_eq.trans hnames, ?_⟩
  · rw [take, helements]
    exact if_pos hname
  · rw [hadd.pieces_eq, pieces, pieces, helements, openPieces, OpenElement.close, Node.pieces,
      hname]
    simp only [List.append_assoc, List.cons_append]

/-- Any other event leaves the same elements open. -/
theorem exists_take_of_not_isHalf {event : Event} (hevent : event.isHalf = false) (offset : Nat) :
    ∃ next, builder.take offset event = .ok next ∧
      builder.Follows builder.openNames event.pieces next := by
  cases event with
  | start name attributes line => cases hevent
  | finish name => cases hevent
  | empty name attributes line =>
    exact ⟨_, rfl, follows_add (.element name attributes [] line) builder⟩
  | text content =>
    rw [take, Event.pieces]
    split
    · exact ⟨builder, rfl, follows_self builder⟩
    · exact ⟨_, rfl, follows_add (.text content) builder⟩
  | cdata content => exact ⟨_, rfl, follows_add (.text content) builder⟩
  | comment content => exact ⟨_, rfl, follows_add (.comment content) builder⟩
  | ignored => exact ⟨builder, rfl, follows_self builder⟩

/-- **One event.** It is taken, its pieces are added, and the other events go on from there. -/
theorem exists_take {event : Event} {rest : List Event} {after : List String}
    (h : Matched builder.openNames (event :: rest) after) (offset : Nat) :
    ∃ next names, builder.take offset event = .ok next ∧
      builder.Follows names event.pieces next ∧ Matched names rest after := by
  generalize hopen : builder.openNames = before at h
  cases h with
  | start hrest =>
    obtain ⟨next, htake, hnext⟩ := exists_take_start _ _ _ offset
    exact ⟨next, _, htake, hnext, hopen ▸ hrest⟩
  | finish hrest =>
    obtain ⟨next, htake, hnext⟩ := exists_take_finish hopen offset
    exact ⟨next, _, htake, hnext, hrest⟩
  | pass hevent hrest =>
    obtain ⟨next, htake, hnext⟩ := exists_take_of_not_isHalf hevent offset
    exact ⟨next, _, htake, hnext, hopen ▸ hrest⟩

/-- **Any number of events.** -/
theorem exists_takeTokens (builder : TreeBuilder) {lines : LineMap} {tokens : List Located}
    {events : List Event} {after : List String}
    (hevents : List.Forall₂ (fun located event => Event.ofToken lines located = .ok event)
      tokens events) (h : Matched builder.openNames events after) :
    ∃ last, takeTokens lines tokens builder = .ok last ∧
      builder.Follows after (events.flatMap Event.pieces) last := by
  induction hevents generalizing builder with
  | nil =>
    -- without events the open elements are those of the builder
    generalize hopen : builder.openNames = before at h
    cases h
    exact ⟨builder, rfl, hopen ▸ follows_self builder⟩
  | @cons located event tokens events hevent _ ih =>
    obtain ⟨next, names, htake, hnext, hrest⟩ := exists_take h located.offset
    obtain ⟨last, hlast, hfollows⟩ := ih next (hnext.openNames_eq ▸ hrest)
    refine ⟨last, ?_, hfollows.openNames_eq, ?_⟩
    · rw [takeTokens, hevent]
      dsimp only
      rw [htake]
      exact hlast
    · rw [hfollows.pieces_eq, hnext.pieces_eq, List.flatMap_cons, List.append_assoc]

/-- An end tag that is taken is that of the innermost element. -/
theorem openNames_eq_of_take_finish {offset : Nat} {name : String} {next : TreeBuilder}
    (h : builder.take offset (.finish name) = .ok next) :
    builder.openNames = name :: next.openNames := by
  rw [take] at h
  split at h
  · cases h
  · rename_i top others helements
    obtain ⟨hname, hnext⟩ := ite_eq_ok_iff.mp h
    cases hnext
    rw [openNames_add, openNames, openNames, helements, List.map_cons, hname]

/-- Events that are taken are matched. -/
theorem matched_of_take {event : Event} {next : TreeBuilder} {rest : List Event}
    {after : List String} {offset : Nat} (h : builder.take offset event = .ok next)
    (hrest : Matched next.openNames rest after) :
    Matched builder.openNames (event :: rest) after := by
  cases hhalf : event.isHalf with
  | false =>
    -- an event that starts or ends nothing keeps the open elements
    obtain ⟨other, hother, hfollows⟩ := exists_take_of_not_isHalf hhalf offset
    cases hother.symm.trans h
    exact .pass hhalf (hfollows.openNames_eq ▸ hrest)
  | true =>
    cases event with
    | start name attributes line =>
      cases h
      exact .start hrest
    | finish name =>
      rw [openNames_eq_of_take_finish h]
      exact .finish hrest
    | empty | text | cdata | comment | ignored => cases hhalf

/-- Tokens that are taken are accepted, and their events are matched. -/
theorem exists_of_takeTokens {lines : LineMap} {tokens : List Located} {last : TreeBuilder}
    (h : takeTokens lines tokens builder = .ok last) :
    ∃ events, List.Forall₂ (fun located event => Event.ofToken lines located = .ok event)
      tokens events ∧ Matched builder.openNames events last.openNames := by
  induction tokens generalizing builder with
  | nil =>
    cases h
    exact ⟨[], .nil, .nil _⟩
  | cons located rest ih =>
    rw [takeTokens] at h
    cases hevent : Event.ofToken lines located with
    | error fault =>
      rw [hevent] at h
      cases h
    | ok event =>
      rw [hevent] at h
      dsimp only at h
      -- the event was accepted, so only the builder can refuse it
      cases htake : builder.take located.offset event with
      | error fault =>
        rw [htake] at h
        cases h
      | ok next =>
        rw [htake] at h
        obtain ⟨events, hevents, hmatched⟩ := ih h
        exact ⟨event :: events, .cons hevent hevents, matched_of_take htake hmatched⟩

/-! ## The end of the text -/

/-- A builder with an open element does not finish, and tells of the innermost. -/
theorem finish_of_openNames_eq_cons {name : String} {names : List String}
    (hopen : builder.openNames = name :: names) :
    builder.finish = .error (.unclosedElement name) := by
  obtain ⟨top, others, helements, hname, -⟩ := List.map_eq_cons_iff.mp hopen
  rw [finish, helements, ← hname]

/-- With nothing open, the document is the one forest that flattens to the pieces. -/
theorem exists_forest_of_openNames_eq_nil (hopen : builder.openNames = []) :
    ∃ forest : Document, (∀ other : Document, other.pieces = builder.pieces ↔ other = forest) ∧
      builder.finish = if forest.any Node.isElement then .ok forest else .error .noElement := by
  have helements : builder.openElements = [] := List.map_eq_nil_iff.mp hopen
  have hpieces : Document.pieces builder.nodes.reverse = builder.pieces := by
    rw [pieces, helements, openPieces, List.append_nil, Document.pieces]
  refine ⟨builder.nodes.reverse, fun other => ⟨fun hother => ?_, ?_⟩, ?_⟩
  · exact Document.pieces_injective (hother.trans hpieces.symm)
  · rintro rfl
    exact hpieces
  · rw [finish, helements]

end TreeBuilder

/-! ## The whole text -/

/-- What comes of a text, told by its tokens and their events. The elements of these names are open
at its end, the innermost first. -/
structure ToldBy (lines : LineMap) (tokens : List Located) (events : List Event)
    (names : List String) (outcome : Except Error Document) : Prop where
  /-- The innermost element that is open is an error. -/
  unclosed : ∀ name others, names = name :: others →
    outcome = .error (.xml (.unclosedElement name))
  /-- When none is open, one forest and no other flattens to the events, and it is the document
  unless there is no element in it. -/
  forest : names = [] → ∃ forest : Document,
    (∀ other : Document, other.pieces = events.flatMap Event.pieces ↔ other = forest) ∧
    outcome = if forest.any Node.isElement then .ok forest else .error (.xml .noElement)
  /-- The events are those of the tokens. -/
  delivers : List.Forall₂ (fun located event =>
    located.token.Delivers (UInt32.ofNat (lines.line located.offset)) event) tokens events

end Markup

/-- The document that an XML text spells, when something else than `Markup.lex` finds its tokens. -/
def Document.parseBy (read : List Char → Markup.Lexed) (text : String) : Except Error Document :=
  let lexed := read text.toList
  let parsed := do
    let builder ← Markup.TreeBuilder.takeTokens (.ofText text.toList) lexed.tokens {}
    match lexed.fault with
    | some fault => throw fault
    | none => builder.finish
  match parsed with
  | .ok document => .ok document
  | .error fault => .error (.xml fault)

/-- A text is parsed from the tokens that are found in it without its mark. -/
theorem Document.parse_eq_parseBy (text : String) :
    parse text = parseBy (fun text => Markup.lex (Markup.dropMark text)) text :=
  rfl

namespace Markup

section

variable {read : List Char → Lexed} {text : String} {events : List Event} {names : List String}

/-- When all tokens are there and all are taken, the builder's end is that of the whole. -/
theorem parseBy_of_takeTokens {last : TreeBuilder}
    (hlast : TreeBuilder.takeTokens (.ofText text.toList) (read text.toList).tokens {} = .ok last)
    (hfault : (read text.toList).fault = none) :
    Document.parseBy read text = match last.finish with
      | .ok document => .ok document
      | .error fault => .error (.xml fault) := by
  rw [Document.parseBy, hlast, hfault]
  rfl

/-- **The tree of a text.** Whatever finds the tokens: when all of them are accepted and every end
tag is that of the innermost open element, the document is the one forest that flattens to the
events. It is an error instead when an element is open at the end, or when there is none. -/
theorem toldBy_of_matched (hfault : (read text.toList).fault = none)
    (hevents : List.Forall₂ (fun located event =>
      Event.ofToken (.ofText text.toList) located = .ok event) (read text.toList).tokens events)
    (hmatched : Matched [] events names) :
    ToldBy (.ofText text.toList) (read text.toList).tokens events names
      (Document.parseBy read text) := by
  obtain ⟨last, hlast, hfollows⟩ := TreeBuilder.exists_takeTokens {} hevents hmatched
  have hparse := parseBy_of_takeTokens hlast hfault
  refine ⟨?_, ?_, hevents.imp fun _ _ hevent => ofToken_eq_ok_iff.mp hevent⟩
  · rintro name others rfl
    rw [hparse, TreeBuilder.finish_of_openNames_eq_cons hfollows.openNames_eq]
  · rintro rfl
    obtain ⟨forest, hforest, hfinish⟩ :=
      TreeBuilder.exists_forest_of_openNames_eq_nil hfollows.openNames_eq
    rw [hfollows.pieces_eq] at hforest
    refine ⟨forest, hforest, ?_⟩
    rw [hparse, hfinish]
    cases forest.any Node.isElement <;> rfl

/-- A comment, an element with attributes, and texts in it of which one is blank. -/
def mixed : String :=
  "<?xml?><!--c--><a x='1' y='&lt;'>t<b/>&#32;<![CDATA[ ]]></a>"

/-- A text with a token of almost every kind. Its events are matched, so its document is the one
forest with their pieces. -/
theorem toldBy_of_matched_mixed :
    Document.parse mixed = .ok [.comment "c",
      .element "a" [("x", "1"), ("y", "<")] [.text "t", .element "b" [] [] 1, .text " "] 1] := by
  have hlexed : lex (dropMark mixed.toList) = ⟨[⟨0, .instruction "xml?".toList⟩,
      ⟨7, .comment ['c']⟩, ⟨15, .startTag "a x='1' y='&lt;'".toList⟩, ⟨33, .text ['t']⟩,
      ⟨34, .emptyTag ['b']⟩, ⟨38, .text "&#32;".toList⟩, ⟨43, .cdata [' ']⟩, ⟨56, .endTag ['a']⟩],
      none⟩ := by
    decide +kernel
  -- the keys are kept by their hashes, which a proof cannot compute: the attributes are spelled out
  have hspells : SpellsTag "a x='1' y='&lt;'".toList "a" [("x", "1"), ("y", "<")] := by
    have hspace : IsSpace [' '] := List.forall_mem_singleton.mpr rfl
    have hsecond : Spells ([' '] ++ 'y' :: ([] ++ '=' :: '\'' :: ("&lt;".toList ++ '\'' :: [])))
        [("y", "<")] :=
      .quoted hspace rfl (List.forall_mem_nil _) (by decide) (by decide +kernel)
        (.nil (List.forall_mem_nil _))
    have hboth : Spells
        ([' '] ++ 'x' :: ([] ++ '=' :: '\'' :: (['1'] ++ '\'' :: " y='&lt;'".toList)))
        [("x", "1"), ("y", "<")] :=
      .quoted hspace rfl (List.forall_mem_nil _) (by decide) (by decide +kernel) hsecond
    exact ⟨⟨_, rfl, List.forall_mem_singleton.mpr rfl, by rintro _ ⟨⟩; rfl, hboth⟩, by decide⟩
  have hevents : List.Forall₂
      (fun located event => Event.ofToken (.ofText mixed.toList) located = .ok event)
      (lex (dropMark mixed.toList)).tokens
      [.ignored, .comment "c", .start "a" [("x", "1"), ("y", "<")] 1, .text "t", .empty "b" [] 1,
        .text " ", .cdata " ", .finish "a"] := by
    rw [hlexed]
    refine .cons rfl (.cons rfl (.cons ?_ ?_))
    · exact ofToken_eq_ok_iff.mpr (.startTag hspells)
    · decide +kernel
  have hmatched : Matched [] [.ignored, .comment "c", .start "a" [("x", "1"), ("y", "<")] 1,
      .text "t", .empty "b" [] 1, .text " ", .cdata " ", .finish "a"] [] :=
    .pass rfl (.pass rfl (.start (.pass rfl (.pass rfl (.pass rfl (.pass rfl
      (.finish (.nil []))))))))
  have hfault : (lex (dropMark mixed.toList)).fault = none := by rw [hlexed]
  have htold : ToldBy _ _ _ _ (Document.parseBy (fun text => lex (dropMark text)) mixed) :=
    toldBy_of_matched hfault hevents hmatched
  obtain ⟨forest, hforest, houtcome⟩ := htold.forest rfl
  -- the forest is named by the document that has its pieces
  obtain rfl := (hforest [.comment "c",
    .element "a" [("x", "1"), ("y", "<")] [.text "t", .element "b" [] [] 1, .text " "] 1]).mp rfl
  rw [Document.parse_eq_parseBy, houtcome]
  rfl

example : failure? (Document.parse "<a><b></b><c>") = some (.xml (.unclosedElement "c")) := by
  decide +kernel

/-- **When a text is a document, and which.** All tokens are accepted, every end tag is that of the
innermost open element and none is left open, and the document flattens to the events. -/
theorem parseBy_eq_ok_iff {document : Document} :
    Document.parseBy read text = .ok document ↔
      (read text.toList).fault = none ∧ ∃ events,
        List.Forall₂ (fun located event =>
          Event.ofToken (.ofText text.toList) located = .ok event)
          (read text.toList).tokens events ∧
        Matched [] events [] ∧ document.pieces = events.flatMap Event.pieces ∧
        document.any Node.isElement = true := by
  constructor
  · intro h
    cases hlast : TreeBuilder.takeTokens (.ofText text.toList) (read text.toList).tokens {} with
    | error fault =>
      rw [Document.parseBy, hlast] at h
      cases h
    | ok last =>
      cases hfault : (read text.toList).fault with
      | some fault =>
        rw [Document.parseBy, hlast, hfault] at h
        cases h
      | none =>
        rw [parseBy_of_takeTokens hlast hfault] at h
        obtain ⟨events, hevents, hmatched⟩ := TreeBuilder.exists_of_takeTokens hlast
        obtain ⟨other, hother, hfollows⟩ := TreeBuilder.exists_takeTokens {} hevents hmatched
        cases hlast.symm.trans hother
        -- all tokens were taken: an element is open at the end, or none is
        cases hopen : last.openNames with
        | cons name names =>
          rw [TreeBuilder.finish_of_openNames_eq_cons hopen] at h
          cases h
        | nil =>
          obtain ⟨forest, hforest, hfinish⟩ := TreeBuilder.exists_forest_of_openNames_eq_nil hopen
          rw [hfollows.pieces_eq] at hforest
          rw [hopen] at hmatched
          rw [hfinish] at h
          cases hany : forest.any Node.isElement with
          | false =>
            rw [hany] at h
            cases h
          | true =>
            rw [hany] at h
            cases h
            exact ⟨rfl, events, hevents, hmatched, (hforest document).mpr rfl, hany⟩
  · rintro ⟨hfault, events, hevents, hmatched, hpieces, hany⟩
    obtain ⟨last, hlast, hfollows⟩ := TreeBuilder.exists_takeTokens {} hevents hmatched
    obtain ⟨forest, hforest, hfinish⟩ :=
      TreeBuilder.exists_forest_of_openNames_eq_nil hfollows.openNames_eq
    rw [hfollows.pieces_eq] at hforest
    obtain rfl := (hforest document).mp hpieces
    rw [parseBy_of_takeTokens hlast hfault, hfinish, if_pos hany]

/-- The same for a text whose tokens are known. -/
theorem parse_eq_ok_iff_of_lex {tokens : List Located} {document : Document}
    (h : lex (dropMark text.toList) = ⟨tokens, none⟩) :
    Document.parse text = .ok document ↔ ∃ events,
      List.Forall₂ (fun located event => Event.ofToken (.ofText text.toList) located = .ok event)
        tokens events ∧
      Matched [] events [] ∧ document.pieces = events.flatMap Event.pieces ∧
      document.any Node.isElement = true := by
  rw [Document.parse_eq_parseBy, parseBy_eq_ok_iff, h]
  exact and_iff_right rfl

end

end Markup

end BinaryXml
