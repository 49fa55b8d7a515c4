import BinaryXml.Proofs.Markup.Lexer
import BinaryXml.Proofs.Markup.Tree

/-!
# The lines of elements

The elements of a document that was parsed are those that the tags of its text start, and the line
of each is counted up to where its tag stands without the byte order mark of the text (`Numbered`).
That is the line on which the tag begins, unless a line feed is among the last bytes ahead of the
tag, as many as the mark takes (`numberedRightly_iff`).
-/

namespace BinaryXml

/-- The name and the line of the element that begins with a piece. -/
def Piece.opening? : Piece → Option (String × UInt32)
  | .opening name _ line => some (name, line)
  | _ => none

/-- The elements of a document, depth first, each by its name and its line. -/
def Document.openings (document : Document) : List (String × UInt32) :=
  document.pieces.filterMap Piece.opening?

namespace Markup

/-! ## Tags that start elements -/

/-- The name of the element that a token starts. -/
def Token.opened? : Token → Option String
  | .startTag content | .emptyTag content => some (String.ofList (tagName content))
  | _ => none

/-- The elements that tokens start, each by its name and the offset of its tag. -/
def openedBy (tokens : List Located) : List (String × Nat) :=
  tokens.filterMap fun located => located.token.opened?.map fun name => (name, located.offset)

/-- A tag that starts an element begins with its bracket and the element's name. -/
theorem Token.SpelledBy.exists_eq_cons {token : Token} {piece : List Char} {name : String}
    (h : token.SpelledBy piece) (hname : token.opened? = some name) :
    ∃ behind, piece = '<' :: (name.toList ++ behind) := by
  have hfirst : ∀ content closing : List Char, ∃ behind, "<".toList ++ (content ++ closing)
      = '<' :: ((String.ofList (tagName content)).toList ++ behind) := by
    intro content closing
    have htoList : (String.ofList (tagName content)).toList = tagName content :=
      String.toList_ofList
    refine ⟨content.dropWhile (!Text.isMarkupSpace ·) ++ closing, ?_⟩
    rw [htoList, tagName, ← List.append_assoc (content.takeWhile _),
      List.takeWhile_append_dropWhile]
    rfl
  cases h with
  | startTag content | emptyTag content =>
    cases hname
    exact hfirst content _
  | endTag | text | cdata | comment | instruction | doctype => cases hname

/-- A token puts the element that it starts into the forest, on the line of the token. -/
theorem Token.Delivers.filterMap_pieces {token : Token} {line : UInt32} {event : Event}
    (h : token.Delivers line event) :
    event.pieces.filterMap Piece.opening?
      = (token.opened?.map fun name => (name, line)).toList := by
  cases h with
  | startTag hspells | emptyTag hspells =>
    obtain ⟨rfl, -⟩ := spellsTag_iff.mp hspells
    rfl
  | text =>
    rw [Event.pieces]
    split <;> rfl
  | endTag | cdata | comment | instruction | doctype => rfl

/-- All tokens together. -/
theorem filterMap_flatMap_pieces {lines : LineMap} {tokens : List Located} {events : List Event}
    (h : List.Forall₂ (fun located event => Event.ofToken lines located = .ok event)
      tokens events) :
    (events.flatMap Event.pieces).filterMap Piece.opening?
      = (openedBy tokens).map fun tag => (tag.1, UInt32.ofNat (lines.line tag.2)) := by
  induction h with
  | nil => rfl
  | @cons located event tokens events hevent _ ih =>
    rw [List.flatMap_cons, List.filterMap_append, ih,
      (ofToken_eq_ok_iff.mp hevent).filterMap_pieces, openedBy, openedBy, List.filterMap_cons]
    cases located.token.opened? <;> rfl

/-! ## Where the tags stand -/

/-- The offset of the tag that a token is, if it starts an element, found from the offset behind it:
the tag takes its content and two or three more bytes. -/
def tagStart? (read : Located × Nat) : Option Nat :=
  match read.1.token with
  | .startTag content => some (read.2 - (Text.byteLength content + 2))
  | .emptyTag content => some (read.2 - (Text.byteLength content + 3))
  | _ => none

/-- The offset behind a tag tells where it starts, by the length of its content. -/
theorem Token.SpelledBy.tagStart?_eq {token : Token} {piece : List Char} (h : token.SpelledBy piece)
    (start : Nat) :
    tagStart? (⟨start, token⟩, start + Text.byteLength piece)
      = token.opened?.map fun _ => start := by
  cases h with
  | startTag content | emptyTag content =>
    refine congrArg some (Nat.sub_eq_of_eq_add ?_)
    rw [Text.byteLength_enclosed, Nat.add_comm (Text.byteLength content)]
    rfl
  | endTag | text | cdata | comment | instruction | doctype => rfl

namespace LaidOut

variable {offset : Nat} {text : List Char} {reads : List (Located × Nat)}

/-- The offsets of the tags are found from those behind them. -/
theorem filterMap_tagStart? (h : LaidOut offset text reads) :
    reads.filterMap tagStart? = (openedBy (reads.map Prod.fst)).map Prod.snd := by
  rw [openedBy, List.map_filterMap, List.filterMap_map]
  apply List.filterMap_congr
  rintro ⟨⟨start, token⟩, stop⟩ hmem
  obtain ⟨_, piece, _, -, hpiece, -, rfl⟩ := h.exists_eq_append hmem
  rw [hpiece.tagStart?_eq, Function.comp_apply, Option.map_map]
  rfl

/-- The tags stand one behind the other. -/
theorem pairwise_openedBy (h : LaidOut offset text reads) :
    (openedBy (reads.map Prod.fst)).Pairwise fun tag later => tag.2 < later.2 := by
  rw [openedBy, List.filterMap_map]
  refine List.Pairwise.filterMap _ ?_ h.pairwise_lt
  intro read later hlt tag htag other hother
  obtain ⟨_, -, rfl⟩ := Option.map_eq_some_iff.mp htag
  obtain ⟨_, -, rfl⟩ := Option.map_eq_some_iff.mp hother
  exact hlt

/-- A tag stands at its offset. -/
theorem exists_tag (h : LaidOut offset text reads) {tag : String × Nat}
    (htag : tag ∈ openedBy (reads.map Prod.fst)) :
    ∃ front behind, text = front ++ '<' :: (tag.1.toList ++ behind) ∧
      tag.2 = offset + Text.byteLength front := by
  obtain ⟨located, hmem, hopened⟩ := List.mem_filterMap.mp htag
  obtain ⟨⟨_, stop⟩, hread, rfl⟩ := List.mem_map.mp hmem
  obtain ⟨name, hname, rfl⟩ := Option.map_eq_some_iff.mp hopened
  obtain ⟨front, piece, behind, rfl, hpiece, hoffset, -⟩ := h.exists_eq_append hread
  obtain ⟨inner, rfl⟩ := hpiece.exists_eq_cons hname
  exact ⟨front, inner ++ behind, by rw [List.cons_append, List.append_assoc], hoffset⟩

end LaidOut

/-! ## The lines of a document -/

/-- The byte order mark at the front of a text, if there is one. -/
def mark : List Char → List Char
  | '\uFEFF' :: _ => ['\uFEFF']
  | _ => []

/-- A text is its mark, if it has one, and what is read of it. -/
theorem mark_append_dropMark (text : List Char) : mark text ++ dropMark text = text := by
  unfold mark
  split
  · rfl
  · rename_i hmark
    unfold dropMark
    split
    · exact absurd rfl (hmark _)
    · rfl

/-- The number of bytes of the mark of a text. -/
def markSize (text : String) : Nat :=
  Text.byteLength (mark text.toList)

/-- The tags of a text that start elements, each by the element's name and the number of bytes ahead
of its `<`, those of the mark included. -/
def openingTags (text : String) : List (String × Nat) :=
  (openedBy (lex (dropMark text.toList)).tokens).map fun tag => (tag.1, markSize text + tag.2)

/-- Every element has the line on which its tag begins: one more than the number of line feeds ahead
of the `<`. -/
def NumberedRightly (text : String) (document : Document) : Prop :=
  document.openings.map (fun element => (element.1, element.2.toNat))
    = (openingTags text).map fun tag => (tag.1, 1 + feedsAhead text.toUTF8.data.toList tag.2)

/-- The lines of the elements of a document that was parsed. -/
structure Numbered (text : String) (document : Document) : Prop where
  /-- The tags stand one behind the other. -/
  pairwise_lt : (openingTags text).Pairwise fun tag later => tag.2 < later.2
  /-- Every tag stands in the text where it is said to. -/
  exists_tag : ∀ tag ∈ openingTags text, ∃ front behind,
    text.toList = front ++ '<' :: (tag.1.toList ++ behind) ∧ Text.byteLength front = tag.2
  /-- The elements are those of the tags, in their order. The line feeds ahead of a tag are counted
  as many bytes too early as the mark takes. -/
  openings_eq : document.openings = (openingTags text).map fun tag => (tag.1,
    UInt32.ofNat (1 + feedsAhead text.toUTF8.data.toList (tag.2 - markSize text)))
  /-- The text is read to its end and its tokens are laid out in it. A counter that is asked for one
  tag after the other, each found from the offset behind it, gives the same lines. -/
  counted : ∃ reads, Reads ⟨dropMark text.toList, 0⟩ reads ∧
    LaidOut 0 (dropMark text.toList) reads ∧
    (lex (dropMark text.toList)).tokens = reads.map Prod.fst ∧
    document.openings.map Prod.snd
      = LineCounter.linesAt { bytes := text.toUTF8.data.toList } (reads.filterMap tagStart?)
  /-- The lines are right unless a line feed is missed or a line does not fit into 32 bits. -/
  rightly_iff : NumberedRightly text document ↔ ∀ tag ∈ openingTags text,
    0x0A ∉ (text.toUTF8.data.toList.take tag.2).drop (tag.2 - markSize text) ∧
      1 + feedsAhead text.toUTF8.data.toList tag.2 < UInt32.size
  /-- Without a mark none is missed. -/
  rightly_of_mark_eq_nil : mark text.toList = [] →
    1 + text.toUTF8.data.toList.count 0x0A < UInt32.size → NumberedRightly text document

/-- A number that is no larger than another is stored in 32 bits as that one only if it is the same
number and fits. -/
theorem toNat_ofNat_eq_iff {n m : Nat} (h : n ≤ m) :
    (UInt32.ofNat n).toNat = m ↔ n = m ∧ m < UInt32.size := by
  have hle := Nat.mod_le n (2 ^ 32)
  have hlt := Nat.mod_lt n (Nat.two_pow_pos 32)
  have hsize : UInt32.size = 2 ^ 32 := rfl
  rw [UInt32.toNat_ofNat', hsize]
  constructor
  · intro heq
    omega
  · rintro ⟨rfl, hfits⟩
    exact Nat.mod_eq_of_lt hfits

theorem feedsAhead_le_count (bytes : List UInt8) (offset : Nat) :
    feedsAhead bytes offset ≤ bytes.count 0x0A :=
  (List.take_sublist offset bytes).count_le 0x0A

/-- The line that is counted up to `early` is right for `stop` when no line feed is between them. -/
theorem toNat_line_eq_iff {bytes : List UInt8} {early stop : Nat} (h : early ≤ stop) :
    (UInt32.ofNat (1 + feedsAhead bytes early)).toNat = 1 + feedsAhead bytes stop ↔
      0x0A ∉ (bytes.take stop).drop early ∧ 1 + feedsAhead bytes stop < UInt32.size := by
  have hfeeds := feedsAhead_eq_add h bytes
  rw [toNat_ofNat_eq_iff (by omega), ← List.count_eq_zero]
  refine and_congr_left fun _ => ?_
  omega

section

variable {text : String} {document : Document}

/-- The elements are those of the tags, each with the line that is counted up to the tag's offset
without the mark. -/
theorem openings_of_parse (h : Document.parse text = .ok document) :
    document.openings = (openedBy (lex (dropMark text.toList)).tokens).map fun tag =>
      (tag.1, UInt32.ofNat (1 + feedsAhead text.toUTF8.data.toList tag.2)) := by
  rw [Document.parse_eq_parseBy] at h
  obtain ⟨-, events, hevents, -, hpieces, -⟩ := parseBy_eq_ok_iff.mp h
  rw [Document.openings, hpieces, filterMap_flatMap_pieces hevents, Text.toList_toUTF8]
  simp only [LineMap.line_ofText]

theorem exists_reads_of_parse (h : Document.parse text = .ok document) :
    ∃ reads, Reads ⟨dropMark text.toList, 0⟩ reads ∧
      (lex (dropMark text.toList)).tokens = reads.map Prod.fst := by
  rw [Document.parse_eq_parseBy] at h
  exact exists_reads_of_lex (parseBy_eq_ok_iff.mp h).1

/-- The elements are those of the tags. -/
theorem openings_eq_map_openingTags (h : Document.parse text = .ok document) :
    document.openings = (openingTags text).map fun tag => (tag.1,
      UInt32.ofNat (1 + feedsAhead text.toUTF8.data.toList (tag.2 - markSize text))) := by
  rw [openings_of_parse h, openingTags, List.map_map]
  refine List.map_congr_left fun tag _ => ?_
  rw [Function.comp_apply, Nat.add_sub_cancel_left]

/-- The lines are right exactly when no line feed is counted too late, ahead of any tag, and when
every line fits into 32 bits. -/
theorem numberedRightly_iff (h : Document.parse text = .ok document) :
    NumberedRightly text document ↔ ∀ tag ∈ openingTags text,
      0x0A ∉ (text.toUTF8.data.toList.take tag.2).drop (tag.2 - markSize text) ∧
        1 + feedsAhead text.toUTF8.data.toList tag.2 < UInt32.size := by
  rw [NumberedRightly, openings_eq_map_openingTags h, List.map_map, List.map_inj_left]
  refine forall₂_congr fun tag _ => ?_
  rw [Function.comp_apply, Prod.mk.injEq, and_iff_right rfl]
  exact toNat_line_eq_iff (Nat.sub_le _ _)

/-- Without a mark, there are no bytes in which a line feed could be missed. -/
theorem numberedRightly_of_mark_eq_nil (h : Document.parse text = .ok document)
    (hmark : mark text.toList = []) (hfits : 1 + text.toUTF8.data.toList.count 0x0A < UInt32.size) :
    NumberedRightly text document := by
  refine (numberedRightly_iff h).mpr fun tag _ => ⟨?_, ?_⟩
  · have hnone : Text.byteLength [] = 0 := rfl
    rw [markSize, hmark, hnone, Nat.sub_zero,
      List.drop_eq_nil_of_le (List.length_take_le tag.2 text.toUTF8.data.toList)]
    exact List.not_mem_nil
  · have hle := feedsAhead_le_count text.toUTF8.data.toList tag.2
    omega

variable {reads : List (Located × Nat)}

/-- A tag stands in the text behind the mark and at its own offset. -/
theorem exists_tag_of_laidOut (hlaid : LaidOut 0 (dropMark text.toList) reads)
    (htokens : (lex (dropMark text.toList)).tokens = reads.map Prod.fst) {tag : String × Nat}
    (htag : tag ∈ openingTags text) :
    ∃ front behind, text.toList = front ++ '<' :: (tag.1.toList ++ behind) ∧
      Text.byteLength front = tag.2 := by
  rw [openingTags, htokens] at htag
  obtain ⟨read, hread, rfl⟩ := List.mem_map.mp htag
  obtain ⟨front, behind, htext, hoffset⟩ := hlaid.exists_tag hread
  refine ⟨mark text.toList ++ front, behind, ?_, ?_⟩
  · rw [List.append_assoc, ← htext, mark_append_dropMark]
  · rw [Text.byteLength_append, hoffset, Nat.zero_add, markSize]

/-- The counter is asked for offsets that do not decrease. -/
theorem linesAt_filterMap_tagStart? (hlaid : LaidOut 0 (dropMark text.toList) reads)
    (bytes : List UInt8) :
    LineCounter.linesAt { bytes } (reads.filterMap tagStart?)
      = (openedBy (reads.map Prod.fst)).map fun tag =>
        UInt32.ofNat (1 + feedsAhead bytes tag.2) := by
  rw [hlaid.filterMap_tagStart?, LineCounter.linesAt_eq (LineCounter.right_start bytes),
    List.map_map]
  · rfl
  · refine List.pairwise_cons.mpr ⟨fun _ _ => Nat.zero_le _, List.pairwise_map.mpr ?_⟩
    exact hlaid.pairwise_openedBy.imp Nat.le_of_lt

/-- **The lines of a document** that was parsed. -/
theorem numbered_of_parse (h : Document.parse text = .ok document) : Numbered text document := by
  obtain ⟨reads, hreads, htokens⟩ := exists_reads_of_parse h
  have hlaid : LaidOut 0 (dropMark text.toList) reads := hreads.laidOut
  refine ⟨?_, fun _ => exists_tag_of_laidOut hlaid htokens, openings_eq_map_openingTags h,
    ⟨reads, hreads, hlaid, htokens, ?_⟩, numberedRightly_iff h, numberedRightly_of_mark_eq_nil h⟩
  · rw [openingTags, htokens, List.pairwise_map]
    exact hlaid.pairwise_openedBy.imp fun hlt => Nat.add_lt_add_left hlt _
  · rw [linesAt_filterMap_tagStart? hlaid, openings_of_parse h, htokens, List.map_map]
    rfl

end

/-- A text with a mark and with tags that begin on the lines 2, 3 and 5. -/
def markedText : String :=
  "\uFEFF\n<A>\n  <B\n x='1'/>\n    <C/></A>"

/-- The first two tags each miss the line feed that is just ahead of them; the third stands far
enough behind the last one. -/
theorem numbered_of_parse_markedText :
    ∃ document, Document.parse markedText = .ok document ∧ Numbered markedText document ∧
      openingTags markedText = [("A", 4), ("B", 10), ("C", 26)] ∧
      document.openings = [("A", 1), ("B", 2), ("C", 5)] := by
  have hlexed : lex (dropMark markedText.toList) = ⟨[⟨1, .startTag ['A']⟩,
      ⟨7, .emptyTag "B\n x='1'".toList⟩, ⟨23, .emptyTag ['C']⟩, ⟨27, .endTag ['A']⟩], none⟩ := by
    decide +kernel
  have hspells : SpellsTag "B\n x='1'".toList "B" [("x", "1")] := by
    have hspace : IsSpace ['\n', ' '] :=
      List.forall_mem_cons.mpr ⟨rfl, List.forall_mem_singleton.mpr rfl⟩
    have hattribute : Spells (['\n', ' '] ++ 'x' :: ([] ++ '=' :: '\'' :: (['1'] ++ '\'' :: [])))
        [("x", "1")] :=
      .quoted hspace rfl (List.forall_mem_nil _) (by decide) (by decide +kernel)
        (.nil (List.forall_mem_nil _))
    exact ⟨⟨_, rfl, List.forall_mem_singleton.mpr rfl, by rintro _ ⟨⟩; rfl, hattribute⟩, by decide⟩
  have hevents : List.Forall₂
      (fun located event => Event.ofToken (.ofText markedText.toList) located = .ok event)
      [⟨1, .startTag ['A']⟩, ⟨7, .emptyTag "B\n x='1'".toList⟩, ⟨23, .emptyTag ['C']⟩,
        ⟨27, .endTag ['A']⟩]
      [.start "A" [] 1, .empty "B" [("x", "1")] 2, .empty "C" [] 5, .finish "A"] := by
    refine .cons ?_ (.cons ?_ ?_)
    · decide +kernel
    · exact ofToken_eq_ok_iff.mpr (.emptyTag hspells)
    · decide +kernel
  have hparse : Document.parse markedText = .ok [.element "A" [] [.element "B" [("x", "1")] [] 2,
      .element "C" [] [] 5] 1] :=
    (parse_eq_ok_iff_of_lex hlexed).mpr
      ⟨_, hevents, .start (.pass rfl (.pass rfl (.finish (.nil [])))), rfl, rfl⟩
  exact ⟨_, hparse, numbered_of_parse hparse, by decide +kernel, rfl⟩

/-- The tag begins on line 2. -/
theorem not_numberedRightly_lineFeedBehindMark :
    ∃ document, Document.parse "\uFEFF\n<A/>" = .ok document ∧
      ¬ NumberedRightly "\uFEFF\n<A/>" document := by
  have hlexed : lex (dropMark "\uFEFF\n<A/>".toList) = ⟨[⟨1, .emptyTag ['A']⟩], none⟩ := by
    decide +kernel
  have hevent : Event.ofToken (.ofText "\uFEFF\n<A/>".toList) ⟨1, .emptyTag ['A']⟩
      = .ok (.empty "A" [] 1) := by
    decide +kernel
  refine ⟨[.element "A" [] [] 1], (parse_eq_ok_iff_of_lex hlexed).mpr
    ⟨_, .cons hevent .nil, .pass rfl (.nil []), rfl, rfl⟩, ?_⟩
  rw [NumberedRightly, Text.toList_toUTF8]
  decide +kernel

end Markup

end BinaryXml
