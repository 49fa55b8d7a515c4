import BinaryXml.Markup.Lexer
import BinaryXml.Proofs.Except
import BinaryXml.Proofs.Markup.Attributes
import BinaryXml.Proofs.Markup.LineMap

/-!
# Where the tokens of a text stand

The tokens of a text are pieces of it (`Token.SpelledBy`), one behind the other with nothing but
white space between them, and the offsets that they carry are where they stand (`LaidOut`). A text
that is read to its end is laid out so (`Reads.laidOut`).
-/

namespace BinaryXml

/-! ## Ends of markup -/

/-- A text is cut at a separator into what stands before it, behind what is `done`, and what stands
behind it. -/
def CutsAt (separator done text front behind : List Char) : Prop :=
  ∃ inner, front = done.reverse ++ inner ∧ text = inner ++ (separator ++ behind)

theorem cutsAt_front (separator done behind : List Char) :
    CutsAt separator done (separator ++ behind) done.reverse behind :=
  ⟨[], (List.append_nil _).symm, rfl⟩

/-- A character that is passed over stands before the separator. -/
theorem CutsAt.cons {separator done rest front behind : List Char} {c : Char}
    (h : CutsAt separator (c :: done) rest front behind) :
    CutsAt separator done (c :: rest) front behind := by
  obtain ⟨inner, rfl, rfl⟩ := h
  refine ⟨c :: inner, ?_, rfl⟩
  rw [List.reverse_cons, List.append_assoc, List.singleton_append]

/-- With nothing passed over before, the parts of the text make up the whole. -/
theorem CutsAt.eq_append {separator text front behind : List Char}
    (h : CutsAt separator [] text front behind) : text = front ++ (separator ++ behind) := by
  obtain ⟨inner, rfl, rfl⟩ := h
  rfl

/-- The search for a separator cuts the text where it finds it. -/
theorem Text.cutsAt_of_splitOnto {separator done text front behind : List Char}
    (h : splitOnto separator done text = some (front, behind)) :
    CutsAt separator done text front behind := by
  induction text generalizing done with
  | nil => cases h
  | cons c rest ih =>
    rw [splitOnto] at h
    split at h
    · rename_i tail htail
      cases h
      rw [dropFront?_eq_some_iff.mp htail]
      exact cutsAt_front _ _ _
    · exact (ih h).cons

/-- A pattern is passed over and then a second one is found. -/
theorem Text.eq_append_of_split_behind {opening closing text front behind : List Char}
    (h : (dropFront? opening text).bind (split? closing) = some (front, behind)) :
    text = opening ++ (front ++ (closing ++ behind)) := by
  obtain ⟨body, hbody, hsplit⟩ := Option.bind_eq_some_iff.mp h
  rw [dropFront?_eq_some_iff.mp hbody, (cutsAt_of_splitOnto hsplit).eq_append]

namespace Markup

section

variable {done text front behind : List Char}

/-- A tag is cut at the bracket that ends it, wherever brackets stand in quotes. -/
theorem cutsAt_of_splitTag {quote : Option Char}
    (h : splitTag quote done text = some (front, behind)) :
    CutsAt ">".toList done text front behind := by
  induction text generalizing quote done with
  | nil => cases h
  | cons c rest ih =>
    unfold splitTag at h
    split at h
    · exact (ih h).cons
    · split at h
      · rename_i hbracket
        cases h
        rw [hbracket]
        exact cutsAt_front _ _ _
      · exact (ih h).cons

/-- An instruction is cut at its last bracket. -/
theorem cutsAt_of_splitInstruction {previous : Char}
    (h : splitInstruction previous done text = some (front, behind)) :
    CutsAt ">".toList done text front behind := by
  induction text generalizing previous done with
  | nil => cases h
  | cons c rest ih =>
    rw [splitInstruction] at h
    split at h
    · rename_i hbracket
      cases h
      rw [hbracket.1]
      exact cutsAt_front _ _ _
    · exact (ih h).cons

/-- A document type declaration is cut at the bracket that ends it, however deep brackets stand in
it. -/
theorem cutsAt_of_splitDoctype {depth : Nat}
    (h : splitDoctype depth done text = some (front, behind)) :
    CutsAt ">".toList done text front behind := by
  induction text generalizing depth done with
  | nil => cases h
  | cons c rest ih =>
    unfold splitDoctype at h
    split at h
    · exact (ih h).cons
    · split at h
      · rename_i hbracket
        split at h
        · cases h
          rw [hbracket]
          exact cutsAt_front _ _ _
        · exact (ih h).cons
      · exact (ih h).cons

end

/-! ## One token -/

/-- The piece of a text that is a token. -/
inductive Token.SpelledBy : List Char → Token → Prop where
  | startTag (content : List Char) :
      SpelledBy ("<".toList ++ (content ++ ">".toList)) (.startTag content)
  | emptyTag (content : List Char) :
      SpelledBy ("<".toList ++ (content ++ "/>".toList)) (.emptyTag content)
  | endTag (content : List Char) :
      SpelledBy ("</".toList ++ (content ++ ">".toList)) (.endTag (endTagName content))
  | text {raw : List Char} (hne : raw ≠ []) (hraw : '<' ∉ raw) :
      SpelledBy raw (.text (trimEnd raw))
  | cdata (content : List Char) :
      SpelledBy ("<![CDATA[".toList ++ (content ++ "]]>".toList)) (.cdata content)
  | comment (content : List Char) :
      SpelledBy ("<!--".toList ++ (content ++ "-->".toList)) (.comment content)
  | instruction (content : List Char) :
      SpelledBy ("<?".toList ++ (content ++ ">".toList)) (.instruction content)
  | doctype (content : List Char) :
      SpelledBy ("<!".toList ++ (content ++ ">".toList)) (.doctype content)

/-- A token is spelled at the front of a text that begins at an offset, and `behind` is what follows
it. -/
def Token.Leads (token : Token) (start : Nat) (text : List Char) (behind : Place) : Prop :=
  ∃ piece, text = piece ++ behind.rest ∧ token.SpelledBy piece ∧
    behind.offset = start + Text.byteLength piece

/-- Markup leads its text when its own characters, apart from the content, are counted with it. -/
theorem leads_of_enclosed {token : Token} {opening content closing : List Char}
    (h : token.SpelledBy (opening ++ (content ++ closing))) (start : Nat) (tail : List Char)
    {offset : Nat} (hoffset : offset
      = start + (Text.byteLength opening + Text.byteLength closing) + Text.byteLength content) :
    token.Leads start (opening ++ (content ++ (closing ++ tail))) ⟨tail, offset⟩ := by
  refine ⟨_, ?_, h, ?_⟩
  · simp only [List.append_assoc]
  · rw [hoffset, Text.byteLength_enclosed, Nat.add_assoc]

section

variable {start : Nat} {rest : List Char} {token : Token} {behind : Place}

theorem leads_of_scanCdata (h : scanCdata start rest = .ok (token, behind)) :
    token.Leads start ("<!".toList ++ rest) behind := by
  unfold scanCdata at h
  split at h <;> cases h
  rename_i content tail hsplit
  rw [Text.eq_append_of_split_behind hsplit]
  exact leads_of_enclosed (.cdata content) start tail rfl

/-- A comment stands between its dashes. -/
theorem leads_of_scanComment (h : scanComment start rest = .ok (token, behind)) :
    token.Leads start ("<!".toList ++ rest) behind := by
  unfold scanComment at h
  split at h <;> cases h
  rename_i content tail hsplit
  rw [Text.eq_append_of_split_behind hsplit]
  exact leads_of_enclosed (.comment content) start tail rfl

/-- A document type declaration stands between its brackets. -/
theorem leads_of_scanDoctype (h : scanDoctype start rest = .ok (token, behind)) :
    token.Leads start ("<!".toList ++ rest) behind := by
  unfold scanDoctype at h
  split at h
  · rename_i content tail hsplit
    split at h
    · dsimp only at h
      split at h <;> cases h
      rw [(cutsAt_of_splitDoctype hsplit).eq_append]
      -- the offset is told from the exclamation mark on
      have hbrackets : Text.byteLength "<!".toList + Text.byteLength ">".toList = 3 := rfl
      refine leads_of_enclosed (.doctype content) start tail ?_
      omega
    · cases h
  · cases h

/-- An instruction stands behind its question mark, and its content ends with another. -/
theorem leads_of_scanInstruction (h : scanInstruction start rest = .ok (token, behind)) :
    token.Leads start ("<?".toList ++ rest) behind := by
  unfold scanInstruction at h
  split at h
  · rename_i content tail hsplit
    split at h <;> cases h
    rw [(cutsAt_of_splitInstruction hsplit).eq_append]
    exact leads_of_enclosed (.instruction content) start tail rfl
  · cases h

/-- An end tag stands behind its slash. -/
theorem leads_of_scanEndTag (h : scanEndTag start rest = .ok (token, behind)) :
    token.Leads start ("</".toList ++ rest) behind := by
  unfold scanEndTag at h
  split at h <;> cases h
  rename_i content tail hsplit
  rw [(cutsAt_of_splitTag hsplit).eq_append]
  exact leads_of_enclosed (.endTag content) start tail rfl

/-- A start tag stands between its brackets, a slash at its end apart. -/
theorem leads_of_scanTag (h : scanTag start rest = .ok (token, behind)) :
    token.Leads start ("<".toList ++ rest) behind := by
  unfold scanTag at h
  split at h
  · rename_i content tail hsplit
    dsimp only at h
    rw [(cutsAt_of_splitTag hsplit).eq_append]
    split at h
    · rename_i hslash
      cases h
      -- the slash at the end of the content belongs to the closing bracket
      have hcontent := List.dropLast_append_getLast? '/' hslash
      generalize content.dropLast = inner at hcontent ⊢
      subst hcontent
      have hlength : Text.byteLength (inner ++ ['/']) = Text.byteLength inner + 1 :=
        Text.byteLength_append _ _
      have hbrackets : Text.byteLength "<".toList + Text.byteLength "/>".toList = 3 := rfl
      rw [List.append_assoc]
      refine leads_of_enclosed (.emptyTag inner) start tail ?_
      omega
    · cases h
      exact leads_of_enclosed (.startTag content) start tail rfl
  · cases h

/-- Markup of any kind stands where its `<` is. -/
theorem leads_of_scanMarkup (h : scanMarkup start rest = .ok (token, behind)) :
    token.Leads start ('<' :: rest) behind := by
  unfold scanMarkup at h
  split at h
  · split at h
    · exact leads_of_scanCdata h
    · exact leads_of_scanComment h
    · exact leads_of_scanDoctype h
    · exact leads_of_scanDoctype h
    · cases h
  · exact leads_of_scanInstruction h
  · exact leads_of_scanEndTag h
  · exact leads_of_scanTag h

end

/-- **One token** stands at the place from which it was scanned. -/
theorem leads_of_scan {place behind : Place} {located : Located}
    (h : scan place = .ok (some (located, behind))) :
    located.offset = place.offset ∧
      located.token.Leads place.offset place.rest behind := by
  obtain ⟨text, offset⟩ := place
  unfold scan at h
  split at h
  · cases h
  · rename_i rest hrest
    obtain ⟨⟨token, after⟩, hfound, hlocated⟩ := bind_eq_ok_iff.mp h
    cases hlocated
    exact ⟨rfl, hrest ▸ leads_of_scanMarkup hfound⟩
  · -- a text goes on to the next `<`, and it does not begin with one
    rename_i c rest hother hrest
    cases h
    refine ⟨rfl, c :: rest.takeWhile (· ≠ '<'), ?_, .text (List.cons_ne_nil _ _) ?_, rfl⟩
    · rw [List.cons_append, List.takeWhile_append_dropWhile]
      exact hrest
    · intro hmem
      rcases List.mem_cons.mp hmem with hfirst | hmem
      · exact hother hfirst.symm
      · exact absurd (List.mem_takeWhile_imp hmem) (by decide)

/-! ## All tokens -/

/-- A text is read from a place to its end: its tokens, each with the offset behind it. -/
inductive Reads : Place → List (Located × Nat) → Prop where
  | nil {place : Place} (h : scan place.skipSpace = .ok none) : Reads place []
  | cons {place behind : Place} {located : Located} {rest : List (Located × Nat)}
      (h : scan place.skipSpace = .ok (some (located, behind))) (hrest : Reads behind rest) :
      Reads place ((located, behind.offset) :: rest)

/-- A text that has no fault is read to its end, from any place on. -/
theorem exists_reads_of_lexOnto {done : List Located} {place : Place}
    (h : (lexOnto done place).fault = none) :
    ∃ reads, Reads place reads ∧
      (lexOnto done place).tokens = done.reverse ++ reads.map Prod.fst := by
  fun_induction lexOnto done place with
  | case1 => cases h
  | case2 done place hscan => exact ⟨[], .nil hscan, (List.append_nil _).symm⟩
  | case3 done place located behind hscan ih =>
    obtain ⟨reads, hreads, htokens⟩ := ih h
    refine ⟨_, .cons hscan hreads, ?_⟩
    rw [htokens, List.reverse_cons, List.append_assoc]
    rfl

/-- A text without a fault is read to its end. -/
theorem exists_reads_of_lex {text : List Char} (h : (lex text).fault = none) :
    ∃ reads, Reads ⟨text, 0⟩ reads ∧ (lex text).tokens = reads.map Prod.fst :=
  exists_reads_of_lexOnto h

/-- How tokens are laid out in a text that begins at an offset, each with the offset behind it:
nothing but white space stands between them. -/
inductive LaidOut : Nat → List Char → List (Located × Nat) → Prop where
  | nil (offset : Nat) {space : List Char} (hspace : IsSpace space) : LaidOut offset space []
  | cons {offset start stop : Nat} {space piece behind : List Char} {token : Token}
      {rest : List (Located × Nat)} (hspace : IsSpace space)
      (hstart : start = offset + Text.byteLength space) (hpiece : token.SpelledBy piece)
      (hstop : stop = start + Text.byteLength piece) (hrest : LaidOut stop behind rest) :
      LaidOut offset (space ++ (piece ++ behind)) ((⟨start, token⟩, stop) :: rest)

/-- Where nothing more is scanned, nothing but white space is left. -/
theorem isSpace_of_scan_skipSpace {place : Place} (h : scan place.skipSpace = .ok none) :
    IsSpace place.rest := by
  unfold scan at h
  split at h
  · rename_i hrest
    exact fun c => List.dropWhile_eq_nil_iff.mp hrest c
  · obtain ⟨found, -, hnone⟩ := bind_eq_ok_iff.mp h
    cases hnone
  · cases h

/-- **All tokens** of a text that is read are laid out in it. -/
theorem Reads.laidOut {place : Place} {reads : List (Located × Nat)} (h : Reads place reads) :
    LaidOut place.offset place.rest reads := by
  induction h with
  | nil h => exact .nil _ (isSpace_of_scan_skipSpace h)
  | @cons place behind located rest h _ ih =>
    obtain ⟨start, token⟩ := located
    obtain ⟨hstart, piece, hpieces, hpiece, hstop⟩ := leads_of_scan h
    have hrest : place.rest
        = place.rest.takeWhile Text.isMarkupSpace ++ (piece ++ behind.rest) := by
      rw [← hpieces]
      exact List.takeWhile_append_dropWhile.symm
    rw [hrest]
    exact .cons (isSpace_takeWhile _) hstart hpiece (hstop.trans (by rw [← hstart])) ih

/-! ## Where a token stands -/

/-- No token is empty. -/
theorem Token.SpelledBy.byteLength_pos {token : Token} {piece : List Char}
    (h : token.SpelledBy piece) : 0 < Text.byteLength piece := by
  apply Text.byteLength_pos
  cases h with
  | text hne _ => exact hne
  | startTag | emptyTag | endTag | cdata | comment | instruction | doctype =>
    exact List.cons_ne_nil _ _

namespace LaidOut

variable {offset stop : Nat} {text : List Char} {located : Located}
  {reads : List (Located × Nat)}

/-- A token is spelled in the text at its offset. -/
theorem exists_eq_append (h : LaidOut offset text reads) (hmem : (located, stop) ∈ reads) :
    ∃ front piece behind, text = front ++ (piece ++ behind) ∧ located.token.SpelledBy piece ∧
      located.offset = offset + Text.byteLength front ∧
      stop = located.offset + Text.byteLength piece := by
  induction h with
  | nil => cases hmem
  | @cons offset start after space piece behind token rest _ hstart hpiece hstop _ ih =>
    rcases List.mem_cons.mp hmem with hfirst | hmem
    · cases hfirst
      exact ⟨space, piece, behind, rfl, hpiece, hstart, hstop⟩
    · obtain ⟨front, other, tail, rfl, hother, hoffset, hbehind⟩ := ih hmem
      refine ⟨space ++ (piece ++ front), other, tail, ?_, hother, ?_, hbehind⟩
      · simp only [List.append_assoc]
      · rw [Text.byteLength_append, Text.byteLength_append]
        omega

theorem le_offset (h : LaidOut offset text reads) (hmem : (located, stop) ∈ reads) :
    offset ≤ located.offset := by
  obtain ⟨front, _, _, _, _, hoffset, _⟩ := h.exists_eq_append hmem
  omega

/-- Tokens stand one behind the other. -/
theorem pairwise_lt (h : LaidOut offset text reads) :
    reads.Pairwise fun read later => read.1.offset < later.1.offset := by
  induction h with
  | nil => exact .nil
  | cons _ _ hpiece hstop hrest ih =>
    refine List.pairwise_cons.mpr ⟨fun later hlater => ?_, ih⟩
    have hpos := hpiece.byteLength_pos
    have hle := hrest.le_offset hlater
    dsimp only
    omega

end LaidOut

end Markup

end BinaryXml
