import BinaryXml.Markup.Attributes
import BinaryXml.StringPool.Basic
import Mathlib.Data.List.TakeWhile

/-!
# The attributes of a tag as they stand

`SpellsTag content name attributes` says how a name and attributes stand in a tag, without a word
about how they are scanned. The scanner accepts just the contents that are spelled so, and it gives
the attributes in the order in which they stand (`spellsTag_iff`).
-/

namespace BinaryXml.Markup

/-- Nothing but the white space of markup. -/
def IsSpace (text : List Char) : Prop :=
  ∀ c ∈ text, Text.isMarkupSpace c = true

/-- Attributes one after the other: each a key, an equals sign and a value in quotes, its references
replaced. White space may stand ahead of a key, around the sign and behind the last value. -/
inductive Spells : List Char → List (String × String) → Prop where
  | nil {space : List Char} (hspace : IsSpace space) : Spells space []
  | cons {ahead others gap pad raw value behind : List Char} {first quote : Char}
      {attributes : List (String × String)} (hahead : IsSpace ahead)
      (hfirst : Text.isMarkupSpace first = false) (hothers : ∀ c ∈ others, isKeyCharacter c = true)
      (hgap : IsSpace gap) (hpad : IsSpace pad) (hquote : quote = '"' ∨ quote = '\'')
      (hraw : quote ∉ raw) (hvalue : unescape raw = .ok value)
      (hbehind : Spells behind attributes) :
      Spells
        (ahead ++ first :: (others ++ (gap ++ '=' :: (pad ++ quote :: (raw ++ quote :: behind)))))
        ((String.ofList (first :: others), String.ofList value) :: attributes)

/-- The content of a tag: a name up to the first white space and attributes behind it, no two of
them under one key. -/
structure SpellsTag (content : List Char) (name : String) (attributes : List (String × String)) :
    Prop where
  exists_behind : ∃ behind, content = name.toList ++ behind ∧
    (∀ c ∈ name.toList, Text.isMarkupSpace c = false) ∧
    (∀ c ∈ behind.head?, Text.isMarkupSpace c = true) ∧ Spells behind attributes
  nodup_keys : (attributes.map Prod.fst).Nodup

/-- In single quotes and without white space around its sign, an attribute is spelled. -/
theorem Spells.quoted {ahead others raw value behind : List Char} {first : Char}
    {attributes : List (String × String)} (hahead : IsSpace ahead)
    (hfirst : Text.isMarkupSpace first = false) (hothers : ∀ c ∈ others, isKeyCharacter c = true)
    (hraw : '\'' ∉ raw) (hvalue : unescape raw = .ok value) (hbehind : Spells behind attributes) :
    Spells (ahead ++ first :: (others ++ '=' :: '\'' :: (raw ++ '\'' :: behind)))
      ((String.ofList (first :: others), String.ofList value) :: attributes) := by
  have hnone : IsSpace [] := List.forall_mem_nil _
  have hspells := hbehind.cons hahead hfirst hothers hnone hnone (.inr rfl) hraw hvalue
  exact hspells

/-! ## Skipping -/

section

variable {p : Char → Bool} {front back : List Char}

theorem takeWhile_append (hfront : ∀ c ∈ front, p c = true)
    (hback : ∀ c ∈ back.head?, p c = false) : (front ++ back).takeWhile p = front := by
  rw [List.takeWhile_append_of_pos hfront]
  cases back with
  | nil => rw [List.takeWhile_nil, List.append_nil]
  | cons c rest => rw [List.takeWhile_cons_of_neg (by simp [hback c rfl]), List.append_nil]

theorem dropWhile_append (hfront : ∀ c ∈ front, p c = true)
    (hback : ∀ c ∈ back.head?, p c = false) : (front ++ back).dropWhile p = back := by
  rw [List.dropWhile_append_of_pos hfront]
  cases back with
  | nil => rfl
  | cons c rest => rw [List.dropWhile_cons_of_neg (by simp [hback c rfl])]

/-- What is skipped is the front up to the first character of another class. -/
theorem Content.skip_append (hfront : ∀ c ∈ front, p c = true)
    (hback : ∀ c ∈ back.head?, p c = false) (position : Nat) :
    Content.skip p ⟨front ++ back, position⟩ = ⟨back, position + Text.byteLength front⟩ := by
  rw [skip, takeWhile_append hfront hback, dropWhile_append hfront hback]

end

theorem isSpace_takeWhile (text : List Char) : IsSpace (text.takeWhile Text.isMarkupSpace) :=
  fun _ hc => List.mem_takeWhile_imp hc

/-- A key ends at white space and at an equals sign. -/
theorem isKeyCharacter_head_eq_false {gap : List Char} (hgap : IsSpace gap) (rest : List Char) :
    ∀ c ∈ (gap ++ '=' :: rest).head?, isKeyCharacter c = false := by
  intro c hc
  cases gap with
  | nil =>
    cases hc
    rfl
  | cons first gap =>
    cases hc
    rw [isKeyCharacter, hgap _ List.mem_cons_self, Bool.not_true, Bool.and_false]

/-- White space ends at a character that is none. -/
theorem isMarkupSpace_head_eq_false {first : Char} (hfirst : Text.isMarkupSpace first = false)
    (rest : List Char) :
    ∀ c ∈ (first :: rest).head?, Text.isMarkupSpace c = false := by
  intro c hc
  cases hc
  exact hfirst

theorem isMarkupSpace_quote {quote : Char} (hquote : quote = '"' ∨ quote = '\'') :
    Text.isMarkupSpace quote = false := by
  rcases hquote with rfl | rfl <;> rfl

/-! ## Keys and values -/

/-- What is scanned as a key is the first character and the key characters behind it. -/
theorem exists_of_scanKey {first : Char} {others : List Char} {position : Nat} {key : String}
    {behind : Content} (h : scanKey first others position = .ok (key, behind)) :
    ∃ tail gap, others = tail ++ (gap ++ '=' :: behind.rest) ∧
      (∀ c ∈ tail, isKeyCharacter c = true) ∧ IsSpace gap ∧
      key = String.ofList (first :: tail) := by
  unfold scanKey at h
  dsimp only at h
  split at h
  · rename_i rest hrest
    cases h
    have hsign : (others.dropWhile isKeyCharacter).dropWhile Text.isMarkupSpace = '=' :: rest :=
      hrest
    refine ⟨others.takeWhile isKeyCharacter,
      (others.dropWhile isKeyCharacter).takeWhile Text.isMarkupSpace, ?_,
      fun c hc => List.mem_takeWhile_imp hc, isSpace_takeWhile _, rfl⟩
    rw [← hsign, List.takeWhile_append_dropWhile, List.takeWhile_append_dropWhile]
  · cases h

/-- A key that is spelled is scanned, up to its equals sign. -/
theorem exists_scanKey {tail gap : List Char} (htail : ∀ c ∈ tail, isKeyCharacter c = true)
    (hgap : IsSpace gap) (first : Char) (rest : List Char) (position : Nat) :
    ∃ stop, scanKey first (tail ++ (gap ++ '=' :: rest)) position
      = .ok (String.ofList (first :: tail), ⟨rest, stop⟩) := by
  have hstop := isKeyCharacter_head_eq_false hgap rest
  unfold scanKey
  dsimp only
  rw [takeWhile_append htail hstop, Content.skip_append htail hstop,
    Content.skip_append hgap (isMarkupSpace_head_eq_false rfl _)]
  exact ⟨_, rfl⟩

/-- What is scanned as a value stands between two quotes of one kind and does not hold another. -/
theorem exists_of_scanValue {content behind : Content} {raw : List Char}
    (h : scanValue content = .ok (raw, behind)) :
    ∃ pad quote, content.rest = pad ++ quote :: (raw ++ quote :: behind.rest) ∧ IsSpace pad ∧
      (quote = '"' ∨ quote = '\'') ∧ quote ∉ raw := by
  unfold scanValue at h
  dsimp only at h
  split at h
  · cases h
  · -- behind the white space something stands, and it has to be a quote
    rename_i quote rest hrest
    split at h
    · rename_i hquote
      split at h
      · cases h
      · rename_i last tail htail
        cases h
        have hstart : content.rest.dropWhile Text.isMarkupSpace = quote :: rest := hrest
        have hstop : rest.dropWhile (· ≠ quote) = last :: tail := htail
        obtain rfl : last = quote := by
          have hhead := List.head?_dropWhile_not (· ≠ quote) rest
          rw [hstop] at hhead
          simpa using hhead
        refine ⟨content.rest.takeWhile Text.isMarkupSpace, last, ?_, isSpace_takeWhile _, hquote,
          fun hmem => ?_⟩
        · dsimp only
          rw [← hstop, List.takeWhile_append_dropWhile, ← hstart, List.takeWhile_append_dropWhile]
        · simpa using List.mem_takeWhile_imp hmem
    · cases h

/-- A value that is spelled is scanned up to its second quote. It holds none of that kind, so the
first one found is its end. -/
theorem exists_scanValue {pad raw : List Char} {quote : Char} (hpad : IsSpace pad)
    (hquote : quote = '"' ∨ quote = '\'') (hraw : quote ∉ raw) (rest : List Char) (position : Nat) :
    ∃ stop, scanValue ⟨pad ++ quote :: (raw ++ quote :: rest), position⟩
      = .ok (raw, ⟨rest, stop⟩) := by
  have hfront : ∀ c ∈ raw, decide (c ≠ quote) = true := by
    intro c hc
    exact decide_eq_true fun hequal => hraw (hequal ▸ hc)
  have hback : ∀ c ∈ (quote :: rest).head?, decide (c ≠ quote) = false := by
    intro c hc
    cases hc
    exact decide_eq_false fun hne => hne rfl
  unfold scanValue
  rw [Content.skip_append hpad (isMarkupSpace_head_eq_false (isMarkupSpace_quote hquote) _)]
  dsimp only
  rw [if_pos hquote, takeWhile_append hfront hback, Content.skip_append hfront hback]
  exact ⟨_, rfl⟩

/-! ## The whole content -/

variable {keys : Std.ExtHashMap String Nat} {done attributes : List (String × String)}

/-- What is found behind some attributes: more of them, under keys that none has had. -/
structure Found (keys : Std.ExtHashMap String Nat) (text : List Char)
    (found : List (String × String)) : Prop where
  spells : Spells text found
  nodup_keys : (found.map Prod.fst).Nodup
  new_keys : ∀ attr ∈ found, keys[attr.1]? = none

/-- A key is new behind another one when it is another key and was new before. -/
theorem getElem?_insert_eq_none_iff {key other : String} {position : Nat} :
    (keys.insert key position)[other]? = none ↔ other ≠ key ∧ keys[other]? = none := by
  rw [Std.ExtHashMap.getElem?_insert]
  by_cases hequal : key = other
  · simp [hequal]
  · simp [hequal, Ne.symm hequal]

/-- Behind an attribute the others are found under keys that are not its own. -/
theorem Found.cons {key value : String} {position : Nat} {text behind : List Char}
    {found : List (String × String)}
    (hspells : Spells behind found → Spells text ((key, value) :: found))
    (hnew : keys[key]? = none) (h : Found (keys.insert key position) behind found) :
    Found keys text ((key, value) :: found) where
  spells := hspells h.spells
  nodup_keys := by
    rw [List.map_cons, List.nodup_cons]
    refine ⟨fun hmem => ?_, h.nodup_keys⟩
    obtain ⟨attr, hattr, hkey⟩ := List.mem_map.mp hmem
    exact (getElem?_insert_eq_none_iff.mp (h.new_keys attr hattr)).1 hkey
  new_keys := List.forall_mem_cons.mpr
    ⟨hnew, fun attr hattr => (getElem?_insert_eq_none_iff.mp (h.new_keys attr hattr)).2⟩

/-- What is scanned behind some attributes is spelled there, under keys that were new. The induction
follows the scan. -/
theorem found_of_attributesOnto {content : Content}
    (h : attributesOnto keys done content = .ok attributes) :
    ∃ found, Found keys content.rest found ∧ attributes = done.reverse ++ found := by
  fun_induction attributesOnto keys done content with
  | case1 keys done content start hrest =>
    cases h
    have hspace : IsSpace content.rest := by
      have hnil : content.rest.dropWhile Text.isMarkupSpace = [] := hrest
      exact List.dropWhile_eq_nil_iff.mp hnil
    exact ⟨[], ⟨.nil hspace, List.nodup_nil, List.forall_mem_nil _⟩, (List.append_nil _).symm⟩
  | case2 | case3 | case4 | case5 => cases h
  | case6 keys done content start first others hrest key behindKey hkey hnew raw behind hvalue value
      hunescape ih =>
    obtain ⟨found, hfound, rfl⟩ := ih h
    obtain ⟨tail, gap, rfl, htail, hgap, rfl⟩ := exists_of_scanKey hkey
    obtain ⟨pad, quote, hpadded, hpad, hquote, hraw⟩ := exists_of_scanValue hvalue
    -- behind white space come a key, its sign and its value
    have hstart : content.rest.dropWhile Text.isMarkupSpace
        = first :: (tail ++ (gap ++ '=' :: behindKey.rest)) := hrest
    have hfirst : Text.isMarkupSpace first = false := by
      have hhead := List.head?_dropWhile_not Text.isMarkupSpace content.rest
      rw [hstart] at hhead
      simpa using hhead
    have hspells : Spells behind.rest found →
        Spells content.rest ((String.ofList (first :: tail), String.ofList value) :: found) := by
      intro hbehind
      rw [← List.takeWhile_append_dropWhile (p := Text.isMarkupSpace) (l := content.rest), hstart,
        hpadded]
      exact .cons (isSpace_takeWhile _) hfirst htail hgap hpad hquote hraw hunescape hbehind
    refine ⟨_, Found.cons hspells hnew hfound, ?_⟩
    rw [List.reverse_cons, List.append_assoc, List.singleton_append]

/-- Behind the last attribute the scan ends. -/
theorem attributesOnto_of_rest_eq_nil {content : Content}
    (hrest : (content.skip Text.isMarkupSpace).rest = []) :
    attributesOnto keys done content = .ok done.reverse := by
  rw [attributesOnto]
  split
  · rfl
  · rename_i h
    rw [hrest] at h
    cases h

/-- Where an attribute is scanned under a new key, the scan goes on behind it. -/
theorem attributesOnto_of_scan {content behindKey behind : Content} {first : Char}
    {others raw value : List Char} {key : String}
    (hrest : (content.skip Text.isMarkupSpace).rest = first :: others)
    (hkey : scanKey first others (content.skip Text.isMarkupSpace).position = .ok (key, behindKey))
    (hnew : keys[key]? = none) (hraw : scanValue behindKey = .ok (raw, behind))
    (hvalue : unescape raw = .ok value) :
    attributesOnto keys done content
      = attributesOnto (keys.insert key (content.skip Text.isMarkupSpace).position)
          ((key, String.ofList value) :: done) behind := by
  rw [attributesOnto]
  split
  · rename_i h
    rw [hrest] at h
    cases h
  · rename_i h
    cases hrest.symm.trans h
    split
    · rename_i h
      cases hkey.symm.trans h
    · rename_i h
      cases hkey.symm.trans h
      rw [hnew]
      dsimp only
      split
      · rename_i h
        cases hraw.symm.trans h
      · rename_i h
        cases hraw.symm.trans h
        rw [hvalue]

/-- Attributes that are spelled under new keys are all scanned, in the order in which they stand. -/
theorem attributesOnto_of_found {text : List Char} {found : List (String × String)}
    (h : Spells text found) (hnodup : (found.map Prod.fst).Nodup)
    (hnew : ∀ attr ∈ found, keys[attr.1]? = none) (position : Nat) :
    attributesOnto keys done ⟨text, position⟩ = .ok (done.reverse ++ found) := by
  induction h generalizing keys done position with
  | @nil space hspace =>
    have hrest : (Content.skip Text.isMarkupSpace ⟨space, position⟩).rest = [] :=
      List.dropWhile_eq_nil_iff.mpr hspace
    rw [attributesOnto_of_rest_eq_nil hrest, List.append_nil]
  | @cons ahead others gap pad raw value behind first quote found hahead hfirst hothers hgap hpad
      hquote hraw hvalue _ ih =>
    obtain ⟨hkeyNew, hothersNew⟩ := List.forall_mem_cons.mp hnew
    obtain ⟨hkeyOnce, hothersOnce⟩ := List.nodup_cons.mp hnodup
    -- the white space, the key and the value are scanned one after the other
    have hskip := Content.skip_append hahead (isMarkupSpace_head_eq_false hfirst
      (others ++ (gap ++ '=' :: (pad ++ quote :: (raw ++ quote :: behind))))) position
    obtain ⟨stop, hkey⟩ := exists_scanKey hothers hgap first
      (pad ++ quote :: (raw ++ quote :: behind)) (position + Text.byteLength ahead)
    obtain ⟨finish, hscan⟩ := exists_scanValue hpad hquote hraw behind stop
    rw [attributesOnto_of_scan (by rw [hskip]) (by rw [hskip, hkey]) hkeyNew hscan hvalue,
      ih hothersOnce ?_, List.reverse_cons, List.append_assoc, List.singleton_append]
    intro attr hattr
    refine getElem?_insert_eq_none_iff.mpr ⟨fun hequal => hkeyOnce ?_, hothersNew attr hattr⟩
    exact hequal ▸ List.mem_map_of_mem hattr

/-- **The content of a tag** is scanned as the name and the attributes that it is spelled with. It
is an error when there are none such. -/
theorem spellsTag_iff {content : List Char} {name : String} :
    SpellsTag content name attributes ↔
      name = String.ofList (tagName content) ∧ tagAttributes content = .ok attributes := by
  constructor
  · rintro ⟨⟨behind, rfl, hname, hbehind, hspells⟩, hnodup⟩
    have hfront : ∀ c ∈ name.toList, (!Text.isMarkupSpace c) = true := by
      -- the name ends at the first white space, which is the front of what is behind it
      intro c hc
      rw [hname c hc, Bool.not_false]
    have hback : ∀ c ∈ behind.head?, (!Text.isMarkupSpace c) = false := by
      intro c hc
      rw [hbehind c hc, Bool.not_true]
    rw [tagName, takeWhile_append hfront hback, String.ofList_toList, tagAttributes,
      Content.skip_append hfront hback]
    exact ⟨rfl, attributesOnto_of_found hspells hnodup
      (fun _ _ => Std.ExtHashMap.getElem?_empty) _⟩
  · rintro ⟨rfl, h⟩
    obtain ⟨found, hfound, rfl⟩ := found_of_attributesOnto h
    refine ⟨⟨content.dropWhile (!Text.isMarkupSpace ·), ?_, ?_, ?_, hfound.spells⟩,
      hfound.nodup_keys⟩
    · rw [String.toList_ofList, tagName, List.takeWhile_append_dropWhile]
    · intro c hc
      rw [String.toList_ofList] at hc
      simpa using List.mem_takeWhile_imp hc
    · intro c hc
      have hhead := List.head?_dropWhile_not (!Text.isMarkupSpace ·) content
      rw [Option.mem_def.mp hc] at hhead
      simpa using hhead

end BinaryXml.Markup
