import BinaryXml.Proofs.Compile.Failing

/-!
# Compiling keeps the tree

The elements of a compiled file are those of the document (`forest?_of_compile`). The tags of a node
are read back by induction on the tree, inside any elements that are open around it, while each tag
is read back through the pool: every index that the second walk looks up still denotes the string
that the first walk put there.
-/

namespace BinaryXml

/-! ## The elements of a document -/

/-- An ordinary attribute as a file should have it, its prefix standing for a uri. -/
def NamedAttribute.ofOrdinary (uriOf : String → String) :
    Option String × String × String → NamedAttribute
  | (qualifier, localName, value) => ⟨qualifier.map uriOf, localName, some value, .string value⟩

/-- The start tag of an element as a file should have it. -/
def NamedStart.ofTag (uriOf : String → String) (tag : OpenTag) : NamedStart where
  line := tag.line
  comment := none
  uri := none
  name := tag.name
  attributes := tag.ordinary.map (.ofOrdinary uriOf)
  idIndex := 0
  classIndex := 0
  styleIndex := 0

mutual

/-- The elements of a node, texts and comments left out. -/
def Node.elements (uriOf : String → String) : Node → List Element
  | .element name attributes children line =>
    [.mk (.ofTag uriOf (.ofElement name attributes line)) ⟨line, none, none, name⟩
      (elementsAll uriOf children)]
  | .text _ => []
  | .comment _ => []

/-- The elements of some nodes. -/
def elementsAll (uriOf : String → String) : List Node → List Element
  | [] => []
  | node :: rest => node.elements uriOf ++ elementsAll uriOf rest

end

/-- The forest of the elements of a document, texts and comments left out at every depth. -/
def Document.elements (uriOf : String → String) (document : Document) : List Element :=
  elementsAll uriOf document

namespace Compile

variable {unbound : UnboundPolicy} {collected : Collection} {uriOf : String → String}

/-! ## Reading single tags back -/

/-- The uri of every prefix that is resolved at all. -/
def Names (unbound : UnboundPolicy) (collected : Collection) (uriOf : String → String) : Prop :=
  ∀ element name uri, resolve unbound collected.namespaces element name = .ok uri →
    collected.pool.strings.size ≠ 0 → collected.pool.get? uri = some (uriOf name)

/-- Every prefix that is resolved stands for a uri. Under the policy `sentinel` one that is not
declared stands for the first string. -/
theorem exists_names (unbound : UnboundPolicy) {encoding : StringEncoding} {document : Document}
    (h : collection encoding document = .ok collected) :
    ∃ uriOf, Names unbound collected uriOf := by
  refine ⟨fun name => (collected.pool.get?
    ((collected.namespaces.resolve name).getD UnboundPolicy.sentinelIndex)).getD "", ?_⟩
  intro element name uri huri hstrings
  dsimp only
  rcases resolve_eq_ok_iff.mp huri with hbound | ⟨hunbound, -, rfl⟩
  · obtain ⟨s, hs⟩ := exists_get?_of_resolve h hbound
    rw [hbound, Option.getD_some, hs, Option.getD_some]
  · have hget : collected.pool.get? UnboundPolicy.sentinelIndex
        = some collected.pool.strings[0] :=
      Array.getElem?_eq_getElem (Nat.pos_of_ne_zero hstrings)
    rw [hunbound, Option.getD_none, hget, Option.getD_some]

/-- A built attribute is read back as the attribute that it was built of. -/
theorem namedAttribute?_of_build (hpool : collected.pool.WellFormed)
    (hnames : Names unbound collected uriOf) {element : String}
    {ordinary : Option String × String × String} {attr : Attribute}
    (h : buildAttribute unbound collected element ordinary = .ok attr) :
    collected.pool.namedAttribute? attr = some (.ofOrdinary uriOf ordinary) := by
  obtain ⟨qualifier, localName, value⟩ := ordinary
  obtain ⟨uri, valueIndex, nameIndex, huri, hvalue, hname, rfl⟩ := buildAttribute_eq_ok_iff.mp h
  have hgetValue := hpool.get?_of_indexOf? hvalue
  have hgetName := hpool.get?_of_indexOf? hname
  -- the pool holds the value at least
  have hstrings : collected.pool.strings.size ≠ 0 := by
    have hlt := (Array.getElem?_eq_some_iff.mp hgetValue).1
    omega
  have hgetUri : collected.pool.optional? uri = some (qualifier.map uriOf) := by
    -- a prefix is named by its uri, and none stays none
    cases qualifier with
    | none =>
      cases huri
      rfl
    | some name =>
      obtain ⟨found, hfound, rfl⟩ := map_eq_ok_iff.mp huri
      rw [StringPool.optional?, hnames element name found hfound hstrings]
      rfl
  have hgetRaw : collected.pool.optional? (some valueIndex) = some (some value) := by
    rw [StringPool.optional?, hgetValue]
    rfl
  have htyped : collected.pool.namedValue? (.string valueIndex) = some (.string value) := by
    show NamedValue.string <$> collected.pool.get? valueIndex = _
    rw [hgetValue]
    rfl
  rw [StringPool.namedAttribute?, hgetUri, hgetName, hgetRaw, htyped]
  rfl

theorem mapM_namedAttribute?_of_build (hpool : collected.pool.WellFormed)
    (hnames : Names unbound collected uriOf) {element : String}
    {ordinary : List (Option String × String × String)} {attributes : List Attribute}
    (h : List.Forall₂ (fun attr made => buildAttribute unbound collected element attr = .ok made)
      ordinary attributes) :
    attributes.mapM collected.pool.namedAttribute?
      = some (ordinary.map (.ofOrdinary uriOf)) := by
  induction h with
  | nil => rfl
  | cons hattr _ ih =>
    rw [List.mapM_cons, namedAttribute?_of_build hpool hnames hattr, ih]
    rfl

/-- A built start tag is read back as that of its element. -/
theorem namedStart?_of_build (hpool : collected.pool.WellFormed)
    (hnames : Names unbound collected uriOf) {tag : OpenTag} {built : StartTag}
    (h : buildStartTag unbound collected tag = .ok built) :
    collected.pool.namedStart? built = some (.ofTag uriOf tag) := by
  obtain ⟨attributes, name, hattributes, -, hname, rfl⟩ := buildStartTag_eq_ok_iff.mp h
  have hgetName := hpool.get?_of_indexOf? hname
  have hnamed := mapM_namedAttribute?_of_build hpool hnames hattributes
  rw [StringPool.namedStart?, hgetName, hnamed]
  rfl

/-- An end tag is read back with its name. -/
theorem namedEnd?_of_build (hpool : collected.pool.WellFormed) {name : String}
    {line index : UInt32} (h : collected.pool.indexOf? name = some index) :
    collected.pool.namedEnd? ⟨line, none, none, index⟩ = some ⟨line, none, none, name⟩ := by
  rw [StringPool.namedEnd?, hpool.get?_of_indexOf? h]
  rfl

/-! ## Reading the tree back -/

mutual

/-- The tags of a node are read back as its elements, behind those that were read before and inside
those that are open. -/
theorem readForest?_of_buildAll_trace (hpool : collected.pool.WellFormed)
    (hnames : Names unbound collected uriOf) : ∀ (node : Node) {chunks : List Chunk},
    buildAll unbound collected node.trace = .ok chunks →
    ∀ stack done rest, collected.pool.readForest? stack done (chunks ++ rest)
      = collected.pool.readForest? stack ((node.elements uriOf).reverse ++ done) rest
  | .element name attributes children line, chunks, h, stack, done, rest => by
    obtain ⟨built, inner, index, hbuilt, hinner, hindex, rfl⟩ := buildAll_element_eq_ok_iff.mp h
    have hstart := namedStart?_of_build hpool hnames hbuilt
    have hfinish : collected.pool.namedEnd? ⟨line, none, none, index⟩
        = some ⟨line, none, none, name⟩ := namedEnd?_of_build hpool hindex
    rw [List.cons_append, List.cons_append, StringPool.readForest?_startTag hstart,
      List.append_assoc]
    -- the children are read inside the element, with nothing before them
    rw [readForest?_of_buildAll_traceAll hpool hnames children hinner, List.append_nil,
      List.singleton_append, StringPool.readForest?_endTag hfinish, List.reverse_reverse,
      Node.elements]
    rfl
  | .text _, chunks, h, stack, done, rest => by
    cases h
    rfl
  | .comment _, chunks, h, stack, done, rest => by
    cases h
    rfl

theorem readForest?_of_buildAll_traceAll (hpool : collected.pool.WellFormed)
    (hnames : Names unbound collected uriOf) : ∀ (nodes : List Node) {chunks : List Chunk},
    buildAll unbound collected (traceAll nodes) = .ok chunks →
    ∀ stack done rest, collected.pool.readForest? stack done (chunks ++ rest)
      = collected.pool.readForest? stack ((elementsAll uriOf nodes).reverse ++ done) rest
  | [], chunks, h, stack, done, rest => by
    cases h
    rfl
  | node :: nodes, chunks, h, stack, done, rest => by
    rw [traceAll] at h
    obtain ⟨front, back, hfront, hback, rfl⟩ := buildAll_append_eq_ok_iff.mp h
    rw [List.append_assoc, readForest?_of_buildAll_trace hpool hnames node hfront,
      readForest?_of_buildAll_traceAll hpool hnames nodes hback, elementsAll, List.reverse_append,
      List.append_assoc]

end

/-- **Compiling keeps the tree.** The tags of a compiled file, read as brackets through its pool,
are the elements of the document. -/
theorem forest?_of_compile {options : Options} {document : Document} {file : ChunkFile}
    (h : compile options document = .ok file) :
    ∃ uriOf, file.forest? = some (document.elements uriOf) := by
  obtain ⟨collected, chunks, hcollected, hchunks, rfl⟩ := compile_eq_ok_iff.mp h
  obtain ⟨uriOf, hnames⟩ := exists_names options.unbound hcollected
  have hpool := (built_of_collection hcollected).wellFormed
  have hfront : ∀ chunk ∈ Chunk.stringPool collected.pool
      :: (collected.namespaces.bindings.map scopeOf).map .startNamespace, chunk.isTag = false := by
    rw [List.forall_mem_cons]
    refine ⟨rfl, fun chunk hchunk => ?_⟩
    obtain ⟨scope, -, rfl⟩ := List.mem_map.mp hchunk
    rfl
  have hback : ∀ chunk ∈ (collected.namespaces.bindings.map scopeOf).reverse.map
      Chunk.endNamespace, chunk.isTag = false := by
    intro chunk hchunk
    obtain ⟨scope, -, rfl⟩ := List.mem_map.mp hchunk
    rfl
  -- the tags stand between chunks that are passed over
  refine ⟨uriOf, ?_⟩
  show collected.pool.readForest? [] [] (_ ++ chunks ++ _) = _
  rw [List.append_assoc, StringPool.readForest?_append_of_not_isTag hfront,
    readForest?_of_buildAll_traceAll hpool hnames document hchunks,
    ← List.append_nil (List.map _ _), StringPool.readForest?_append_of_not_isTag hback]
  show some _ = some _
  rw [List.append_nil, List.reverse_reverse, Document.elements]

/-- The element with its four attributes, and in it the two elements without any. The declarations
on these are gone, and so are the text and the comment. -/
theorem forest?_of_compile_nested :
    ∃ (file : ChunkFile) (uriOf : String → String),
      compile { unbound := .sentinel } nested = .ok file ∧
      file.forest? = some
        [.mk ⟨1, none, none, "a",
            [⟨some (uriOf "p"), "k", some "v", .string "v"⟩,
              ⟨some (uriOf "xml"), "lang", some "en", .string "en"⟩,
              ⟨some (uriOf "q"), "k", some "v", .string "v"⟩,
              ⟨none, "n", some "v", .string "v"⟩], 0, 0, 0⟩ ⟨1, none, none, "a"⟩
          [.mk ⟨2, none, none, "b", [], 0, 0, 0⟩ ⟨2, none, none, "b"⟩ [],
            .mk ⟨3, none, none, "b", [], 0, 0, 0⟩ ⟨3, none, none, "b"⟩ []]] := by
  obtain ⟨file, hfile⟩ := exists_compile_nested
  obtain ⟨uriOf, hforest⟩ := forest?_of_compile hfile
  exact ⟨file, uriOf, hfile, hforest⟩

end Compile

end BinaryXml
