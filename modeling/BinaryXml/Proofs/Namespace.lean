import BinaryXml.Namespace
import BinaryXml.Proofs.Repeats

/-!
# Runs of declarations

A table is filled by a run of two kinds of calls. When prefixes and their indices correspond, the
table lists the declared bindings without repeats (`declared_run`), so that a prefix is bound by its
first declaration (`resolve_run`), while `xmlPrefix` is bound by the last call that binds it and by
nothing else. `records_run` says all of this of a run, and what the calls after it may change.
-/

namespace BinaryXml.NamespaceTable

/-- A call that changes a table. -/
inductive Call where
  | declare (name : String) (binding : Binding)
  | bindXml (uri : UInt32)

/-- The table after a call. -/
def Call.apply (table : NamespaceTable) : Call → NamespaceTable
  | .declare name binding => table.declare name binding
  | .bindXml uri => table.bindXml uri

def run (table : NamespaceTable) (calls : List Call) : NamespaceTable :=
  calls.foldl Call.apply table

def declares (calls : List Call) : List (String × Binding) :=
  calls.filterMap fun
    | .declare name binding => some (name, binding)
    | .bindXml _ => none

/-- The uris that some calls bind `xmlPrefix` to. -/
def xmlUris (calls : List Call) : List UInt32 :=
  calls.filterMap fun
    | .declare .. => none
    | .bindXml uri => some uri

/-- Prefixes and their indices correspond one to one. -/
def Coherent (declared : List (String × Binding)) : Prop :=
  ∀ a ∈ declared, ∀ b ∈ declared, a.1 = b.1 ↔ a.2.name = b.2.name

theorem run_append (table : NamespaceTable) (first second : List Call) :
    table.run (first ++ second) = (table.run first).run second :=
  List.foldl_append

/-! ## Declared bindings -/

/-- A declaration is listed unless it is listed already. The table compares bindings alone; by the
correspondence of prefixes and indices it then compares the declarations. -/
theorem toList_declared_declare (table : NamespaceTable) (name : String) (binding : Binding)
    (h : Coherent (table.declared.toList ++ [(name, binding)])) :
    (table.declare name binding).declared.toList
      = if (name, binding) ∈ table.declared.toList then table.declared.toList
        else table.declared.toList ++ [(name, binding)] := by
  -- by the correspondence, an equal binding is one of the same prefix
  have hany : table.declared.any (·.2 = binding) = true
      ↔ (name, binding) ∈ table.declared.toList := by
    rw [← Array.any_toList, List.any_eq_true]
    constructor
    · rintro ⟨⟨other, found⟩, hmem, hequal⟩
      obtain rfl : found = binding := of_decide_eq_true hequal
      have hnames := h _ (List.mem_append_left _ hmem) (name, found)
        (List.mem_append_right _ List.mem_cons_self)
      obtain rfl : other = name := hnames.mpr rfl
      exact hmem
    · intro hmem
      exact ⟨(name, binding), hmem, decide_eq_true rfl⟩
  unfold declare
  by_cases hmem : (name, binding) ∈ table.declared.toList
  · rw [if_pos hmem, if_pos (hany.mpr hmem)]
  · rw [if_neg hmem, if_neg (fun h => hmem (hany.mp h)), Array.toList_push]

/-- **Each binding is listed once**, in the order of the first declarations. -/
theorem declared_run {calls : List Call} (h : Coherent (declares calls)) :
    (run {} calls).declared.toList = (declares calls).eraseDups := by
  induction calls using List.reverseRecOn with
  | nil => rfl
  | append_singleton calls call ih =>
    rw [run_append]
    cases call with
    | bindXml uri =>
      -- nothing is declared by this call
      have hdeclares : declares (calls ++ [.bindXml uri]) = declares calls := by
        simp [declares]
      rw [hdeclares] at h ⊢
      exact ih h
    | declare name binding =>
      have hdeclares : declares (calls ++ [.declare name binding])
          = declares calls ++ [(name, binding)] := by
        simp [declares]
      rw [hdeclares] at h ⊢
      have hcalls := ih fun a ha b hb => h a (List.mem_append_left _ ha) b
        (List.mem_append_left _ hb)
      -- what is listed so far is what was declared so far, without its repeats
      have htable : Coherent ((run {} calls).declared.toList ++ [(name, binding)]) := by
        rw [hcalls]
        intro a ha b hb
        simp only [List.mem_append, List.mem_eraseDups] at ha hb
        exact h a (List.mem_append.mpr ha) b (List.mem_append.mpr hb)
      show ((run {} calls).declare name binding).declared.toList = _
      rw [toList_declared_declare _ _ _ htable, hcalls, eraseDups_append_singleton]
      simp only [List.mem_eraseDups]

/-- A prefix that is not `xmlPrefix` is bound by its first declaration. -/
theorem resolve_run {calls : List Call} (h : Coherent (declares calls)) {name : String}
    (hname : name ≠ xmlPrefix) :
    (run {} calls).resolve name
      = ((declares calls).find? (·.1 = name)).map (·.2.uri) := by
  rw [resolve, if_neg hname, ← Array.find?_toList, declared_run h, find?_eraseDups]

/-! ## The prefix without a declaration -/

theorem xmlUri_declare (table : NamespaceTable) (name : String) (binding : Binding) :
    (table.declare name binding).xmlUri = table.xmlUri := by
  unfold declare
  split <;> rfl

/-- `xmlPrefix` is bound by the last call that binds it. -/
theorem xmlUri_run (calls : List Call) : (run {} calls).xmlUri = (xmlUris calls).getLast? := by
  induction calls using List.reverseRecOn with
  | nil => rfl
  | append_singleton calls call ih =>
    rw [run_append]
    cases call with
    | declare name binding =>
      have hsame : xmlUris (calls ++ [.declare name binding]) = xmlUris calls := by
        simp [xmlUris]
      rw [hsame, ← ih]
      exact xmlUri_declare _ _ _
    | bindXml uri =>
      have hlast : xmlUris (calls ++ [.bindXml uri]) = xmlUris calls ++ [uri] := by
        simp [xmlUris]
      rw [hlast, List.getLast?_concat]
      rfl

/-! ## What a call leaves as it was -/

theorem bindings_bindXml (table : NamespaceTable) (uri : UInt32) :
    (table.bindXml uri).bindings = table.bindings :=
  rfl

theorem resolve_bindXml {name : String} (hname : name ≠ xmlPrefix) (table : NamespaceTable)
    (uri : UInt32) : (table.bindXml uri).resolve name = table.resolve name := by
  rw [resolve, if_neg hname, resolve, if_neg hname, bindXml]

theorem resolve_xmlPrefix (table : NamespaceTable) : table.resolve xmlPrefix = table.xmlUri :=
  if_pos rfl

/-- A declaration comes behind the others, so it is not found where one of them is. -/
theorem resolve_declare_of_eq_some {table : NamespaceTable} {name : String} {uri : UInt32}
    (hname : name ≠ xmlPrefix) (h : table.resolve name = some uri) (other : String)
    (binding : Binding) : (table.declare other binding).resolve name = some uri := by
  unfold declare
  split
  · exact h
  · rw [resolve, if_neg hname] at h ⊢
    obtain ⟨found, hfound, huri⟩ := Option.map_eq_some_iff.mp h
    rw [Array.find?_push, hfound, Option.some_or, Option.map_some, huri]

/-- No call changes what a prefix is bound to. -/
theorem resolve_apply_of_eq_some {table : NamespaceTable} {name : String} {uri : UInt32}
    (hname : name ≠ xmlPrefix) (h : table.resolve name = some uri) (call : Call) :
    (call.apply table).resolve name = some uri := by
  cases call with
  | declare other binding => exact resolve_declare_of_eq_some hname h other binding
  | bindXml bound => exact (resolve_bindXml hname table bound).trans h

/-- **A prefix that is bound stays bound to its uri**, whatever calls follow. -/
theorem resolve_run_of_eq_some {table : NamespaceTable} {name : String} {uri : UInt32}
    (hname : name ≠ xmlPrefix) (h : table.resolve name = some uri) (calls : List Call) :
    (table.run calls).resolve name = some uri := by
  induction calls generalizing table with
  | nil => exact h
  | cons call rest ih => exact ih (resolve_apply_of_eq_some hname h call)

/-! ## Whole runs -/

/-- A table records some calls, and each of its answers is settled by the calls that it is about. -/
structure Records (calls : List Call) (table : NamespaceTable) : Prop where
  /-- Every binding that was declared is listed, in the order of the first declarations. -/
  bindings_eq : table.bindings = ((declares calls).map Prod.snd).eraseDups
  /-- None is listed twice. -/
  nodup_bindings : table.bindings.Nodup
  /-- A prefix is bound by its first declaration, and by nothing without one. -/
  resolve_eq : ∀ name, name ≠ xmlPrefix →
    table.resolve name = ((declares calls).find? (·.1 = name)).map (·.2.uri)
  /-- What a prefix is bound to stays so in every later run. -/
  resolve_later : ∀ name uri, name ≠ xmlPrefix → table.resolve name = some uri →
    ∀ later, (table.run later).resolve name = some uri
  /-- `xmlPrefix` is bound by the last call that binds it. -/
  resolve_xmlPrefix_eq : table.resolve xmlPrefix = (xmlUris calls).getLast?
  /-- No declaration changes what `xmlPrefix` is bound to. -/
  resolve_declare : ∀ name binding,
    (table.declare name binding).resolve xmlPrefix = table.resolve xmlPrefix
  /-- A call that binds `xmlPrefix` changes no binding and no other answer. -/
  bindXml : ∀ uri, (table.bindXml uri).bindings = table.bindings ∧
    ∀ name, name ≠ xmlPrefix → (table.bindXml uri).resolve name = table.resolve name

/-- The bindings are those that were declared, each once and in the order of their first
declarations. -/
theorem bindings_run {calls : List Call} (h : Coherent (declares calls)) :
    (run {} calls).bindings = ((declares calls).map Prod.snd).eraseDups := by
  -- equal bindings are of one prefix, so no two entries become equal
  have hinjective : ∀ a ∈ declares calls, ∀ b ∈ declares calls, a.2 = b.2 → a = b := by
    intro a ha b hb hbinding
    exact Prod.ext ((h a ha b hb).mpr (congrArg Binding.name hbinding)) hbinding
  rw [bindings, declared_run h, eraseDups_map hinjective]

/-- **What a run of calls records**, when prefixes and their indices correspond. -/
theorem records_run {calls : List Call} (h : Coherent (declares calls)) :
    Records calls (run {} calls) where
  bindings_eq := bindings_run h
  nodup_bindings := by
    rw [bindings_run h]
    exact nodup_eraseDups _
  resolve_eq _ hname := resolve_run h hname
  resolve_later _ _ hname hresolve := resolve_run_of_eq_some hname hresolve
  resolve_xmlPrefix_eq := (resolve_xmlPrefix _).trans (xmlUri_run calls)
  resolve_declare name binding := by
    rw [resolve_xmlPrefix, resolve_xmlPrefix, xmlUri_declare]
  bindXml uri := ⟨bindings_bindXml _ uri, fun _ hname => resolve_bindXml hname _ uri⟩

/-- Two prefixes of one uri, one of them bound again and declared again, and `xmlPrefix` bound twice
with a declaration of it between. -/
def rebound : List Call :=
  [.declare "a" ⟨0, 1⟩, .bindXml 2, .declare "" ⟨3, 1⟩, .declare "a" ⟨0, 4⟩, .declare "xml" ⟨5, 6⟩,
    .declare "a" ⟨0, 1⟩, .bindXml 7]

/-- A second declaration of a prefix is listed and not resolved; `xmlPrefix` is bound by the later
of two calls. -/
theorem records_run_rebound :
    Coherent (declares rebound) ∧
      (run {} rebound).bindings = [⟨0, 1⟩, ⟨3, 1⟩, ⟨0, 4⟩, ⟨5, 6⟩] ∧
      (run {} rebound).resolve "a" = some 1 ∧ (run {} rebound).resolve "b" = none ∧
      (run {} rebound).resolve xmlPrefix = some 7 := by
  have hcoherent : Coherent (declares rebound) := by
    unfold Coherent
    decide
  have h := records_run hcoherent
  refine ⟨hcoherent, h.bindings_eq.trans (by decide),
    (h.resolve_eq "a" (by decide)).trans (by decide),
    (h.resolve_eq "b" (by decide)).trans (by decide), h.resolve_xmlPrefix_eq.trans (by decide)⟩

-- two prefixes of one index: the second declaration is taken for the first and lost
example : (run {} [.declare "a" ⟨0, 1⟩, .declare "b" ⟨0, 1⟩]).resolve "b" = none := by
  cbv

end BinaryXml.NamespaceTable
