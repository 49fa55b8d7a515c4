import BinaryXml.Command.Tree
import Mathlib.Data.List.Basic

/-!
# Paths below a directory

What stands in a directory has names without slashes, and different ones. So a path leads to one
file at most, and no file stands where a folder above another does (`pairwise_apart_filesIn`): the
same paths can be used below another directory.
-/

namespace BinaryXml.Command

/-! ## The regular files -/

/-- A directory with these entries holds a regular file under the names that lead to it. -/
inductive Holds : List Entry → List String → Input → Prop
  | file {entries : List Entry} {name : String} {content : Input}
      (hentry : .file name content ∈ entries) : Holds entries [name] content
  | folder {entries inner : List Entry} {name : String} {names : List String} {content : Input}
      (hentry : .folder name inner ∈ entries) (hinner : Holds inner names content) :
      Holds entries (name :: names) content

theorem filesBelow_eq_flatMap (entries : List Entry) :
    filesBelow entries = entries.flatMap Entry.files := by
  induction entries with
  | nil => rfl
  | cons entry rest ih => rw [filesBelow, ih, List.flatMap_cons]

mutual

/-- What is listed of an entry stands below it. -/
theorem Entry.holds_of_mem_files {entries : List Entry} {names : List String} {content : Input} :
    ∀ {entry : Entry}, entry ∈ entries → (names, content) ∈ entry.files →
      Holds entries names content
  | .file name _, hentry, h => by
    cases List.mem_singleton.mp h
    exact .file hentry
  | .folder name inner, hentry, h => by
    obtain ⟨⟨names, content⟩, hmem, heq⟩ := List.mem_map.mp h
    cases heq
    exact .folder hentry (holds_of_mem_filesBelow (List.Subset.refl _) hmem)
  | .other _, _, h => by cases h

/-- What is listed of some entries stands below them. -/
theorem holds_of_mem_filesBelow {entries : List Entry} {names : List String} {content : Input} :
    ∀ {rest : List Entry}, rest ⊆ entries → (names, content) ∈ filesBelow rest →
      Holds entries names content
  | entry :: rest, hrest, h => by
    rw [filesBelow, List.mem_append] at h
    rcases h with h | h
    · exact entry.holds_of_mem_files (hrest List.mem_cons_self) h
    · exact holds_of_mem_filesBelow (List.subset_of_cons_subset hrest) h

end

mutual

/-- Names have no slashes, and those in the same folder are different. -/
def Entry.WellFormed : Entry → Prop
  | .file name _ => '/' ∉ name.toList
  | .folder name entries => '/' ∉ name.toList ∧ WellFormedAll entries
  | .other name => '/' ∉ name.toList

def WellFormedAll : List Entry → Prop
  | [] => True
  | entry :: rest => entry.WellFormed ∧ (∀ other ∈ rest, other.name ≠ entry.name) ∧
    WellFormedAll rest

end

theorem WellFormedAll.of_mem {entries : List Entry} (h : WellFormedAll entries) :
    ∀ entry ∈ entries, entry.WellFormed := by
  induction entries with
  | nil => exact List.forall_mem_nil _
  | cons entry rest ih => exact List.forall_mem_cons.mpr ⟨h.1, ih h.2.2⟩

/-- The names that lead to a file: there is one at least, and none has a slash. -/
def Plain (names : List String) : Prop :=
  names ≠ [] ∧ ∀ name ∈ names, '/' ∉ name.toList

/-- The names on the way to a file have no slashes. -/
theorem Holds.plain {entries : List Entry} {names : List String} {content : Input}
    (h : Holds entries names content) (hentries : WellFormedAll entries) : Plain names := by
  induction h with
  | file hentry =>
    have hname := hentries.of_mem _ hentry
    exact ⟨List.cons_ne_nil _ _, List.forall_mem_singleton.mpr hname⟩
  | folder hentry _ ih =>
    obtain ⟨hname, hinner⟩ := hentries.of_mem _ hentry
    exact ⟨List.cons_ne_nil _ _, List.forall_mem_cons.mpr ⟨hname, (ih hinner).2⟩⟩

/-- The files of an entry are under its name. -/
theorem Entry.exists_eq_cons_of_mem_files {entry : Entry} {file : List String × Input}
    (h : file ∈ entry.files) : ∃ names, file.1 = entry.name :: names := by
  cases entry with
  | file name content =>
    cases List.mem_singleton.mp h
    exact ⟨[], rfl⟩
  | folder name entries =>
    obtain ⟨⟨names, content⟩, -, rfl⟩ := List.mem_map.mp h
    exact ⟨names, rfl⟩
  | other name => cases h

/-- Neither list of names leads to or through where the other leads. -/
def Unrelated (names others : List String) : Prop :=
  ¬ names <+: others ∧ ¬ others <+: names

mutual

/-- No file of an entry leads through another. -/
theorem Entry.pairwise_files : ∀ {entry : Entry}, entry.WellFormed →
    entry.files.Pairwise fun file other => Unrelated file.1 other.1
  | .file _ _, _ => List.pairwise_singleton _ _
  | .folder name entries, h => by
    have hentries := pairwise_filesBelow h.2
    refine List.pairwise_map.mpr (hentries.imp fun {file other} hunrelated => ?_)
    -- the name of the folder is in front of both
    have hcons {names others : List String} (hnot : ¬ names <+: others) :
        ¬ name :: names <+: name :: others := fun h => hnot (List.cons_prefix_cons.mp h).2
    exact ⟨hcons hunrelated.1, hcons hunrelated.2⟩
  | .other _, _ => .nil

/-- No file of a directory stands at the names of another or below them. -/
theorem pairwise_filesBelow : ∀ {entries : List Entry}, WellFormedAll entries →
    (filesBelow entries).Pairwise fun file other => Unrelated file.1 other.1
  | [], _ => .nil
  | entry :: rest, h => by
    refine List.pairwise_append.mpr ⟨entry.pairwise_files h.1, pairwise_filesBelow h.2.2, ?_⟩
    -- the first names differ already
    intro file hfile other hother
    rw [filesBelow_eq_flatMap] at hother
    obtain ⟨entry', hentry', hother⟩ := List.mem_flatMap.mp hother
    obtain ⟨names, hnames⟩ := entry.exists_eq_cons_of_mem_files hfile
    obtain ⟨others, hothers⟩ := entry'.exists_eq_cons_of_mem_files hother
    have hne := h.2.1 entry' hentry'
    rw [Unrelated, hnames, hothers]
    exact ⟨fun hle => hne (List.cons_prefix_cons.mp hle).1.symm,
      fun hle => hne (List.cons_prefix_cons.mp hle).1⟩

end

/-! ## Names in a path -/

/-- The folders found on the way are the parts of the path that stand in front of a slash. -/
theorem mem_foldersOnto_iff {done rest : List Char} {folder : String} :
    folder ∈ foldersOnto done rest ↔
      ∃ before after, rest = before ++ '/' :: after ∧ folder.toList = done.reverse ++ before := by
  induction rest generalizing done with
  | nil => simp [foldersOnto]
  | cons c rest ih =>
    -- the folders behind the head, and the one that ends here if it is a slash
    have hbehind : folder ∈ foldersOnto (c :: done) rest ↔ ∃ before after,
        rest = before ++ '/' :: after ∧ folder.toList = done.reverse ++ c :: before := by
      rw [ih]
      simp
    have hhere : folder = String.ofList done.reverse ↔ folder.toList = done.reverse ++ [] := by
      rw [← String.toList_inj, String.toList_ofList, List.append_nil]
    rw [foldersOnto]
    constructor
    · intro h
      split at h
      · rename_i hslash
        rcases List.mem_cons.mp h with h | h
        · exact ⟨[], rest, congrArg (· :: rest) hslash, hhere.mp h⟩
        · obtain ⟨before, after, rfl, hfolder⟩ := hbehind.mp h
          exact ⟨c :: before, after, rfl, hfolder⟩
      · obtain ⟨before, after, rfl, hfolder⟩ := hbehind.mp h
        exact ⟨c :: before, after, rfl, hfolder⟩
    · rintro ⟨before, after, hrest, hfolder⟩
      cases before with
      | nil =>
        obtain ⟨rfl, rfl⟩ := List.cons.inj hrest
        rw [if_pos rfl]
        exact List.mem_cons.mpr (.inl (hhere.mpr hfolder))
      | cons d before =>
        obtain ⟨rfl, rfl⟩ := List.cons.inj hrest
        have hmem := hbehind.mpr ⟨before, after, rfl, hfolder⟩
        split
        · exact List.mem_cons_of_mem _ hmem
        · exact hmem

/-- A folder above a path is what stands in front of a slash. -/
theorem mem_foldersAbove_iff {path folder : String} :
    folder ∈ foldersAbove path ↔ folder.toList ++ ['/'] <+: path.toList := by
  rw [foldersAbove, mem_foldersOnto_iff]
  constructor
  · rintro ⟨before, after, hpath, hfolder⟩
    rw [hpath, hfolder]
    exact ⟨after, by simp⟩
  · rintro ⟨after, hpath⟩
    exact ⟨folder.toList, after, by simpa using hpath.symm, rfl⟩

theorem length_lt_of_mem_foldersAbove {path folder : String} (h : folder ∈ foldersAbove path) :
    folder.toList.length < path.toList.length := by
  have hle := (mem_foldersAbove_iff.mp h).length_le
  rw [List.length_append, List.length_singleton] at hle
  omega

/-- Of two folders above a path the outer one comes first. -/
theorem pairwise_foldersOnto (done rest : List Char) :
    (foldersOnto done rest).Pairwise fun folder inner =>
      folder.toList.length < inner.toList.length := by
  induction rest generalizing done with
  | nil => exact .nil
  | cons c rest ih =>
    rw [foldersOnto]
    split
    · refine List.pairwise_cons.mpr ⟨fun inner hinner => ?_, ih _⟩
      obtain ⟨before, after, -, hfolder⟩ := mem_foldersOnto_iff.mp hinner
      simp only [hfolder, String.toList_ofList, List.length_append, List.length_reverse,
        List.length_cons]
      omega
    · exact ih _

/-- The folders above a folder come before it. -/
theorem mem_of_foldersAbove_eq {path folder outer : String} {made missing : List String}
    (h : foldersAbove path = made ++ folder :: missing) (houter : outer ∈ foldersAbove folder) :
    outer ∈ made := by
  have hfolder : folder ∈ foldersAbove path := by
    rw [h]
    exact List.mem_append_right _ List.mem_cons_self
  have hpath : outer ∈ foldersAbove path := by
    rw [mem_foldersAbove_iff] at houter hfolder ⊢
    exact houter.trans ((List.prefix_append _ _).trans hfolder)
  rw [h, List.mem_append] at hpath
  refine hpath.resolve_right fun hlater => ?_
  -- none that comes later is shorter than the folder
  have hshort := length_lt_of_mem_foldersAbove houter
  have hsorted := pairwise_foldersOnto [] path.toList
  rw [← foldersAbove, h] at hsorted
  have hlong := (List.pairwise_cons.mp (List.pairwise_append.mp hsorted).2.1).1
  rcases List.mem_cons.mp hlater with rfl | hlater
  · omega
  · have := hlong outer hlater
    omega

theorem not_mem_foldersAbove_self (path : String) : path ∉ foldersAbove path := fun h =>
  Nat.lt_irrefl _ (length_lt_of_mem_foldersAbove h)

/-! ## Paths that keep apart -/

/-- Neither path leads to where the other leads or to a folder above it. -/
structure Apart (path other : String) : Prop where
  ne : path ≠ other
  not_mem_left : path ∉ foldersAbove other
  not_mem_right : other ∉ foldersAbove path

theorem Apart.symm {path other : String} (h : Apart path other) : Apart other path :=
  ⟨h.ne.symm, h.not_mem_right, h.not_mem_left⟩

end BinaryXml.Command
