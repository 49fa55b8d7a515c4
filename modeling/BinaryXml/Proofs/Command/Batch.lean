import BinaryXml.Command.Directory
import BinaryXml.Proofs.Command.Tree
import Mathlib.Data.List.Pairwise
import Mathlib.Data.List.Perm.Basic
import Mathlib.Logic.Relation

/-!
# Jobs side by side

The jobs of a batch take their steps in any order (`Step`). What is on the shelf then is what the
stages of the jobs say, whoever has come first (`Batch.Sound`): as their paths keep apart, none of
them finds a file where it wants a folder, or a folder where it wants to write. Taking one job after
the other to its end is one of the orders (`reaches_foldl_finish`).
-/

namespace BinaryXml.Command

/-! ## The shelf -/

namespace Shelf

/-- A folder can be made where no file stands, if the folders above it are there. It may be there
already. -/
theorem exists_makeFolder {shelf : Shelf} {path : String}
    (hfile : path ∉ shelf.files.map Prod.fst) (hleads : shelf.LeadsTo path) :
    ∃ after, shelf.makeFolder path = some after ∧ after.files = shelf.files ∧
      ∀ folder, folder ∈ after.folders ↔ folder ∈ shelf.folders ∨ folder = path := by
  have hroom : ¬ (path ∈ shelf.files.map Prod.fst ∨ ¬ shelf.LeadsTo path) :=
    not_or.mpr ⟨hfile, not_not_intro hleads⟩
  rw [makeFolder, if_neg hroom]
  by_cases hthere : path ∈ shelf.folders
  · rw [if_pos hthere]
    refine ⟨shelf, rfl, rfl, fun folder => ⟨.inl, ?_⟩⟩
    rintro (h | rfl)
    · exact h
    · exact hthere
  · rw [if_neg hthere]
    exact ⟨_, rfl, rfl, fun folder => by simp⟩

/-- A file can be written where neither a folder nor a file stands. -/
theorem write_eq_some {shelf : Shelf} {path : String} (content : ByteArray)
    (hfolder : path ∉ shelf.folders) (hfile : path ∉ shelf.files.map Prod.fst)
    (hleads : shelf.LeadsTo path) :
    shelf.write path content
      = some { shelf with files := shelf.files ++ [(path, content)] } := by
  have hroom : ¬ (path ∈ shelf.folders ∨ ¬ shelf.LeadsTo path) :=
    not_or.mpr ⟨hfolder, not_not_intro hleads⟩
  -- there is no file to be replaced
  have hkept : shelf.files.filter (·.1 ≠ path) = shelf.files := by
    refine List.filter_eq_self.mpr fun file hmem => decide_eq_true fun heq => hfile ?_
    exact List.mem_map.mpr ⟨file, hmem, heq⟩
  rw [write, if_neg hroom, hkept]

end Shelf

/-! ## Steps of a batch -/

structure Batch where
  jobs : List Job
  progress : Progress := {}

/-- A batch with a job for each file, before any step. -/
def Batch.start (order : List (String × Input)) : Batch where
  jobs := order.map fun (path, input) => { path, input }

/-- Any of the jobs takes a step. -/
inductive Step (options : Compile.Options) : Batch → Batch → Prop
  | job (before : List Job) (job : Job) (after : List Job) (progress : Progress) :
    Step options ⟨before ++ job :: after, progress⟩
      ⟨before ++ (job.step options progress).1 :: after, (job.step options progress).2⟩

variable {options : Compile.Options}

namespace Job

/-- The file that a job has written. -/
def output? (job : Job) : Option (String × ByteArray) :=
  match job.stage with
  | .written content => some (job.path, content)
  | _ => none

/-- The folders that are there on account of a job. -/
def made (job : Job) : List String :=
  match job.stage with
  | .housing _ missing =>
    (foldersAbove job.path).take ((foldersAbove job.path).length - missing.length)
  | .written _ => foldersAbove job.path
  | _ => []

/-- The stage of a job is one that its file can come to. -/
def Sound (options : Compile.Options) (job : Job) : Prop :=
  match job.stage with
  | .waiting => True
  | .housing content missing =>
    compileContent options job.input = .ok content ∧ missing <:+ foldersAbove job.path
  | .written content => compileContent options job.input = .ok content
  | .failed => ∃ failure, compileContent options job.input = .error failure

/-- A job makes folders above its own path only. -/
theorem mem_foldersAbove_of_mem_made {job : Job} {folder : String} (h : folder ∈ job.made) :
    folder ∈ foldersAbove job.path := by
  unfold made at h
  split at h
  · exact List.mem_of_mem_take h
  · exact h
  · cases h

theorem made_of_housing {job : Job} {content : ByteArray} {front missing : List String}
    (hstage : job.stage = .housing content missing)
    (h : front ++ missing = foldersAbove job.path) : job.made = front := by
  unfold made
  rw [hstage]
  simp [← h]

theorem output?_of_stepsLeft_ne_zero {job : Job} (h : job.stepsLeft ≠ 0) : job.output? = none := by
  obtain ⟨path, input, stage⟩ := job
  cases stage with
  | written content => exact absurd rfl h
  | _ => rfl

/-- What a job has written is the content of its stage at its path. -/
theorem eq_of_output?_eq_some {job : Job} {file : String × ByteArray}
    (h : job.output? = some file) : job.stage = .written file.2 ∧ job.path = file.1 := by
  unfold output? at h
  split at h
  · rename_i hstage
    cases h
    exact ⟨hstage, rfl⟩
  · cases h

end Job

/-- The batch has a job for each file of `order`, and what is on the shelf is what the stages of the
jobs say. -/
structure Batch.Sound (options : Compile.Options) (order : List (String × Input)) (batch : Batch) :
    Prop where
  order_eq : batch.jobs.map (fun job => (job.path, job.input)) = order
  jobs : ∀ job ∈ batch.jobs, job.Sound options
  files : batch.progress.shelf.files.Perm (batch.jobs.filterMap Job.output?)
  folders : ∀ folder, folder ∈ batch.progress.shelf.folders ↔
    ∃ job ∈ batch.jobs, folder ∈ job.made
  errors : batch.progress.errors = batch.jobs.countP (·.stage = .failed)

namespace Batch.Sound

variable {order : List (String × Input)} {before after : List Job} {job : Job}
  {progress : Progress}

/-- Before any step all jobs wait, and the shelf is empty. -/
theorem start (options : Compile.Options) (order : List (String × Input)) :
    (Batch.start order).Sound options order where
  order_eq := by
    rw [Batch.start, List.map_map]
    exact List.map_id order
  jobs := by
    intro job hjob
    obtain ⟨file, -, rfl⟩ := List.mem_map.mp hjob
    trivial
  files := by simp [Batch.start, Job.output?]
  folders := by simp [Batch.start, Job.made]
  errors := by
    have hnone : ∀ job ∈ (Batch.start order).jobs, ¬ decide (job.stage = .failed) = true := by
      intro job hjob
      obtain ⟨file, -, rfl⟩ := List.mem_map.mp hjob
      exact Bool.false_ne_true
    exact (List.countP_eq_zero.mpr hnone).symm

/-- A job that was not at its end has moved on, and the shelf with it. -/
theorem replace (h : Batch.Sound options order ⟨before ++ job :: after, progress⟩)
    {next : Job} {progress' : Progress} (hopen : job.stepsLeft ≠ 0)
    (hfile : (next.path, next.input) = (job.path, job.input)) (hnext : next.Sound options)
    (hmade : job.made ⊆ next.made)
    (hfiles : progress'.shelf.files = progress.shelf.files ++ next.output?.toList)
    (hfolders : ∀ folder, folder ∈ progress'.shelf.folders ↔
      folder ∈ progress.shelf.folders ∨ folder ∈ next.made)
    (herrors : progress'.errors = progress.errors + if next.stage = .failed then 1 else 0) :
    Batch.Sound options order ⟨before ++ next :: after, progress'⟩ where
  order_eq := by
    rw [← h.order_eq]
    simp [hfile]
  jobs := by
    have hjobs := h.jobs
    rw [List.forall_mem_append, List.forall_mem_cons] at hjobs ⊢
    exact ⟨hjobs.1, hnext, hjobs.2.2⟩
  files := by
    have hbefore := h.files
    have hnone := Job.output?_of_stepsLeft_ne_zero hopen
    rw [List.filterMap_append, List.filterMap_cons_none hnone] at hbefore
    -- the job had written nothing, so its file is a new one
    have hcons : (next :: after).filterMap Job.output?
        = next.output?.toList ++ after.filterMap Job.output? := by
      rw [List.filterMap_cons]
      cases next.output? <;> rfl
    rw [hfiles, List.filterMap_append, hcons]
    refine (hbefore.append_right _).trans ?_
    rw [List.append_assoc]
    exact List.perm_append_comm.append_left _
  folders := by
    intro folder
    have hbefore := h.folders folder
    simp only [List.mem_append, List.mem_cons, or_and_right, exists_or, exists_eq_left]
      at hbefore ⊢
    -- no folder of the job is lost, so its old ones are among the new
    rw [hfolders, hbefore]
    constructor
    · rintro ((hfront | hjob | hback) | hnext)
      · exact .inl hfront
      · exact .inr (.inl (hmade hjob))
      · exact .inr (.inr hback)
      · exact .inr (.inl hnext)
    · rintro (hfront | hnext | hback)
      · exact .inl (.inl hfront)
      · exact .inr hnext
      · exact .inl (.inr (.inr hback))
  errors := by
    have hbefore := h.errors
    have hstage : job.stage ≠ .failed := by
      -- the job had not failed before
      rintro hfailed
      rw [Job.stepsLeft, hfailed] at hopen
      exact hopen rfl
    simp only [List.countP_append, List.countP_cons, hstage, decide_false] at hbefore ⊢
    rw [herrors, hbefore]
    simp
    omega

/-- A job that waits compiles its file, or fails because the file does not compile. -/
theorem step_waiting {path : String} {input : Input}
    (h : Batch.Sound options order ⟨before ++ ⟨path, input, .waiting⟩ :: after, progress⟩) :
    Batch.Sound options order
      ⟨before ++ (Job.step options ⟨path, input, .waiting⟩ progress).1 :: after,
        (Job.step options ⟨path, input, .waiting⟩ progress).2⟩ := by
  have hopen : (⟨path, input, .waiting⟩ : Job).stepsLeft ≠ 0 := Nat.succ_ne_zero _
  rw [Job.step]
  cases hcontent : compileContent options input with
  | error failure =>
    exact h.replace hopen rfl ⟨failure, hcontent⟩ (List.nil_subset _) (List.append_nil _).symm
      (fun folder => by simp [Job.fail, Job.made]) (by simp [Job.fail])
  | ok content =>
    exact h.replace hopen rfl ⟨hcontent, List.suffix_rfl⟩ (List.nil_subset _)
      (List.append_nil _).symm (fun folder => by simp [Job.made]) (by simp)

section

variable {batch : Batch} (hapart : order.Pairwise fun file other => Apart file.1 other.1)

include hapart

theorem apart_of_ne (h : batch.Sound options order) {job other : Job} (hjob : job ∈ batch.jobs)
    (hother : other ∈ batch.jobs) (hne : job ≠ other) : Apart job.path other.path := by
  have hjobs : batch.jobs.Pairwise fun job other => Apart job.path other.path := by
    rw [← h.order_eq, List.pairwise_map] at hapart
    exact hapart
  have : Std.Symm fun job other : Job => Apart job.path other.path := ⟨fun _ _ h => h.symm⟩
  exact hjobs.forall hjob hother hne

theorem not_mem_foldersAbove (h : batch.Sound options order) {job other : Job}
    (hjob : job ∈ batch.jobs) (hother : other ∈ batch.jobs) :
    job.path ∉ foldersAbove other.path := by
  by_cases heq : job = other
  · rw [heq]
    exact not_mem_foldersAbove_self _
  · exact (h.apart_of_ne hapart hjob hother heq).not_mem_left

/-- There is no file where a folder above a job's place goes. -/
theorem not_mem_files_of_mem_foldersAbove (h : batch.Sound options order) {job : Job}
    (hjob : job ∈ batch.jobs) {folder : String} (hfolder : folder ∈ foldersAbove job.path) :
    folder ∉ batch.progress.shelf.files.map Prod.fst := by
  intro hmem
  obtain ⟨file, hfile, rfl⟩ := List.mem_map.mp hmem
  obtain ⟨other, hother, houtput⟩ := List.mem_filterMap.mp (h.files.mem_iff.mp hfile)
  rw [← (Job.eq_of_output?_eq_some houtput).2] at hfolder
  exact h.not_mem_foldersAbove hapart hother hjob hfolder

/-- There is nothing where a job has still to write. -/
theorem not_mem_shelf (h : batch.Sound options order) {job : Job} (hjob : job ∈ batch.jobs)
    (hopen : job.stepsLeft ≠ 0) : job.path ∉ batch.progress.shelf.folders ∧
      job.path ∉ batch.progress.shelf.files.map Prod.fst := by
  constructor
  · intro hmem
    obtain ⟨other, hother, hmade⟩ := (h.folders _).mp hmem
    exact h.not_mem_foldersAbove hapart hjob hother (Job.mem_foldersAbove_of_mem_made hmade)
  · intro hmem
    obtain ⟨file, hfile, hpath⟩ := List.mem_map.mp hmem
    obtain ⟨other, hother, houtput⟩ := List.mem_filterMap.mp (h.files.mem_iff.mp hfile)
    -- the job that wrote there is another one, as this one has not written
    have hne : job ≠ other := by
      rintro rfl
      rw [Job.output?_of_stepsLeft_ne_zero hopen] at houtput
      cases houtput
    have hsame := (Job.eq_of_output?_eq_some houtput).2.trans hpath
    exact (h.apart_of_ne hapart hjob hother hne).ne hsame.symm

/-- A job whose folders are all there writes its file. -/
theorem step_write {path : String} {input : Input} {content : ByteArray}
    (h : Batch.Sound options order
      ⟨before ++ ⟨path, input, .housing content []⟩ :: after, progress⟩) :
    Batch.Sound options order
      ⟨before ++ (Job.step options ⟨path, input, .housing content []⟩ progress).1 :: after,
        (Job.step options ⟨path, input, .housing content []⟩ progress).2⟩ := by
  have hmem : (⟨path, input, .housing content []⟩ : Job) ∈
      before ++ ⟨path, input, .housing content []⟩ :: after :=
    List.mem_append_right _ List.mem_cons_self
  have hopen : (⟨path, input, .housing content []⟩ : Job).stepsLeft ≠ 0 := Nat.succ_ne_zero _
  have hmade : Job.made ⟨path, input, .housing content []⟩ = foldersAbove path :=
    Job.made_of_housing rfl (List.append_nil _)
  have hleads : progress.shelf.LeadsTo path := fun folder hfolder =>
    (h.folders folder).mpr ⟨_, hmem, hmade.symm ▸ hfolder⟩
  have hfree := h.not_mem_shelf hapart hmem hopen
  have hwrite := Shelf.write_eq_some content hfree.1 hfree.2 hleads
  rw [Job.step]
  dsimp only
  rw [hwrite]
  refine h.replace hopen rfl (h.jobs _ hmem).1 ?_ rfl (fun folder => ?_) (by simp)
  · rw [hmade]
    exact List.Subset.refl _
  -- the folders above the file are there already
  · exact ⟨.inl, fun hor => hor.elim id (hleads folder)⟩

/-- A job with a folder missing makes the outermost of those that are missing. -/
theorem step_makeFolder {path : String} {input : Input} {content : ByteArray} {folder : String}
    {missing : List String} (h : Batch.Sound options order
      ⟨before ++ ⟨path, input, .housing content (folder :: missing)⟩ :: after, progress⟩) :
    Batch.Sound options order
      ⟨before ++ (Job.step options ⟨path, input, .housing content (folder :: missing)⟩
          progress).1 :: after,
        (Job.step options ⟨path, input, .housing content (folder :: missing)⟩ progress).2⟩ := by
  have hmem : (⟨path, input, .housing content (folder :: missing)⟩ : Job) ∈
      before ++ ⟨path, input, .housing content (folder :: missing)⟩ :: after :=
    List.mem_append_right _ List.mem_cons_self
  have hopen : (⟨path, input, .housing content (folder :: missing)⟩ : Job).stepsLeft ≠ 0 :=
    Nat.succ_ne_zero _
  obtain ⟨hcontent, front, hfront⟩ := h.jobs _ hmem
  have hmade : Job.made ⟨path, input, .housing content (folder :: missing)⟩ = front :=
    Job.made_of_housing rfl hfront
  have hthere : ∀ other ∈ front, other ∈ progress.shelf.folders := fun other hother =>
    (h.folders other).mpr ⟨_, hmem, hmade.symm ▸ hother⟩
  have hfolder : folder ∈ foldersAbove path := by
    rw [← hfront]
    exact List.mem_append_right _ List.mem_cons_self
  have hfree := h.not_mem_files_of_mem_foldersAbove hapart hmem hfolder
  have hleads : progress.shelf.LeadsTo folder := fun outer houter =>
    hthere outer (mem_of_foldersAbove_eq hfront.symm houter)
  obtain ⟨shelf, hshelf, hfiles, hfolders⟩ := Shelf.exists_makeFolder hfree hleads
  rw [Job.step]
  dsimp only
  rw [hshelf]
  -- the folder has moved from what is missing to what is made
  have hfront' : (front ++ [folder]) ++ missing = foldersAbove path := by
    rw [List.append_assoc]
    exact hfront
  have hmade' : Job.made ⟨path, input, .housing content missing⟩ = front ++ [folder] :=
    Job.made_of_housing rfl hfront'
  refine h.replace hopen rfl ⟨hcontent, _, hfront'⟩ ?_ ?_ (fun other => ?_) (by simp)
  · rw [hmade, hmade']
    exact List.subset_append_left _ _
  · rw [hfiles]
    exact (List.append_nil _).symm
  · rw [hmade', List.mem_append, List.mem_singleton, hfolders]
    constructor
    · rintro (hother | hother)
      · exact .inl hother
      · exact .inr (.inr hother)
    · rintro (hother | hother | hother)
      · exact .inl hother
      · exact .inl (hthere other hother)
      · exact .inr hother

/-- **A step keeps what is on the shelf to what the stages say.** Nothing but its own content makes
a job fail. -/
theorem step (h : batch.Sound options order) {next : Batch} (hstep : Step options batch next) :
    next.Sound options order := by
  obtain ⟨before, job, after, progress⟩ := hstep
  obtain ⟨path, input, stage⟩ := job
  cases stage with
  | waiting => exact h.step_waiting
  | housing content missing =>
    cases missing with
    | nil => exact h.step_write hapart
    | cons folder missing => exact h.step_makeFolder hapart
  -- a job at its end does nothing
  | written content => exact h
  | failed => exact h

end

end Batch.Sound

end BinaryXml.Command
