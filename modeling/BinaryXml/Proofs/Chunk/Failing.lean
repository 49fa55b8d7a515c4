import BinaryXml.Proofs.Chunk.Run
import BinaryXml.Proofs.StringPool.Failing

/-!
# Why a chunk is refused

A header is refused for its sizes, a chunk of the tree for its sizes too, and a string pool for what
stands in it. The guards in front of the reads leave them nothing to fail for, so that a read's own
error comes from a string pool alone.
-/

namespace BinaryXml

open Reading

/-- A record in range is read. -/
theorem failsOnly_runAt_record {α : Type} {P : Error → Prop} (layout : Layout α) {data : ByteArray}
    {position : Nat} (h : position + layout.width ≤ data.size) :
    FailsOnly P ((record layout).runAt data position) := by
  rw [runAt_record, if_pos h]
  exact failsOnly_ok _

/-! ## Headers -/

/-- Why a header is refused that stands at `offset`. -/
inductive ChunkHeader.Refused (offset : Nat) : Error → Prop where
  | truncated (declared available : Nat) :
    Refused offset (.truncatedChunk offset declared available)
  | invalid (headerSize : UInt16) (size : UInt32) :
    Refused offset (.invalidChunkHeader offset headerSize size)

/-- A header is refused for the bytes that are missing or for its sizes. Its own record is in range
when it is read. -/
theorem ChunkHeader.refused_of_read (data : ByteArray) (position offset : Nat) :
    FailsOnly (Refused offset) (ChunkHeader.read data position offset) := by
  have hwidth : layout.width = 8 := rfl
  unfold ChunkHeader.read
  refine failsOnly_ite (fun _ => failsOnly_error (.truncated _ _)) fun henough => ?_
  refine (failsOnly_runAt_record layout (by omega)).bind fun header _ => ?_
  refine failsOnly_ite (fun _ => failsOnly_error (.invalid _ _)) fun _ => ?_
  exact failsOnly_ite (fun _ => failsOnly_error (.truncated _ _)) fun _ => failsOnly_ok header

/-! ## Tree nodes -/

namespace Chunk

/-- The contents of the chunk at `offset` contradict its header. -/
def Malformed (offset : Nat) (error : Error) : Prop :=
  ∃ reason, error = .malformedChunk offset reason

/-- A tree node is refused for its sizes alone: each guard is what the read behind it needs. -/
theorem malformed_of_readNode {α : Type} (record : Layout α) (chunk : ByteArray) (offset : Nat) :
    FailsOnly (Malformed offset) (readNode record chunk offset) := by
  have hwidth : NodeHeader.layout.width = 16 := rfl
  unfold readNode
  refine failsOnly_ite (fun _ => failsOnly_error ⟨_, rfl⟩) fun hshort => ?_
  refine (failsOnly_runAt_record _ (by omega)).bind fun node _ => ?_
  refine failsOnly_ite (fun _ => failsOnly_error ⟨_, rfl⟩) fun _ => ?_
  refine failsOnly_ite (fun _ => failsOnly_error ⟨_, rfl⟩) fun hrecord => ?_
  exact (failsOnly_runAt_record _ (Nat.not_lt.mp hrecord)).bind fun _ _ => failsOnly_ok _

theorem malformed_of_readNamespace (chunk : ByteArray) (offset : Nat) :
    FailsOnly (Malformed offset) (readNamespace chunk offset) :=
  (malformed_of_readNode _ chunk offset).bind fun _ _ => failsOnly_ok _

theorem malformed_of_readEndTag (chunk : ByteArray) (offset : Nat) :
    FailsOnly (Malformed offset) (readEndTag chunk offset) :=
  (malformed_of_readNode _ chunk offset).bind fun _ _ => failsOnly_ok _

theorem malformed_of_readCharacterData (chunk : ByteArray) (offset : Nat) :
    FailsOnly (Malformed offset) (readCharacterData chunk offset) :=
  (malformed_of_readNode _ chunk offset).bind fun _ _ => failsOnly_ok _

/-- An attribute whose record is not in range is told as a fault of the chunk. -/
theorem malformed_of_readAttributesOnto (chunk : ByteArray) (offset stride : Nat)
    (done : List Attribute) (position count : Nat) :
    FailsOnly (Malformed offset) (readAttributesOnto chunk offset stride done position count) := by
  induction count generalizing done position with
  | zero => exact failsOnly_ok _
  | succ count ih =>
    rw [readAttributesOnto]
    cases (record AttributeRecord.layout).runAt chunk position with
    | error _ => exact failsOnly_error ⟨_, rfl⟩
    | ok _ => exact ih _ _

/-- A start tag is refused as a node or for its attribute records. -/
theorem malformed_of_readStartTag (chunk : ByteArray) (offset : Nat) :
    FailsOnly (Malformed offset) (readStartTag chunk offset) := by
  refine (malformed_of_readNode _ chunk offset).bind fun _ _ => ?_
  refine failsOnly_ite (fun _ => failsOnly_error ⟨_, rfl⟩) fun _ => ?_
  exact (malformed_of_readAttributesOnto chunk offset _ _ _ _).bind fun _ _ => failsOnly_ok _

/-! ## Chunks -/

/-- Why a chunk is refused that stands at `offset`. -/
inductive Refused (header : ChunkHeader) (chunk : ByteArray) (offset : Nat) : Error → Prop where
  | malformed {error : Error} (h : Malformed offset error) : Refused header chunk offset error
  | pool {error : Error} (hkind : header.kind = ChunkType.stringPool)
    (h : StringPool.Refused chunk offset error) : Refused header chunk offset error

/-- A chunk is refused as its kind is, and only a string pool is refused for anything but its
sizes. -/
theorem refused_of_decode {header : ChunkHeader} {chunk : ByteArray}
    (hheader : (record ChunkHeader.layout).runAt chunk 0 = .ok header)
    (hsize : chunk.size < UInt32.size) (offset : Nat) :
    FailsOnly (Refused header chunk offset) (decode header chunk offset) := by
  have hnode : ∀ {α : Type} (make : α → Chunk) {x : Except Error α},
      FailsOnly (Malformed offset) x → FailsOnly (Refused header chunk offset) (make <$> x) :=
    fun make _ h => (h.mono fun _ => .malformed).map make
  -- the kinds are told apart in the order in which they are looked for
  refine failsOnly_ite (fun hkind => ?_) fun _ =>
    failsOnly_ite (fun _ => failsOnly_ok _) fun _ => ?_
  · have hpool := StringPool.refused_of_decode hheader hkind hsize offset
    exact (hpool.mono fun _ => .pool hkind).map _
  refine failsOnly_ite (fun _ => hnode _ (malformed_of_readNamespace chunk offset)) fun _ => ?_
  refine failsOnly_ite (fun _ => hnode _ (malformed_of_readNamespace chunk offset)) fun _ => ?_
  refine failsOnly_ite (fun _ => hnode _ (malformed_of_readStartTag chunk offset)) fun _ => ?_
  refine failsOnly_ite (fun _ => hnode _ (malformed_of_readEndTag chunk offset)) fun _ => ?_
  exact failsOnly_ite (fun _ => hnode _ (malformed_of_readCharacterData chunk offset))
    fun _ => failsOnly_ok _

/-- A chunk that its header cuts out of a run. -/
theorem refused_of_decode_extract {window : ByteArray} {position : Nat} {header : ChunkHeader}
    (hheader : (record ChunkHeader.layout).runAt window position = .ok header)
    (hlong : 8 ≤ header.size.toNat) (hrange : position + header.size.toNat ≤ window.size)
    (offset : Nat) :
    FailsOnly (Refused header (window.extract position (position + header.size.toNat)) offset)
      (decode header (window.extract position (position + header.size.toNat)) offset) := by
  have hwidth : ChunkHeader.layout.width = 8 := rfl
  have hword : header.size.toNat < UInt32.size := header.size.toNat_lt
  refine refused_of_decode ?_ ?_ offset
  · rw [runAt_extract _ (by omega) hrange, hheader]
  · rw [ByteArray.size_extract]
    omega

end Chunk

end BinaryXml
