import BinaryXml.Proofs.Bytes.Truncation
import BinaryXml.Proofs.File.Sizes

/-!
# Documents written into given bytes

`encodeInto` cuts its target to the size that a document is going to have. The size and the writes
agree (`size_stored_inTurn_le`), so the document never runs out of the room that it has been given,
and what stands behind that room stays as it is even when a chunk turns out not to be writable
(`framedIn_of_wellFormed`).
-/

namespace BinaryXml

namespace ChunkFile

/-! ## Room for a document -/

/-- Sizes that add up leave room for what is written of the chunks, also when one of them fails. -/
theorem size_stored_inTurn_le {chunks : List Chunk} {start sum : Nat}
    (hchunks : ∀ chunk ∈ chunks, chunk.WellFormed) (h : addSizes chunks start = .ok sum) :
    start + (Written.inTurn (chunks.map fun chunk => .ofExcept chunk.encoded)).stored.size
      ≤ sum := by
  induction chunks generalizing start with
  | nil =>
    cases h
    exact Nat.le_refl sum
  | cons chunk rest ih =>
    rw [addSizes] at h
    cases hsize : chunk.size with
    | error error =>
      rw [hsize] at h
      cases h
    | ok size =>
      rw [hsize] at h
      obtain ⟨hfits, hrest⟩ := ite_eq_ok_iff.mp h
      have hbound := ih (fun c hc => hchunks c (List.mem_cons_of_mem _ hc)) hrest
      rw [List.map_cons, Written.inTurn]
      cases hchunk : chunk.encoded with
      | error error =>
        -- a chunk that is not written leaves no bytes, and nothing is written behind it
        show start + 0 ≤ sum
        omega
      | ok piece =>
        obtain ⟨total, htotal, -, rfl⟩ := Chunk.encoded_eq_ok_iff.mp hchunk
        obtain rfl : size = total := Except.ok.inj (hsize.symm.trans htotal)
        have hbytes := (Chunk.size_bytes (hchunks chunk List.mem_cons_self) htotal).2
        rw [Written.andThen_of_failure_eq_none _ rfl, ByteArray.size_append]
        show start + ((chunk.bytes size).size + _) ≤ sum
        omega

/-- In the room that its size asks for, a document is written as if nothing limited it. -/
theorem runIn_size {file : ChunkFile} {total : Nat}
    (hchunks : ∀ chunk ∈ file.chunks, chunk.WellFormed) (htotal : file.size = .ok total) :
    ∃ written : Written, file.write.runIn (some total) = written ∧ written.stored.size ≤ total ∧
      file.toBytes = match written.failure with
        | none => .ok written.stored
        | some error => .error error := by
  have hbound := size_stored_inTurn_le hchunks htotal
  have hfront : (ChunkHeader.layout.encode (header total)).toByteArray.size = 8 := by
    rw [List.size_toByteArray, ChunkHeader.layout.length_encode]
    rfl
  rw [toBytes, write_of_size_eq_ok htotal, Writing.runIn_some_replay,
    Written.andThen_of_failure_eq_none _ rfl]
  have hfits : ((ChunkHeader.layout.encode (header total)).toByteArray ++
      (Written.inTurn (file.chunks.map fun chunk => .ofExcept chunk.encoded)).stored).size
        ≤ total := by
    rw [ByteArray.size_append, hfront]
    exact hbound
  rw [if_pos hfits]
  exact ⟨_, rfl, hfits, Writing.toBytes_replay _ _⟩

/-! ## The buffer -/

/-- What happens to a buffer that a document is to be written into. -/
structure FramedIn (file : ChunkFile) (buffer : ByteArray) : Prop where
  /-- A document without a size is not written. -/
  of_size_eq_error : ∀ error, file.size = .error error →
    file.encodeInto buffer = (buffer, .error error)
  /-- A document that does not fit is not written either. -/
  of_lt : ∀ total, file.size = .ok total → buffer.size < total →
    file.encodeInto buffer = (buffer, .error (.bufferTooSmall total buffer.size))
  /-- A document that can be written is put in front of what is left of the buffer. -/
  of_toBytes_eq_ok : ∀ data, file.toBytes = .ok data → data.size ≤ buffer.size →
    file.encodeInto buffer = (data ++ buffer.extract data.size buffer.size, .ok data.size)
  /-- A document that cannot be written fails in the buffer as it does elsewhere. -/
  of_toBytes_eq_error : ∀ error total, file.toBytes = .error error → file.size = .ok total →
    total ≤ buffer.size → (file.encodeInto buffer).2 = .error error
  size_eq : (file.encodeInto buffer).1.size = buffer.size
  /-- However it ends, the bytes behind the document are those that were there. -/
  extract_eq : ∀ total, file.size = .ok total →
    (file.encodeInto buffer).1.extract total buffer.size = buffer.extract total buffer.size

section

variable {file : ChunkFile} {buffer : ByteArray} {total : Nat}

theorem encodeInto_of_size_eq_error {error : Error} (h : file.size = .error error) :
    file.encodeInto buffer = (buffer, .error error) := by
  rw [encodeInto, h]

/-- A document that is longer than the buffer leaves it alone. -/
theorem encodeInto_of_lt (htotal : file.size = .ok total) (hlt : buffer.size < total) :
    file.encodeInto buffer = (buffer, .error (.bufferTooSmall total buffer.size)) := by
  rw [encodeInto, htotal]
  exact if_pos hlt

/-- Any other is written into a part that is cut to its size, and what stands behind stays. -/
theorem encodeInto_of_le (htotal : file.size = .ok total) (hfits : total ≤ buffer.size) :
    file.encodeInto buffer
      = ((file.write.runIn (some total)).stored
          ++ buffer.extract (file.write.runIn (some total)).stored.size buffer.size,
        match (file.write.runIn (some total)).failure with
        | none => .ok total
        | some error => .error error) := by
  rw [encodeInto, htotal]
  dsimp only
  rw [if_neg (Nat.not_lt.mpr hfits)]
  cases (file.write.runIn (some total)).failure <;> rfl

/-- In a buffer that is long enough, a document ends as it does elsewhere. -/
theorem encodeInto_eq_toBytes (hchunks : ∀ chunk ∈ file.chunks, chunk.WellFormed)
    (htotal : file.size = .ok total) (hfits : total ≤ buffer.size) :
    (file.encodeInto buffer).2 = (fun _ => total) <$> file.toBytes ∧
      ∀ data, file.toBytes = .ok data →
        (file.encodeInto buffer).1 = data ++ buffer.extract data.size buffer.size := by
  obtain ⟨written, hrun, -, hbytes⟩ := runIn_size hchunks htotal
  rw [encodeInto_of_le htotal hfits, hrun, hbytes]
  cases written.failure with
  | none =>
    refine ⟨rfl, fun data hdata => ?_⟩
    cases hdata
    rfl
  | some error => exact ⟨rfl, nofun⟩

/-- Whatever happens, bytes are put over the front of the buffer, and no more of them than the
document has. -/
theorem exists_encodeInto_eq (hchunks : ∀ chunk ∈ file.chunks, chunk.WellFormed) :
    ∃ stored, (file.encodeInto buffer).1 = stored ++ buffer.extract stored.size buffer.size ∧
      stored.size ≤ buffer.size ∧ ∀ total, file.size = .ok total → stored.size ≤ total := by
  have hunchanged : buffer = .empty ++ buffer.extract ByteArray.empty.size buffer.size := by
    rw [ByteArray.empty_append, ByteArray.size_empty, ByteArray.extract_zero_size]
  cases htotal : file.size with
  | error error =>
    rw [encodeInto_of_size_eq_error htotal]
    exact ⟨.empty, hunchanged, Nat.zero_le _, fun _ _ => Nat.zero_le _⟩
  | ok total =>
    by_cases hlt : buffer.size < total
    · rw [encodeInto_of_lt htotal hlt]
      exact ⟨.empty, hunchanged, Nat.zero_le _, fun _ _ => Nat.zero_le _⟩
    · have hfits : total ≤ buffer.size := Nat.not_lt.mp hlt
      -- the part is as large as the document, so no byte is cut off
      obtain ⟨written, hrun, hstored, -⟩ := runIn_size hchunks htotal
      rw [encodeInto_of_le htotal hfits, hrun]
      refine ⟨written.stored, rfl, by omega, fun _ hsize => ?_⟩
      cases hsize
      exact hstored

end

/-- Bytes put over the front of a buffer leave what stands behind them. -/
theorem extract_overwritten {stored buffer : ByteArray} {place : Nat} (hplace : stored.size ≤ place)
    (hstored : stored.size ≤ buffer.size) :
    (stored ++ buffer.extract stored.size buffer.size).extract place buffer.size
      = buffer.extract place buffer.size := by
  have hfront : stored.extract place buffer.size = .empty :=
    ByteArray.extract_eq_empty_iff.mpr (by omega)
  rw [ByteArray.extract_append, hfront, ByteArray.empty_append, ByteArray.extract_extract]
  congr 1
  · omega
  · omega

/-- **A document is written into its own part of a buffer**, and into no other part of it whatever
happens. Pools have to be well-formed for that, the other chunks may be any. -/
theorem framedIn_of_wellFormed {file : ChunkFile}
    (hpools : ∀ pool, .stringPool pool ∈ file.chunks → pool.WellFormed) (buffer : ByteArray) :
    file.FramedIn buffer := by
  have hchunks : ∀ chunk ∈ file.chunks, chunk.WellFormed := by
    intro chunk hchunk
    cases chunk with
    | stringPool pool => exact hpools pool hchunk
    | _ => trivial
  obtain ⟨stored, hbuffer, hstored, hroom⟩ :
      ∃ stored, (file.encodeInto buffer).1 = stored ++ buffer.extract stored.size buffer.size ∧ _ :=
    exists_encodeInto_eq hchunks
  refine ⟨fun _ => encodeInto_of_size_eq_error, fun _ => encodeInto_of_lt, ?_, ?_, ?_, ?_⟩
  · intro data hdata hfits
    have htotal := (sizedAs_of_toBytes hchunks hdata).size_eq
    obtain ⟨hend, hbytes⟩ := encodeInto_eq_toBytes hchunks htotal hfits
    rw [hdata] at hend
    exact Prod.ext (hbytes data hdata) hend
  · -- a chunk that cannot be written leaves what comes before it
    intro error total herror htotal hfits
    rw [(encodeInto_eq_toBytes hchunks htotal hfits).1, herror]
    rfl
  · rw [hbuffer, ByteArray.size_append, ByteArray.size_extract]
    omega
  · intro total htotal
    rw [hbuffer]
    exact extract_overwritten (hroom total htotal) hstored

/-- A document of 171 bytes in a buffer with three bytes to spare, and in one that lacks a byte. -/
theorem framedIn_of_wellFormed_twoPools :
    ∃ data, twoPools.toBytes = .ok data ∧
      twoPools.encodeInto (List.replicate 174 7).toByteArray
        = (data ++ [7, 7, 7].toByteArray, .ok 171) ∧
      twoPools.encodeInto (List.replicate 170 7).toByteArray
        = ((List.replicate 170 7).toByteArray, .error (.bufferTooSmall 171 170)) := by
  have hpools : ∀ pool, .stringPool pool ∈ twoPools.chunks → pool.WellFormed := by
    intro pool hpool
    exact (representable_of_mem_twoPools _ hpool).wellFormed
  have htotal : twoPools.size = .ok 171 := rfl
  obtain ⟨data, hdata⟩ : ∃ data, twoPools.toBytes = .ok data :=
    exists_toBytes_iff.mpr ⟨⟨171, htotal⟩, by decide⟩
  have hsize : data.size = 171 := by
    have hsized := (sizedAs_of_toBytes
      (fun chunk hchunk => (representable_of_mem_twoPools chunk hchunk).wellFormed) hdata).size_eq
    exact Except.ok.inj (hsized.symm.trans htotal)
  refine ⟨data, hdata, ?_, ?_⟩
  · have hroom : data.size ≤ (List.replicate 174 (7 : UInt8)).toByteArray.size := by
      rw [hsize, List.size_toByteArray, List.length_replicate]
      decide
    have hlong := (framedIn_of_wellFormed hpools _).of_toBytes_eq_ok data hdata hroom
    have htail : (List.replicate 174 (7 : UInt8)).toByteArray.extract 171
        (List.replicate 174 (7 : UInt8)).toByteArray.size = [7, 7, 7].toByteArray := by
      decide +kernel
    rw [hlong, hsize, htail]
  · have hshort := (framedIn_of_wellFormed hpools
      (List.replicate 170 7).toByteArray).of_lt 171 htotal
    rw [List.size_toByteArray, List.length_replicate] at hshort
    exact hshort (by decide)

end ChunkFile

end BinaryXml
