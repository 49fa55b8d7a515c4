import BinaryXml.Chunk.Read
import BinaryXml.Proofs.Trapping.Reading

/-!
# Decoding chunks with reads that may trap

The decoder of every type of chunk, step by step as a machine takes them: sums of sizes are formed
before they are compared, and what is left of a chunk is cut out of it. Each decoder `Agrees` with
the one that it stands for: it does not trap, and it gives the same chunk or the same error. The
guards in front of a step are what makes it safe.
-/

namespace BinaryXml.Trapping

variable {α β : Type}

/-- A decoder that may fail and may trap. -/
abbrev Decoding := ExceptT Error Option

/-- The decoder does not trap, and it ends in the given way. -/
def Agrees (decoding : Decoding α) (result : Except Error α) : Prop :=
  decoding.run = some result

theorem agrees_pure (a : α) : Agrees (pure a) (pure a) :=
  rfl

theorem agrees_throw (error : Error) : Agrees (throw error : Decoding α) (throw error) :=
  rfl

/-- Steps that follow each other agree together. Of the second one only those runs count that the
first one leads to, so it may use what the first has checked. -/
theorem Agrees.bind {decoding : Decoding α} {result : Except Error α} {next : α → Decoding β}
    {nextResult : α → Except Error β} (h : Agrees decoding result)
    (hnext : ∀ a, result = .ok a → Agrees (next a) (nextResult a)) :
    Agrees (decoding >>= next) (result >>= nextResult) := by
  have hrun : decoding = some result := h
  cases result with
  | error error =>
    rw [hrun]
    rfl
  | ok a =>
    rw [hrun]
    exact hnext a rfl

/-- A changed value agrees with the changed value. -/
theorem Agrees.map {decoding : Decoding α} {result : Except Error α} (f : α → β)
    (h : Agrees decoding result) : Agrees (f <$> decoding) (f <$> result) := by
  have hrun : decoding = some result := h
  rw [hrun]
  cases result <;> rfl

/-- Errors that are told in another way agree with those that are told so. -/
theorem Agrees.adapt {decoding : Decoding α} {result : Except Error α} (f : Error → Error)
    (h : Agrees decoding result) : Agrees (ExceptT.adapt f decoding) (result.mapError f) := by
  have hrun : decoding = some result := h
  rw [hrun]
  cases result <;> rfl

/-- A guard stops both of them, or none. -/
theorem agrees_guard {c : Prop} [Decidable c] (error : Error) {decoding : Decoding α}
    {result : Except Error α} (h : ¬ c → Agrees decoding result) :
    Agrees (if c then throw error else decoding) (if c then throw error else result) := by
  by_cases hc : c
  · rw [if_pos hc, if_pos hc]
    exact agrees_throw error
  · rw [if_neg hc, if_neg hc]
    exact h hc

/-- A guard against what the other one makes a condition. -/
theorem agrees_guard_of_iff_not {c d : Prop} [Decidable c] [Decidable d] (hcd : c ↔ ¬ d)
    (error : Error) {decoding : Decoding α} {result : Except Error α}
    (h : d → Agrees decoding result) :
    Agrees (if c then throw error else decoding) (if d then result else .error error) := by
  by_cases hd : d
  · rw [if_pos hd, if_neg (fun hc => hcd.mp hc hd)]
    exact h hd
  · rw [if_neg hd, if_pos (hcd.mpr hd)]
    exact agrees_throw error

theorem agrees_ite {c : Prop} [Decidable c] {first second : Decoding α}
    {firstResult secondResult : Except Error α} (hfirst : Agrees first firstResult)
    (hsecond : Agrees second secondResult) :
    Agrees (if c then first else second) (if c then firstResult else secondResult) := by
  by_cases hc : c
  · rwa [if_pos hc, if_pos hc]
  · rwa [if_neg hc, if_neg hc]

/-- A step that does not trap can be left out. -/
theorem agrees_lift {step : Option α} {a : α} {next : α → Decoding β} {result : Except Error β}
    (hstep : step = some a) (hnext : Agrees (next a) result) :
    Agrees (liftM step >>= next) result := by
  rw [hstep]
  exact hnext

/-- The value that a read gives at a position of some bytes. -/
def Read.runAt (read : Read α) (data : ByteArray) (position : Nat) : Decoding α :=
  ExceptT.mk ((read ⟨data, position⟩).run.map fun
    | .ok (value, _) => .ok value
    | .error fault => .error (.read fault))

/-- A safe read at a place agrees with the read that it follows, wherever it is. -/
theorem Read.Follows.runAt {read : Read α} {reading : Reading α} (h : read.Follows reading)
    {data : ByteArray} (hdata : Sized data) (position : Nat) :
    Agrees (read.runAt data position) (reading.runAt data position) := by
  have hread : (read ⟨data, position⟩).run = some (outcome (reading ⟨data, position⟩)) :=
    (h ⟨data, position⟩ hdata).1
  rw [Agrees, Read.runAt, ExceptT.run_mk, hread, Option.map_some, Reading.runAt]
  cases reading ⟨data, position⟩ <;> rfl

/-- A record at any place agrees, since one out of range is an error. -/
theorem agrees_record (layout : Layout α) {data : ByteArray} (hdata : Sized data)
    (position : Nat) :
    Agrees ((Read.record layout).runAt data position)
      ((Reading.record layout).runAt data position) :=
  (Read.follows_record layout).runAt hdata position

/-! ## Chunk headers -/

/-- Read the header in front of some bytes, which stand at `offset` of the whole input. -/
def checkHeader (data : ByteArray) (offset : Nat) : Decoding ChunkHeader := do
  if data.size < 8 then
    throw (.truncatedChunk offset 8 data.size)
  let header ← (Read.record ChunkHeader.layout).runAt data 0
  if header.headerSize.toNat < 8 ∨ header.size.toNat < header.headerSize.toNat then
    throw (.invalidChunkHeader offset header.headerSize header.size)
  if data.size < header.size.toNat then
    throw (.truncatedChunk offset header.size.toNat data.size)
  return header

/-- A header is checked without a trap: what is compared are words that have been read. -/
theorem agrees_checkHeader {data : ByteArray} (hdata : Sized data) (offset : Nat) :
    Agrees (checkHeader data offset) (ChunkHeader.read data 0 offset) := by
  unfold checkHeader ChunkHeader.read
  dsimp only
  simp only [Nat.sub_zero]
  refine agrees_guard _ fun _ => (agrees_record _ hdata 0).bind fun header _ => ?_
  exact agrees_guard _ fun _ => agrees_guard _ fun _ => agrees_pure header

/-! ## Tree nodes -/

def readNode (record : Layout α) (chunk : ByteArray) (offset : Nat) :
    Decoding (NodeHeader × α) := do
  if chunk.size < 16 then
    throw (.malformedChunk offset .shortNode)
  let node ← (Read.record NodeHeader.layout).runAt chunk 0
  let headerSize := node.chunk.headerSize.toNat
  if headerSize < 16 then
    throw (.malformedChunk offset .shortNodeHeader)
  let needed ← word (headerSize + record.width)
  if chunk.size < needed then
    throw (.malformedChunk offset .shortNodeRecord)
  let extension ← (Read.record record).runAt chunk headerSize
  return (node, extension)

def readNamespace (chunk : ByteArray) (offset : Nat) : Decoding NamespaceScope := do
  let (node, record) ← readNode NamespaceRecord.layout chunk offset
  return ⟨node.line, loadIndex node.comment, loadIndex record.name, record.uri⟩

/-- The attributes from the `index`-th record on, each found by a product and a sum of its own. -/
def readAttributesOnto (chunk : ByteArray) (offset stride first : Nat) (done : List Attribute)
    (index : Nat) : Nat → Decoding (List Attribute)
  | 0 => return done.reverse
  | count + 1 => do
    let distance ← word (index * stride)
    let position ← word (first + distance)
    let record ← ExceptT.adapt (fun _ => .malformedChunk offset .attributeOutside)
      ((Read.record AttributeRecord.layout).runAt chunk position)
    readAttributesOnto chunk offset stride first (.ofRecord record :: done) (index + 1) count

def readStartTag (chunk : ByteArray) (offset : Nat) : Decoding StartTag := do
  let (node, record) ← readNode StartTagRecord.layout chunk offset
  let count := record.attributeCount.toNat
  let stride := record.attributeSize.toNat
  if 0 < count ∧ stride < 20 then
    throw (.malformedChunk offset .shortAttribute)
  let first ← word (node.chunk.headerSize.toNat + record.attributeStart.toNat)
  let attributes ← readAttributesOnto chunk offset stride first [] 0 count
  return {
    line := node.line
    comment := loadIndex node.comment
    uri := loadIndex record.uri
    name := record.name
    attributes
    idIndex := record.idIndex
    classIndex := record.classIndex
    styleIndex := record.styleIndex }

def readEndTag (chunk : ByteArray) (offset : Nat) : Decoding EndTag := do
  let (node, record) ← readNode EndTagRecord.layout chunk offset
  return ⟨node.line, loadIndex node.comment, loadIndex record.uri, record.name⟩

def readCharacterData (chunk : ByteArray) (offset : Nat) : Decoding CharacterData := do
  let (node, record) ← readNode CharacterDataRecord.layout chunk offset
  return ⟨node.line, loadIndex node.comment, record.data, .ofRecord record.value⟩

/-- A header's size is a 16-bit word, so a sum with the width of a record is far from the greatest
word. -/
theorem agrees_readNode (record : Layout α) (hwidth : record.width < UInt32.size)
    {chunk : ByteArray} (hchunk : Sized chunk) (offset : Nat) :
    Agrees (readNode record chunk offset) (Chunk.readNode record chunk offset) := by
  unfold readNode Chunk.readNode
  dsimp only
  refine agrees_guard _ fun _ => (agrees_record _ hchunk 0).bind fun node _ => ?_
  have hsum : node.chunk.headerSize.toNat + record.width < UInt64.size := by
    have hsize := node.chunk.headerSize.toNat_lt
    have h32 : UInt32.size = 2 ^ 32 := rfl
    have h64 : UInt64.size = 2 ^ 64 := rfl
    omega
  refine agrees_guard _ fun _ => agrees_lift (word_eq_some hsum) (agrees_guard _ fun _ => ?_)
  exact (agrees_record record hchunk _).bind fun extension _ => agrees_pure _

theorem agrees_readNamespace {chunk : ByteArray} (hchunk : Sized chunk) (offset : Nat) :
    Agrees (readNamespace chunk offset) (Chunk.readNamespace chunk offset) :=
  (agrees_readNode NamespaceRecord.layout (by decide) hchunk offset).bind fun _ _ => agrees_pure _

theorem agrees_readEndTag {chunk : ByteArray} (hchunk : Sized chunk) (offset : Nat) :
    Agrees (readEndTag chunk offset) (Chunk.readEndTag chunk offset) :=
  (agrees_readNode EndTagRecord.layout (by decide) hchunk offset).bind fun _ _ => agrees_pure _

theorem agrees_readCharacterData {chunk : ByteArray} (hchunk : Sized chunk) (offset : Nat) :
    Agrees (readCharacterData chunk offset) (Chunk.readCharacterData chunk offset) :=
  (agrees_readNode CharacterDataRecord.layout (by decide) hchunk offset).bind
    fun _ _ => agrees_pure _

/-- The places of the records are sums of the stride here and products with it there. The last of
them bounds all the products. -/
theorem agrees_readAttributesOnto {chunk : ByteArray} (hchunk : Sized chunk)
    (offset stride first : Nat) (done : List Attribute) (index count : Nat)
    (hlast : first + (index + count) * stride < UInt64.size) :
    Agrees (readAttributesOnto chunk offset stride first done index count)
      (Chunk.readAttributesOnto chunk offset stride done (first + index * stride) count) := by
  induction count generalizing done index with
  | zero => exact agrees_pure _
  | succ count ih =>
    -- this place is not behind the last one, for which there is a word
    have hmono : index * stride ≤ (index + (count + 1)) * stride :=
      Nat.mul_le_mul_right stride (Nat.le_add_right _ _)
    have hnext : first + index * stride + stride = first + (index + 1) * stride := by
      rw [Nat.add_assoc, Nat.succ_mul]
    have hend : index + 1 + count = index + (count + 1) := by omega
    have hread := (agrees_record AttributeRecord.layout hchunk (first + index * stride)).adapt
      fun _ => Error.malformedChunk offset .attributeOutside
    have hone : Chunk.readAttributesOnto chunk offset stride done (first + index * stride)
          (count + 1)
        = (((Reading.record AttributeRecord.layout).runAt chunk (first + index * stride)).mapError
            fun _ => .malformedChunk offset .attributeOutside) >>= fun record =>
          Chunk.readAttributesOnto chunk offset stride (.ofRecord record :: done)
            (first + index * stride + stride) count := by
      rw [Chunk.readAttributesOnto]
      cases (Reading.record AttributeRecord.layout).runAt chunk (first + index * stride) <;> rfl
    -- the product and the sum are formed, and then the record is read
    rw [hone, hnext]
    refine agrees_lift (word_eq_some (by omega)) (agrees_lift (word_eq_some (by omega)) ?_)
    exact hread.bind fun record _ => ih (.ofRecord record :: done) (index + 1) (by rwa [hend])

/-- The place of every attribute of a start tag is a word, whatever start, stride and count it
states. -/
theorem agrees_readStartTag {chunk : ByteArray} (hchunk : Sized chunk) (offset : Nat) :
    Agrees (readStartTag chunk offset) (Chunk.readStartTag chunk offset) := by
  unfold readStartTag Chunk.readStartTag
  refine (agrees_readNode StartTagRecord.layout (by decide) hchunk offset).bind ?_
  rintro ⟨node, record⟩ _
  dsimp only
  refine agrees_guard _ fun _ => ?_
  -- three 16-bit words bound the place of every record
  have hheader := node.chunk.headerSize.toNat_lt
  have hstart := record.attributeStart.toNat_lt
  have hproduct : record.attributeCount.toNat * record.attributeSize.toNat ≤ 2 ^ 16 * 2 ^ 16 :=
    Nat.mul_le_mul (Nat.le_of_lt record.attributeCount.toNat_lt)
      (Nat.le_of_lt record.attributeSize.toNat_lt)
  have h64 : UInt64.size = 2 ^ 64 := rfl
  refine agrees_lift (word_eq_some (by omega)) ?_
  have hattributes := agrees_readAttributesOnto hchunk offset record.attributeSize.toNat
    (node.chunk.headerSize.toNat + record.attributeStart.toNat) [] 0 record.attributeCount.toNat
    (by rw [Nat.zero_add]; omega)
  rw [Nat.zero_mul, Nat.add_zero] at hattributes
  exact hattributes.bind fun _ _ => agrees_pure _

end BinaryXml.Trapping
