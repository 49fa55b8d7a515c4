import BinaryXml.Proofs.StringPool.Placed
import BinaryXml.Proofs.Trapping.Reading

/-!
# Reads in any order

A `Request` is one read that a cursor can be asked for. However it ends, it ends in one of three
ways (`Request.Ends`): its bytes are there and the cursor moves behind them, they are not there and
it stays, or they are there but are no text and have been passed over. So a cursor that starts
inside its bytes never leaves them and one that starts behind them never moves, whatever is read in
whatever order, and no read makes a machine trap (`disciplined_leaveAll`).
-/

namespace BinaryXml

namespace Reading

variable {count : Nat} {data : ByteArray} {position : Nat}

/-- The next `count` bytes, without moving behind them. -/
def peek (count : Nat) : Reading ByteArray := fun c =>
  match c.peek count with
  | .ok slice => .ok slice c
  | .error fault => .error fault c

theorem peek_eq_ok (h : position + count ≤ data.size) :
    peek count ⟨data, position⟩
      = .ok (data.extract position (position + count)) ⟨data, position⟩ := by
  simp [peek, Cursor.peek, h]

theorem peek_eq_error (h : ¬ position + count ≤ data.size) :
    peek count ⟨data, position⟩
      = .error (.unexpectedEnd position count (data.size - position)) ⟨data, position⟩ := by
  simp [peek, Cursor.peek, h, Cursor.endFault, Cursor.remaining]

end Reading

/-- The next `count` bytes on a machine, without moving behind them. -/
def Trapping.Read.peek (count : Nat) : Trapping.Read ByteArray := fun c =>
  if c.data.size < c.position ∨ c.data.size - c.position < count then
    some (.error (c.endFault count))
  else
    (word (c.position + count)).bind fun stop =>
      (slice c.data c.position stop).bind fun piece => some (.ok (piece, c))

/-- A read that a cursor can be asked for. -/
inductive Request where
  | u8
  | u16
  | u32
  | bytes (count : Nat)
  | peek (count : Nat)
  | text (count : Nat)
  | units (count : Nat)
  /-- A record of some format. -/
  | record {α : Type} (layout : Layout α)

namespace Request

/-- What a read gives. -/
def Answer : Request → Type
  | u8 => UInt8
  | u16 => UInt16
  | u32 => UInt32
  | bytes _ => ByteArray
  | peek _ => ByteArray
  | text _ => String
  | units _ => List UInt16
  | @record α _ => α

/-- The number of bytes that a read is about. -/
def size : Request → Nat
  | u8 => 1
  | u16 => 2
  | u32 => 4
  | bytes count => count
  | peek count => count
  | text count => count
  | units count => 2 * count
  | record layout => layout.width

/-- The number of bytes that a successful read moves. -/
def advance : Request → Nat
  | peek _ => 0
  | request => request.size

/-- The number of bytes that a read is said to need when they are not there. That of words may be
too large to be said. -/
def needed : Request → Nat
  | units count => min (2 * count) Reading.greatestCount
  | request => request.size

/-- The answer that some bytes spell. -/
def Spells : (request : Request) → ByteArray → request.Answer → Prop
  | u8, piece, value => piece = (Layout.u8.encode value).toByteArray
  | u16, piece, value => piece = (Layout.u16.encode value).toByteArray
  | u32, piece, value => piece = (Layout.u32.encode value).toByteArray
  | bytes _, piece, value => piece = value
  | peek _, piece, value => piece = value
  | text _, piece, value => piece = value.toUTF8
  | units _, piece, value => piece = (value.flatMap Layout.u16.encode).toByteArray
  | record layout, piece, value => layout.decode piece.data.toList = value

def perform : (request : Request) → Reading request.Answer
  | u8 => Reading.u8
  | u16 => Reading.u16
  | u32 => Reading.u32
  | bytes count => Reading.bytes count
  | peek count => Reading.peek count
  | text count => Reading.text count
  | units count => Reading.units count
  | record layout => Reading.record layout

/-- The same read on a machine. -/
def performOnMachine : (request : Request) → Trapping.Read request.Answer
  | u8 => Trapping.Read.record .u8
  | u16 => Trapping.Read.record .u16
  | u32 => Trapping.Read.record .u32
  | bytes count => Trapping.Read.bytes count
  | peek count => Trapping.Read.peek count
  | text count => Trapping.Read.text count
  | units count => Trapping.Read.units count
  | record layout => Trapping.Read.record layout

/-- How a read at a cursor ends. -/
inductive Ends (c : Cursor) :
    (request : Request) → EStateM.Result ReadFault Cursor request.Answer → Prop where
  /-- Its bytes are there and spell the answer; the cursor moves behind them, or not at all. -/
  | done {request : Request} {value : request.Answer}
      (inside : c.position + request.size ≤ c.data.size)
      (spells : request.Spells (c.data.extract c.position (c.position + request.size)) value) :
      Ends c request (.ok value ⟨c.data, c.position + request.advance⟩)
  /-- Not all of its bytes are there; the cursor stays. -/
  | short {request : Request} (outside : c.data.size < c.position + request.size) :
      Ends c request
        (.error (.unexpectedEnd c.position request.needed (c.data.size - c.position)) c)
  /-- Its bytes are there but spell no text; the cursor is behind them. -/
  | notText {count : Nat} {fault : Utf8.Fault} (inside : c.position + count ≤ c.data.size)
      (spellsNone : ∀ s : String, c.data.extract c.position (c.position + count) ≠ s.toUTF8) :
      Ends c (.text count) (.error (.notUtf8 fault) ⟨c.data, c.position + count⟩)

/-! ## How each read ends -/

section

variable {c : Cursor}

/-- A read that takes some bytes and looks at nothing else. -/
theorem ends_of_perform_eq (request : Request) (value : ByteArray → request.Answer)
    (hperform : request.perform = Reading.bytes request.size >>= fun piece => pure (value piece))
    (hadvance : request.advance = request.size) (hneeded : request.needed = request.size)
    (hspells : ∀ piece : ByteArray, piece.size = request.size →
      request.Spells piece (value piece)) :
    Ends c request (request.perform c) := by
  obtain ⟨data, position⟩ := c
  by_cases hinside : position + request.size ≤ data.size
  · -- the bytes are there, so the answer is what they spell
    have hsize : (data.extract position (position + request.size)).size = request.size := by
      rw [ByteArray.size_extract]
      omega
    have hrun : request.perform ⟨data, position⟩
        = .ok (value (data.extract position (position + request.size)))
            ⟨data, position + request.advance⟩ := by
      rw [hperform, hadvance]
      exact Reading.bind_run_eq_ok_iff.mpr ⟨_, _, Reading.bytes_eq_ok hinside, rfl⟩
    rw [hrun]
    exact .done hinside (hspells _ hsize)
  · have hrun : request.perform ⟨data, position⟩
        = .error (.unexpectedEnd position request.needed (data.size - position))
            ⟨data, position⟩ := by
      rw [hperform, hneeded]
      exact Reading.bind_run_eq_error_iff.mpr (.inl (Reading.bytes_eq_error hinside))
    rw [hrun]
    exact .short (Nat.lt_of_not_le hinside)

theorem ends_peek (count : Nat) : Ends c (.peek count) (Reading.peek count c) := by
  obtain ⟨data, position⟩ := c
  by_cases hinside : position + count ≤ data.size
  · rw [Reading.peek_eq_ok hinside]
    exact .done hinside rfl
  · rw [Reading.peek_eq_error hinside]
    exact .short (Nat.lt_of_not_le hinside)

/-- A text that is read is read like bytes, which may then spell none. -/
theorem ends_text (count : Nat) : Ends c (.text count) (Reading.text count c) := by
  obtain ⟨data, position⟩ := c
  by_cases hinside : position + count ≤ data.size
  · rw [Reading.text]
    simp only [Bind.bind, EStateM.bind, Reading.bytes_eq_ok hinside]
    cases hdecode : Utf8.decode (data.extract position (position + count)) with
    | ok s => exact .done hinside (Utf8.decode_eq_ok_iff.mp hdecode)
    | error fault =>
      refine .notText hinside fun s hs => ?_
      rw [Utf8.decode_eq_ok_iff.mpr hs] at hdecode
      cases hdecode
  · rw [Reading.text]
    simp only [Bind.bind, EStateM.bind, Reading.bytes_eq_error hinside]
    exact .short (Nat.lt_of_not_le hinside)

/-- As many words as no bytes can hold are not there. -/
theorem ends_units (hdata : Trapping.Sized c.data) (count : Nat) :
    Ends c (.units count) (Reading.units count c) := by
  obtain ⟨data, position⟩ := c
  have hsized : data.size < UInt64.size := hdata
  have hgreatest : Reading.greatestCount = UInt64.size - 1 := rfl
  by_cases hcount : 2 * count ≤ Reading.greatestCount
  · have hneeded : (Request.units count).needed = 2 * count := Nat.min_eq_left hcount
    refine ends_of_perform_eq (.units count) (fun piece => Reading.words piece.data.toList) ?_ rfl
      hneeded fun piece hpiece => ?_
    · show Reading.units count = _
      rw [Reading.units, if_pos hcount]
      rfl
    · -- an even number of bytes spells as many words as half of it
      have heven : piece.size % 2 = 0 := by
        rw [hpiece]
        exact Nat.mul_mod_right 2 count
      exact (Reading.words_eq_iff heven).mp rfl
  · have hneeded : (Request.units count).needed = Reading.greatestCount :=
      Nat.min_eq_right (Nat.le_of_not_le hcount)
    -- more words are asked for than a word can count, and the bytes are fewer
    have houtside : data.size < position + 2 * count := by omega
    have hshort : Ends ⟨data, position⟩ (.units count)
        (.error (.unexpectedEnd position (Request.units count).needed (data.size - position))
          ⟨data, position⟩) := .short houtside
    rw [hneeded] at hshort
    rw [Reading.units, if_neg hcount]
    exact hshort

/-- **One read.** -/
theorem ends_perform (hdata : Trapping.Sized c.data) (request : Request) :
    Ends c request (request.perform c) := by
  -- a word is spelled by the bytes that it is stored in
  have hword : ∀ {α : Type} {layout : Layout α}, layout.Exact → ∀ piece : ByteArray,
      piece.size = layout.width →
        piece = (layout.encode (layout.decode piece.data.toList)).toByteArray := by
    intro α layout hexact piece hsize
    rw [hexact piece.data.toList hsize]
    apply ByteArray.ext
    rw [List.data_toByteArray, Array.toArray_toList]
  cases request with
  | u8 =>
    exact ends_of_perform_eq .u8 (fun piece => Layout.u8.decode piece.data.toList) rfl rfl rfl
      (hword Layout.exact_u8)
  | u16 =>
    exact ends_of_perform_eq .u16 (fun piece => Layout.u16.decode piece.data.toList) rfl rfl rfl
      (hword Layout.exact_u16)
  | u32 =>
    exact ends_of_perform_eq .u32 (fun piece => Layout.u32.decode piece.data.toList) rfl rfl rfl
      (hword Layout.exact_u32)
  | bytes count =>
    exact ends_of_perform_eq (.bytes count) id (bind_pure (Reading.bytes count)).symm rfl rfl
      fun _ _ => rfl
  | peek count => exact ends_peek count
  | text count => exact ends_text count
  | units count => exact ends_units hdata count
  | record layout =>
    exact ends_of_perform_eq (.record layout) (fun piece => layout.decode piece.data.toList) rfl rfl
      rfl fun _ _ => rfl

end

/-! ## Reads on a machine -/

open Trapping in
/-- A look ahead is safe: the sum is formed only when the bytes are there. -/
theorem follows_peek (count : Nat) : (Read.peek count).Follows (Reading.peek count) := by
  intro ⟨data, position⟩ hdata
  have hsized : data.size < UInt64.size := hdata
  rw [Read.peek]
  dsimp only
  by_cases hinside : position + count ≤ data.size
  · rw [Reading.peek_eq_ok hinside, if_neg (by omega), word_eq_some (by omega), Option.bind_some,
      slice_eq_some (by omega) hinside]
    refine ⟨rfl, fun piece after h => ?_⟩
    cases h
    rfl
  · rw [Reading.peek_eq_error hinside, if_pos (by omega)]
    exact ⟨rfl, nofun⟩

open Trapping in
/-- Every read on a machine makes the steps of the read that it stands for. -/
theorem follows_perform (request : Request) :
    request.performOnMachine.Follows request.perform := by
  cases request with
  | u8 => exact Read.follows_record .u8
  | u16 => exact Read.follows_record .u16
  | u32 => exact Read.follows_record .u32
  | bytes count => exact Read.follows_bytes count
  | peek count => exact follows_peek count
  | text count => exact Read.follows_text count
  | units count => exact Read.follows_units count
  | record layout => exact Read.follows_record layout

/-! ## Any number of reads -/

/-- The cursor after a read, whether it succeeds or not. -/
def leave (c : Cursor) (request : Request) : Cursor :=
  match request.perform c with
  | .ok _ after => after
  | .error _ after => after

/-- The cursor after some reads in order, whichever of them fail. -/
def leaveAll (c : Cursor) (requests : List Request) : Cursor :=
  requests.foldl leave c

variable {c : Cursor}

/-- No read moves further than its bytes. -/
theorem advance_le_size (request : Request) : request.advance ≤ request.size := by
  cases request with
  | peek count => exact Nat.zero_le count
  | u8 | u16 | u32 | bytes | text | units | record => exact Nat.le_refl _

/-- A read leaves the cursor where it was, or moves it within its bytes. -/
theorem leave_eq_or (hdata : Trapping.Sized c.data) (request : Request) :
    leave c request = c ∨
      ∃ count, c.position + count ≤ c.data.size ∧
        leave c request = ⟨c.data, c.position + count⟩ := by
  have hends := ends_perform hdata request
  rw [leave]
  generalize request.perform c = result at hends
  cases hends with
  | done inside =>
    have hadvance := request.advance_le_size
    exact .inr ⟨_, by omega, rfl⟩
  | short => exact .inl rfl
  | notText inside => exact .inr ⟨_, inside, rfl⟩

theorem data_leave (hdata : Trapping.Sized c.data) (request : Request) :
    (leave c request).data = c.data := by
  rcases leave_eq_or hdata request with h | ⟨count, -, h⟩ <;> rw [h]

/-- **Inside its bytes** a cursor stays inside, whatever is read. -/
theorem position_leave_le (hdata : Trapping.Sized c.data) (h : c.position ≤ c.data.size)
    (request : Request) : (leave c request).position ≤ c.data.size := by
  rcases leave_eq_or hdata request with hleave | ⟨count, hinside, hleave⟩ <;> rw [hleave]
  · exact h
  · exact hinside

/-- **Behind its bytes** every read fails, even one of no bytes, and the cursor stays. -/
theorem exists_perform_eq_error (hdata : Trapping.Sized c.data) (h : c.data.size < c.position)
    (request : Request) : ∃ fault, request.perform c = .error fault c := by
  have hends := ends_perform hdata request
  generalize request.perform c = result at hends
  cases hends with
  | done inside => omega
  | short => exact ⟨_, rfl⟩
  | notText inside => omega

/-- What holds of a cursor that has come from a place of some bytes by any reads. -/
structure Disciplined (data : ByteArray) (start : Nat) (c : Cursor) : Prop where
  data_eq : c.data = data
  /-- The next read, whichever it is, ends in one of the ways that there are. -/
  ends : ∀ request : Request, request.Ends c (request.perform c)
  /-- A start inside the bytes is never followed by a place behind them. -/
  position_le : start ≤ data.size → c.position ≤ data.size
  /-- A start behind the bytes is never left, since every read from there fails. -/
  position_eq : data.size < start → c.position = start ∧
    ∀ request : Request, ∃ fault, request.perform c = .error fault c
  /-- No read forms a sum that is no word or cuts a slice out of range. -/
  onMachine : ∀ request : Request,
    request.performOnMachine c = some (Trapping.outcome (request.perform c))
  /-- Nor does cutting off what is left. -/
  slice_rest : Trapping.slice c.data (min c.position c.data.size) c.data.size = some c.rest

/-- Where a cursor stands is all there is to know of it: what its next read comes to follows from
that. -/
theorem disciplined_of_position {data : ByteArray} {start : Nat} (hdata : Trapping.Sized data)
    (heq : c.data = data) (hle : start ≤ data.size → c.position ≤ data.size)
    (hpast : data.size < start → c.position = start) : Disciplined data start c := by
  subst heq
  exact {
    data_eq := rfl
    ends := ends_perform hdata
    position_le := hle
    position_eq := fun h => ⟨hpast h, exists_perform_eq_error hdata (hpast h ▸ h)⟩
    onMachine := fun request => (follows_perform request c hdata).1
    slice_rest := Trapping.slice_eq_some (Nat.min_le_right _ _) (Nat.le_refl _) }

/-- One read keeps a cursor disciplined, whether it succeeds or not. -/
theorem Disciplined.leave {data : ByteArray} {start : Nat} (hdata : Trapping.Sized data)
    (h : Disciplined data start c) (request : Request) :
    Disciplined data start (leave c request) := by
  have hsized : Trapping.Sized c.data := h.data_eq ▸ hdata
  refine disciplined_of_position hdata ((data_leave hsized request).trans h.data_eq)
    (fun hstart => ?_) (fun hstart => ?_)
  · have hposition : c.position ≤ c.data.size := h.data_eq ▸ h.position_le hstart
    exact h.data_eq ▸ position_leave_le hsized hposition request
  · -- behind the end every read fails where it is
    obtain ⟨hposition, hfails⟩ := h.position_eq hstart
    obtain ⟨fault, hfault⟩ := hfails request
    rw [Request.leave, hfault, hposition]

/-- **The discipline of a cursor.** Wherever it starts and whatever is read in whatever order. -/
theorem disciplined_leaveAll {data : ByteArray} (hdata : Trapping.Sized data) (start : Nat)
    (requests : List Request) : Disciplined data start (leaveAll ⟨data, start⟩ requests) := by
  have hstart : Disciplined data start ⟨data, start⟩ :=
    disciplined_of_position hdata rfl id fun _ => rfl
  -- the reads come one after the other, each from where the last one ended
  generalize (⟨data, start⟩ : Cursor) = c at hstart ⊢
  induction requests generalizing c with
  | nil => exact hstart
  | cons request rest ih => exact ih _ (hstart.leave hdata request)

/-- A letter, a byte that no text holds, and a word. -/
def letterAndWord : ByteArray :=
  [0x61, 0xFF, 0x34, 0x12].toByteArray

/-- Two bytes that are no text and are passed over, a word that is too long, and one that is
there. -/
def assortedReads : List Request :=
  [.text 2, .u32, .peek 2, .units 0x8000000000000000, .u16, .bytes 0]

/-- Six reads from the start, of which two fail and one of these moves, and the same six from behind
the end, where none moves. -/
theorem disciplined_leaveAll_assortedReads :
    Trapping.Sized letterAndWord ∧
      (leaveAll ⟨letterAndWord, 0⟩ assortedReads).position = 4 ∧
      Disciplined letterAndWord 0 (leaveAll ⟨letterAndWord, 0⟩ assortedReads) ∧
      (leaveAll ⟨letterAndWord, 9⟩ assortedReads).position = 9 := by
  have hsized : Trapping.Sized letterAndWord := by
    unfold Trapping.Sized
    decide
  have hbehind := disciplined_leaveAll hsized 9 assortedReads
  exact ⟨hsized, rfl, disciplined_leaveAll hsized 0 assortedReads,
    (hbehind.position_eq (by decide)).1⟩

end Request

end BinaryXml
