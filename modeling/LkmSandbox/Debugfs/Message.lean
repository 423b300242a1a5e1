import LkmSandbox.Debugfs
import LkmSandbox.Lib.Run

/-!
# The message in debugfs

The file `message` is a buffer of 200 bytes. It has no length of its own: a reader is given all of
it and leaves out the NULs. Loading pads the first message with NULs to the end of the buffer, a
write stores its own bytes and no more.

* `readToEnd_spec` — a reader gets the whole buffer, whatever sizes it asks for
* `message_read_back_iff` — when a reader gets the message that was written last
-/

namespace LkmSandbox

open Lib

/-! ## Buffers of the kernel -/

/-- What a read returns, the position after it, and what it has stored in user space. -/
structure BufferRead where
  retval : Int
  position : Int
  delivered : List UInt8
deriving DecidableEq

/-- What a write returns, the position after it, and the buffer then. -/
structure BufferWrite where
  retval : Int
  position : Int
  buffer : List UInt8
deriving DecidableEq

/-- `simple_read_from_buffer`, where `copy_to_user` leaves `uncopied` bytes uncopied. -/
def simpleReadFromBuffer (count : Nat) (position : Int) (buffer : List UInt8) (available : Nat)
    (uncopied : Nat) : BufferRead :=
  if position < 0 then { retval := -einval, position, delivered := [] }
  else if position ≥ available ∨ count = 0 then { retval := 0, position, delivered := [] }
  else
    let pos := position.toNat
    let count := if count > available - pos then available - pos else count
    let left := min uncopied count
    if left = count then { retval := -efault, position, delivered := [] }
    else
      { retval := (count - left : Nat), position := position + (count - left : Nat)
        delivered := (buffer.drop pos).take (count - left) }

/-- A buffer after `n` bytes from `pos` on have been stored as `src` says, or left alone. -/
def storeAt (pos n : Nat) (src : Nat → Option UInt8) (buffer : List UInt8) : List UInt8 :=
  buffer.mapIdx fun i c => if pos ≤ i ∧ i < pos + n then (src (i - pos)).getD c else c

/--
`simple_write_to_buffer`. The bytes that `copy_from_user` reports as copied are those of the caller.
-/
def simpleWriteToBuffer (buffer : List UInt8) (available : Nat) (position : Int)
    (data : List UInt8) (copy : UserCopy) : BufferWrite :=
  if position < 0 then { retval := -einval, position, buffer }
  else if position ≥ available ∨ data.length = 0 then { retval := 0, position, buffer }
  else
    let pos := position.toNat
    let count := if data.length > available - pos then available - pos else data.length
    let left := min copy.uncopied count
    let src := fun i => if i < count - left then data[i]? else copy.clobber i
    let buffer := storeAt pos count src buffer
    if left = count then { retval := -efault, position, buffer }
    else { retval := (count - left : Nat), position := position + (count - left : Nat), buffer }

namespace Debugfs

/-! ## The operations of the file -/

/-- `debug_read` -/
def debugRead (m : Debugfs) (count : Nat) (position : Int) (uncopied : Nat) : BufferRead :=
  simpleReadFromBuffer count position m.content lkmDebugfsContentLen uncopied

/-- A call of `debug_write`: `data` is what the caller's buffer holds. -/
structure Write where
  position : Int
  data : List UInt8
  copy : UserCopy

/-- `debug_write`: the variables after it, what it returns, and the position. -/
def debugWrite (m : Debugfs) (w : Write) : Debugfs × Int × Int :=
  if w.data.length > lkmDebugfsContentLen then (m, -einval, w.position)
  else
    let r := simpleWriteToBuffer m.content lkmDebugfsContentLen w.position w.data w.copy
    ({ m with content := r.buffer }, r.retval, r.position)

/-! ## Readers -/

/-- A reader and the position it has come to. -/
structure Reader where
  file : Debugfs
  position : Int

/-- A call of `debug_read` that can be delivered. -/
def Reader.call (s : Reader) (count : Nat) : Except Empty (Reader × BufferRead) :=
  .ok ({ s with position := (s.file.debugRead count s.position 0).position },
    s.file.debugRead count s.position 0)

/-- Read from position 0 on until a call returns 0, with `fuel` calls at most. -/
def readToEnd (m : Debugfs) (fuel : Nat) (sizes : Nat → Nat) :
    Except Empty (Option (Reader × List BufferRead)) :=
  runUntil Reader.call (fun r => r.retval = 0) fuel sizes { file := m, position := 0 }

/-- `tr -d '\0'` -/
def deleteNuls (bytes : List UInt8) : List UInt8 := bytes.filter (· ≠ 0)

/-- Readers stop, and have read `message` between the NULs, whatever sizes they ask for. -/
def ReadsAs (m : Debugfs) (message : List UInt8) : Prop :=
  ∀ sizes : Nat → Nat, (∀ k, 1 ≤ sizes k) → ∃ fuel s rs,
    m.readToEnd fuel sizes = .ok (some (s, rs)) ∧
      deleteNuls (rs.flatMap BufferRead.delivered) = message

/-! ## What a reader gets -/

/-- The buffer has the length it is declared with. -/
def Sized (m : Debugfs) : Prop := m.content.length = lkmDebugfsContentLen

variable {m : Debugfs}

/-- A read within the buffer gives the bytes from the position on. -/
theorem debugRead_within (m : Debugfs) {pos count : Nat} (hpos : pos < lkmDebugfsContentLen)
    (hcount : 1 ≤ count) :
    let n := min count (lkmDebugfsContentLen - pos)
    m.debugRead count pos 0
      = { retval := n, position := (pos + n : Nat), delivered := (m.content.drop pos).take n } := by
  intro n
  have hn : (if count > lkmDebugfsContentLen - pos then lkmDebugfsContentLen - pos else count)
      = n := by
    show _ = min count (lkmDebugfsContentLen - pos)
    split <;> omega
  unfold debugRead simpleReadFromBuffer
  rw [if_neg (by omega), if_neg (by omega)]
  simp only [Int.toNat_natCast, hn, Nat.zero_min, Nat.sub_zero]
  rw [if_neg (by omega), Nat.cast_add]

theorem debugRead_behind (m : Debugfs) {pos : Nat} (hpos : lkmDebugfsContentLen ≤ pos)
    (count : Nat) :
    m.debugRead count pos 0 = { retval := 0, position := pos, delivered := [] } := by
  unfold debugRead simpleReadFromBuffer
  rw [if_neg (by omega), if_pos (Or.inl (by omega))]

/-- The reader reads `m`, and is at a byte of the buffer or at its end. -/
def Reader.At (m : Debugfs) (s : Reader) : Prop :=
  s.file = m ∧ ∃ pos : Nat, s.position = pos ∧ pos ≤ lkmDebugfsContentLen

/-- What the reader has not read yet. -/
def Reader.rest (s : Reader) : List UInt8 := s.file.content.drop s.position.toNat

/-- **A call** gives the next bytes, and none only at the end. -/
theorem Reader.call_spec (h : m.Sized) {s : Reader} {size : Nat} (hs : s.At m) (hsize : 1 ≤ size) :
    ∃ s' r, s.call size = .ok (s', r) ∧
      ((r.retval = 0 ∧ [r].flatMap BufferRead.delivered = s.rest) ∨
        (¬ r.retval = 0 ∧ s'.At m ∧ s'.rest.length < s.rest.length ∧
          ∀ rs : List BufferRead, rs.flatMap BufferRead.delivered = s'.rest →
            (r :: rs).flatMap BufferRead.delivered = s.rest)) := by
  obtain ⟨file, position⟩ := s
  obtain ⟨rfl, pos, hposition, hpos⟩ := hs
  obtain rfl : position = pos := hposition
  have hlen : file.content.length = lkmDebugfsContentLen := h
  refine ⟨_, _, rfl, ?_⟩
  rcases Nat.lt_or_eq_of_le hpos with hlt | rfl
  · right
    have hread := debugRead_within file hlt hsize
    dsimp only at hread ⊢
    rw [hread]
    refine ⟨?_, ⟨rfl, _, rfl, by omega⟩, ?_, ?_⟩
    · dsimp only
      omega
    · simp only [Reader.rest, Int.toNat_natCast, List.length_drop]
      omega
    · intro rs hrs
      rw [List.flatMap_cons, hrs]
      simp only [Reader.rest, Int.toNat_natCast]
      rw [← List.drop_drop, List.take_append_drop]
  · left
    dsimp only
    rw [debugRead_behind file (Nat.le_refl _)]
    refine ⟨rfl, ?_⟩
    simp only [Reader.rest, Int.toNat_natCast]
    rw [List.drop_of_length_le (Nat.le_of_eq hlen)]
    rfl

/-- **A reader** stops, with the whole buffer read. -/
theorem readToEnd_spec (h : m.Sized) {sizes : Nat → Nat} (hsizes : ∀ k, 1 ≤ sizes k) :
    ∃ fuel s rs, m.readToEnd fuel sizes = .ok (some (s, rs)) ∧
      rs.flatMap BufferRead.delivered = m.content := by
  have hstart : Reader.At m { file := m, position := 0 } := ⟨rfl, 0, rfl, Nat.zero_le _⟩
  have hend : ∃ s rs, runUntil Reader.call (fun r => r.retval = 0) (m.content.length + 1) sizes
      { file := m, position := 0 } = .ok (some (s, rs)) ∧
        rs.flatMap BufferRead.delivered = Reader.rest { file := m, position := 0 } :=
    runUntil_ends (I := Reader.At m) (P := fun size => 1 ≤ size) (f := fun s => s.rest.length)
      (Q := fun s rs => rs.flatMap BufferRead.delivered = s.rest)
      (fun hs hsize => Reader.call_spec h hs hsize) _ hsizes hstart (Nat.lt_succ_self _)
  obtain ⟨s, rs, hrun, hrs⟩ := hend
  exact ⟨_, s, rs, hrun, hrs⟩

/-! ## What a write leaves -/

theorem storeAt_length (pos n : Nat) (src : Nat → Option UInt8) (buffer : List UInt8) :
    (storeAt pos n src buffer).length = buffer.length := List.length_mapIdx

theorem simpleWriteToBuffer_length (buffer : List UInt8) (available : Nat) (position : Int)
    (data : List UInt8) (copy : UserCopy) :
    (simpleWriteToBuffer buffer available position data copy).buffer.length = buffer.length := by
  unfold simpleWriteToBuffer
  split
  · rfl
  · split
    · rfl
    · dsimp only
      generalize (if data.length > available - position.toNat then _ else _) = count
      split <;> simp only [storeAt_length]

theorem debugWrite_sized (h : m.Sized) (w : Write) : (m.debugWrite w).1.Sized := by
  unfold debugWrite
  split
  · exact h
  · exact (simpleWriteToBuffer_length ..).trans h

/-- A message stored at the start of a buffer it fits in. -/
theorem storeAt_zero {message buffer : List UInt8} (h : message.length ≤ buffer.length)
    {src : Nat → Option UInt8} (hsrc : ∀ i < message.length, src i = message[i]?) :
    storeAt 0 message.length src buffer = message ++ buffer.drop message.length := by
  refine List.ext_getElem? ?_
  intro i
  rw [storeAt, List.getElem?_mapIdx]
  by_cases hi : i < message.length
  · have hb : i < buffer.length := by omega
    rw [List.getElem?_append_left hi, List.getElem?_eq_getElem hb, Option.map_some,
      if_pos ⟨Nat.zero_le i, by omega⟩, Nat.sub_zero, hsrc i hi, List.getElem?_eq_getElem hi,
      Option.getD_some]
  · rw [List.getElem?_append_right (by omega), List.getElem?_drop,
      show message.length + (i - message.length) = i by omega]
    simp [hi]

/-- **A full write** at the start puts the message before what it does not reach. -/
theorem debugWrite_full (h : m.Sized) {message : List UInt8} (hne : 1 ≤ message.length)
    (hle : message.length ≤ lkmDebugfsContentLen) {copy : UserCopy}
    (hfull : (m.debugWrite ⟨0, message, copy⟩).2.1 = message.length) :
    (m.debugWrite ⟨0, message, copy⟩).1.content
      = message ++ m.content.drop message.length := by
  have hlen : m.content.length = lkmDebugfsContentLen := h
  have hcount : (if message.length > lkmDebugfsContentLen - (0 : Int).toNat then
      lkmDebugfsContentLen - (0 : Int).toNat else message.length) = message.length :=
    if_neg (by rw [Int.toNat_zero]; omega)
  unfold debugWrite simpleWriteToBuffer at hfull ⊢
  dsimp only at hfull ⊢
  rw [if_neg (by omega), if_neg (Int.lt_irrefl 0), if_neg (by omega), hcount] at hfull ⊢
  by_cases hleft : min copy.uncopied message.length = message.length
  · -- nothing of it has been copied
    rw [if_pos hleft] at hfull
    have herror : -efault = (message.length : Int) := hfull
    unfold efault at herror
    omega
  · rw [if_neg hleft] at hfull ⊢
    have hall : ((message.length - min copy.uncopied message.length : Nat) : Int)
        = message.length := hfull
    have hfit : message.length ≤ m.content.length := by omega
    rw [Int.toNat_zero]
    dsimp only
    rw [storeAt_zero hfit]
    exact fun i hi => if_pos (by omega)

/-! ## The last message -/

theorem deleteNuls_append (a b : List UInt8) :
    deleteNuls (a ++ b) = deleteNuls a ++ deleteNuls b := List.filter_append a b

theorem deleteNuls_of_no_nul {a : List UInt8} (h : 0 ∉ a) : deleteNuls a = a := by
  refine List.filter_eq_self.mpr fun c hc => decide_eq_true ?_
  rintro rfl
  exact h hc

theorem deleteNuls_eq_nil_iff {a : List UInt8} : deleteNuls a = [] ↔ ∀ c ∈ a, c = 0 := by
  unfold deleteNuls
  rw [List.filter_eq_nil_iff]
  simp

/-- What a reader is given depends on the buffer only. -/
theorem readsAs_iff (h : m.Sized) (message : List UInt8) :
    m.ReadsAs message ↔ deleteNuls m.content = message := by
  constructor
  · intro hreads
    obtain ⟨fuel, s, rs, hrun, hrs⟩ := hreads (fun _ => 1) fun _ => Nat.le_refl 1
    obtain ⟨fuel', s', rs', hrun', hrs'⟩ := readToEnd_spec h fun _ => Nat.le_refl 1
    cases runUntil_unique hrun hrun'
    rw [← hrs, hrs']
  · intro hcontent sizes hsizes
    obtain ⟨fuel, s, rs, hrun, hrs⟩ := readToEnd_spec h hsizes
    exact ⟨fuel, s, rs, hrun, by rw [hrs, hcontent]⟩

/-- **A message written in full**, in a buffer of any content. -/
theorem readsAs_debugWrite_iff (h : m.Sized) {message : List UInt8} (hnul : 0 ∉ message)
    (hne : 1 ≤ message.length) (hle : message.length ≤ lkmDebugfsContentLen) {copy : UserCopy}
    (hfull : (m.debugWrite ⟨0, message, copy⟩).2.1 = message.length) :
    (m.debugWrite ⟨0, message, copy⟩).1.ReadsAs message ↔
      ∀ c ∈ m.content.drop message.length, c = 0 := by
  rw [readsAs_iff (debugWrite_sized h _), debugWrite_full h hne hle hfull, deleteNuls_append,
    deleteNuls_of_no_nul hnul, List.append_right_eq_self, deleteNuls_eq_nil_iff]

/-! ## After a load -/

theorem lkmDebugfsInit_sized (answers : DebugfsAnswers) (r : Registry) :
    (lkmDebugfsInit answers r).2.1.Sized := by
  unfold lkmDebugfsInit
  split
  · rfl
  · simp only
    split
    · rfl
    · split <;> rfl

/-- The variables after load and writes. -/
def after (answers : DebugfsAnswers) (r : Registry) (writes : List Write) : Debugfs :=
  (run debugWrite (lkmDebugfsInit answers r).2.1 writes).1

theorem after_sized (answers : DebugfsAnswers) (r : Registry) (writes : List Write) :
    (after answers r writes).Sized :=
  run_invariant (I := Sized) (P := fun _ => True) (fun h _ => debugWrite_sized h _) writes
    (fun _ _ => trivial) (lkmDebugfsInit_sized answers r)

/--
**When the last message is read back.** After load and any writes, a message without NULs is written
in full to the start of the file: readers get that message iff nothing but NULs was in the buffer
behind the place it takes.
-/
theorem message_read_back_iff (answers : DebugfsAnswers) (r : Registry) (writes : List Write)
    (message : List UInt8) (copy : UserCopy) (hnul : 0 ∉ message) (hne : 1 ≤ message.length)
    (hle : message.length ≤ 200)
    (hfull : ((after answers r writes).debugWrite ⟨0, message, copy⟩).2.1 = message.length) :
    ((after answers r writes).debugWrite ⟨0, message, copy⟩).1.ReadsAs message ↔
      ∀ c ∈ (after answers r writes).content.drop message.length, c = 0 :=
  readsAs_debugWrite_iff (after_sized answers r writes) hnul hne hle hfull

/-- A load for which debugfs grants everything. -/
def granted : DebugfsAnswers :=
  { initialized := true, dir := ⟨true, false⟩, number := ⟨true, false⟩, message := ⟨true, false⟩ }

/-- NULs have been written over the end of the first message, so the next one is read back. -/
theorem message_read_back_iff_hi :
    let writes : List Write := [⟨2, List.replicate 14 0, .ok⟩]
    let m := after granted Registry.empty writes
    ((m.debugWrite ⟨0, cString "Hi", .ok⟩).1.ReadsAs (cString "Hi") ↔
      ∀ c ∈ m.content.drop (cString "Hi").length, c = 0) ∧
      ∀ c ∈ m.content.drop (cString "Hi").length, c = 0 :=
  ⟨message_read_back_iff granted Registry.empty _ (cString "Hi") .ok (by decide) (by decide)
    (by decide) (by decide +kernel), by decide +kernel⟩

/-- The first message shows behind a shorter one that is written over it. -/
theorem first_message_shows :
    ((after granted Registry.empty []).debugWrite ⟨0, cString "Hi", .ok⟩).2.1 = 2 ∧
      ¬ ((after granted Registry.empty []).debugWrite ⟨0, cString "Hi", .ok⟩).1.ReadsAs
        (cString "Hi") := by
  have hfull : ((after granted Registry.empty []).debugWrite ⟨0, cString "Hi", .ok⟩).2.1 = 2 := by
    decide
  refine ⟨hfull, ?_⟩
  rw [readsAs_debugWrite_iff (after_sized ..) (by decide) (by decide) (by decide) hfull]
  intro hnuls
  have hmem : (108 : UInt8) ∈ (after granted Registry.empty []).content.drop 2 := by decide
  exact absurd (hnuls 108 hmem) (by decide)

end Debugfs

end LkmSandbox
