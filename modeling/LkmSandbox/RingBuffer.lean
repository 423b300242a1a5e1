import LkmSandbox.Lib.Fifo

/-!
# The circular buffer

A buffer of eight `int`s with a length and two indices, each counted up on its own and set back to
zero where it reaches the end. The model follows `read` and `write` statement by statement; a use of
`buffer` out of its range is a fault.

* `RingBuffer.Inv` — the counters stay in range and the write index is where the held values end
* `read_spec`, `write_spec` — what one call does to the held values
* `RingBuffer.refines_fifo` — over every run of calls, the buffer is a bounded queue
-/

namespace LkmSandbox

open Lib

/-- `BUFFER_SIZE`. -/
abbrev bufferSize : Nat := 8

/-- The static variables. -/
structure RingBuffer where
  buffer : Vector Int bufferSize
  bufferLength : Int
  indexRead : Int
  indexWrite : Int

namespace RingBuffer

/-- An index that is not one of `buffer`. -/
inductive Fault where
  | outOfRange (index : Int)
deriving DecidableEq

/-- Static variables start out zero. -/
def start : RingBuffer :=
  { buffer := Vector.replicate bufferSize 0, bufferLength := 0, indexRead := 0, indexWrite := 0 }

/-- `buffer[i]` -/
def fetch (s : RingBuffer) (i : Int) : Except Fault Int :=
  if h : 0 ≤ i ∧ i.toNat < bufferSize then .ok (s.buffer.get ⟨i.toNat, h.2⟩)
  else .error (.outOfRange i)

/-- `buffer[i] = value` -/
def store (s : RingBuffer) (i value : Int) : Except Fault RingBuffer :=
  if h : 0 ≤ i ∧ i.toNat < bufferSize then
    .ok { s with buffer := s.buffer.set i.toNat value h.2 }
  else .error (.outOfRange i)

/-- `read` -/
def read (s : RingBuffer) : Except Fault (RingBuffer × Int) :=
  if s.bufferLength = 0 then .ok (s, -1)
  else do
    let value ← s.fetch s.indexRead
    let indexRead := s.indexRead + 1
    let bufferLength := s.bufferLength - 1
    let indexRead := if indexRead = bufferSize then 0 else indexRead
    .ok ({ s with bufferLength, indexRead }, value)

/-- `write` -/
def write (s : RingBuffer) (value : Int) : Except Fault RingBuffer :=
  if s.bufferLength = bufferSize then .ok s
  else do
    let s ← s.store s.indexWrite value
    let indexWrite := s.indexWrite + 1
    let bufferLength := s.bufferLength + 1
    let indexWrite := if indexWrite = bufferSize then 0 else indexWrite
    .ok { s with bufferLength, indexWrite }

/-- One call. `write` returns nothing. -/
def step (s : RingBuffer) : Fifo.Op Int → Except Fault (RingBuffer × Option Int)
  | .read => s.read.map fun (s, value) => (s, some value)
  | .write value => (s.write value).map fun s => (s, none)

/-! ## The invariant -/

/-- What the counters satisfy between calls. -/
structure Inv (s : RingBuffer) : Prop where
  length_nonneg : 0 ≤ s.bufferLength
  length_le : s.bufferLength ≤ bufferSize
  read_nonneg : 0 ≤ s.indexRead
  read_lt : s.indexRead < bufferSize
  write_nonneg : 0 ≤ s.indexWrite
  write_lt : s.indexWrite < bufferSize
  write_eq : s.indexWrite = (s.indexRead + s.bufferLength) % bufferSize

def cell (s : RingBuffer) (i : Nat) : Int := s.buffer[i]?.getD 0

/-- The values held, oldest first. -/
def contents (s : RingBuffer) : List Int :=
  window s.cell bufferSize s.indexRead.toNat s.bufferLength.toNat

theorem inv_start : Inv start := by
  constructor <;> decide

variable {s : RingBuffer}

theorem fetch_eq {i : Int} (h0 : 0 ≤ i) (h1 : i < bufferSize) :
    s.fetch i = .ok (s.cell i.toNat) := by
  have h : i.toNat < bufferSize := by omega
  unfold fetch cell
  rw [dif_pos ⟨h0, h⟩, Vector.getElem?_eq_getElem h]
  rfl

theorem store_eq {i : Int} (h0 : 0 ≤ i) (h1 : i < bufferSize) (value : Int) :
    ∃ b, s.store i value = .ok { s with buffer := b } ∧
      ∀ j, b[j]?.getD 0 = Function.update s.cell i.toNat value j := by
  have h : i.toNat < bufferSize := by omega
  refine ⟨s.buffer.set i.toNat value h, by unfold store; rw [dif_pos ⟨h0, h⟩], ?_⟩
  intro j
  unfold cell
  rw [Vector.getElem?_set]
  by_cases hj : j = i.toNat
  · subst hj
    simp
  · rw [if_neg (Ne.symm hj), Function.update_of_ne hj]

/-- Counting up and setting back to zero is counting modulo the size. -/
theorem wrap_eq {i : Int} (h0 : 0 ≤ i) (h1 : i < bufferSize) :
    (if i + 1 = (bufferSize : Int) then 0 else i + 1) = (i + 1) % bufferSize := by
  simp only [bufferSize] at *
  split <;> omega

/-! ## One call -/

theorem read_empty (h : s.bufferLength = 0) : s.read = .ok (s, -1) := by
  unfold read
  rw [if_pos h]

theorem write_full (h : s.bufferLength = bufferSize) (value : Int) :
    s.write value = .ok s := by
  unfold write
  rw [if_pos h]

/-- A read of a buffer that is not empty takes the oldest value out. -/
theorem read_spec (hs : Inv s) (h : s.bufferLength ≠ 0) :
    ∃ s' value, s.read = .ok (s', value) ∧ Inv s' ∧ s.contents = value :: s'.contents := by
  obtain ⟨h0, h1, hr0, hr1, hw0, hw1, hw⟩ := hs
  refine ⟨{ s with bufferLength := s.bufferLength - 1,
                   indexRead := (s.indexRead + 1) % bufferSize },
    s.cell s.indexRead.toNat, ?_, ?_, ?_⟩
  · unfold read
    rw [if_neg h, fetch_eq hr0 hr1]
    show Except.ok _ = _
    rw [wrap_eq hr0 hr1]
  · simp only [bufferSize] at *
    constructor <;> simp only [bufferSize] <;> omega
  · unfold contents
    simp only [bufferSize] at *
    have hlen : s.bufferLength.toNat = (s.bufferLength - 1).toNat + 1 := by omega
    have hhead : ((s.indexRead + 1) % (8 : Nat)).toNat = (s.indexRead.toNat + 1) % 8 := by omega
    rw [hlen, window_succ, hhead, window_mod, Nat.mod_eq_of_lt (by omega)]
    rfl

/-- A write to a buffer that is not full puts its value in. -/
theorem write_spec (hs : Inv s) (h : s.bufferLength ≠ bufferSize) (value : Int) :
    ∃ s', s.write value = .ok s' ∧ Inv s' ∧ s'.contents = s.contents ++ [value] := by
  obtain ⟨h0, h1, hr0, hr1, hw0, hw1, hw⟩ := hs
  obtain ⟨b, hstore, hb⟩ := store_eq (s := s) hw0 hw1 value
  refine ⟨{ s with buffer := b, bufferLength := s.bufferLength + 1,
                   indexWrite := (s.indexWrite + 1) % bufferSize }, ?_, ?_, ?_⟩
  · unfold write
    rw [if_neg h, hstore]
    show Except.ok _ = _
    rw [wrap_eq hw0 hw1]
  · simp only [bufferSize] at *
    constructor <;> simp only [bufferSize] <;> omega
  · unfold contents
    have hcell : ∀ len w, cell ⟨b, len, s.indexRead, w⟩
        = Function.update s.cell s.indexWrite.toNat value := fun _ _ => funext hb
    simp only [bufferSize] at *
    have hlen : (s.bufferLength + 1).toNat = s.bufferLength.toNat + 1 := by omega
    have hend : s.indexWrite.toNat = (s.indexRead.toNat + s.bufferLength.toNat) % 8 := by omega
    rw [hcell, hlen, hend, window_write (by omega)]

/-! ## Every run -/

/-- The buffer is in order and holds the values of `q`. -/
def Holds (s : RingBuffer) (q : Fifo Int bufferSize) : Prop := Inv s ∧ s.contents = q.items

theorem contents_length (hs : Inv s) : (s.contents.length : Int) = s.bufferLength := by
  have h0 := hs.length_nonneg
  unfold contents
  rw [window_length]
  omega

/-- The queue of eight that the buffer is for: reading it empty gives `-1`. -/
def ideal : Fifo Int bufferSize → Fifo.Op Int → Fifo Int bufferSize × Option Int := Fifo.step (-1)

/-- The values that the calls of a run put in, and those that they take out. -/
def accepted (ops : List (Fifo.Op Int)) : List Int :=
  Fifo.accepted (-1) (Fifo.empty : Fifo Int bufferSize) ops

def removed (ops : List (Fifo.Op Int)) : List Int :=
  Fifo.removed (-1) (Fifo.empty : Fifo Int bufferSize) ops

/-- **A call does to the buffer what it does to the queue.** -/
theorem step_holds {q : Fifo Int bufferSize} (h : s.Holds q) (op : Fifo.Op Int) :
    ∃ s', s.step op = .ok (s', (ideal q op).2) ∧ s'.Holds (ideal q op).1 := by
  obtain ⟨hs, hq⟩ := h
  have hlen := contents_length hs
  unfold ideal
  cases op with
  | read =>
    obtain ⟨items, hbound⟩ := q
    subst hq
    by_cases hempty : s.bufferLength = 0
    · have hnil : s.contents = [] := List.eq_nil_of_length_eq_zero (by omega)
      refine ⟨s, ?_, hs, ?_⟩
      · simp only [step, Fifo.step, Fifo.read, read_empty hempty, hnil]
        rfl
      · simp only [Fifo.step, Fifo.read, hnil]
    · obtain ⟨s', value, hread, hs', hcons⟩ := read_spec hs hempty
      refine ⟨s', ?_, hs', ?_⟩
      · simp only [step, Fifo.step, Fifo.read, hread, hcons]
        rfl
      · simp only [Fifo.step, Fifo.read, hcons]
  | write value =>
    have hbound := q.bounded
    rw [hq] at hlen
    show ∃ s', s.step _ = .ok (s', none) ∧ s'.Holds (q.write value)
    by_cases hfull : s.bufferLength = bufferSize
    · refine ⟨s, ?_, hs, ?_⟩
      · simp only [step, write_full hfull]
        rfl
      · rw [Fifo.write_of_full (by omega), hq]
    · obtain ⟨s', hwrite, hs', happ⟩ := write_spec hs hfull value
      refine ⟨s', ?_, hs', ?_⟩
      · simp only [step, hwrite]
        rfl
      · rw [Fifo.write_items_of_room (by have := hs.length_le; omega), happ, hq]

/--
**The circular buffer is a queue of eight.** Over every run of reads and writes from the start, no
use of `buffer` is out of range, the reads return what those of the queue return, the counters stay
in order, and the values accepted are those read out followed by those still in the buffer.
-/
theorem refines_fifo (ops : List (Fifo.Op Int)) :
    ∃ s, runE step start ops = .ok (s, (run ideal Fifo.empty ops).2) ∧
      (0 ≤ s.bufferLength ∧ s.bufferLength ≤ 8) ∧
      (0 ≤ s.indexRead ∧ s.indexRead < 8) ∧ (0 ≤ s.indexWrite ∧ s.indexWrite < 8) ∧
      s.indexWrite = (s.indexRead + s.bufferLength) % 8 ∧
      s.contents = (run ideal Fifo.empty ops).1.items ∧
      accepted ops = removed ops ++ s.contents := by
  have hstart : start.Holds Fifo.empty := ⟨inv_start, rfl⟩
  obtain ⟨s, hrun, hs, hitems⟩ := runE_simulates (R := Holds) (P := fun _ => True)
    (fun {s q op} (h : s.Holds q) _ => step_holds h op) ops (fun _ _ => trivial) hstart
  refine ⟨s, hrun, ⟨hs.length_nonneg, hs.length_le⟩, ⟨hs.read_nonneg, hs.read_lt⟩,
    ⟨hs.write_nonneg, hs.write_lt⟩, hs.write_eq, hitems, ?_⟩
  rw [hitems]
  exact Fifo.conserved (-1) ops Fifo.empty

end RingBuffer

end LkmSandbox
