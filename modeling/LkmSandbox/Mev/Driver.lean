import LkmSandbox.Lib.Run
import LkmSandbox.Mev.Container

/-!
# The entry points of `lkm_mev.c`

`mev_follow`, `mev_trim`, `mev_open`, `mev_read` and `mev_write`, in the order of the source. A
call gets the value of `*f_pos` and returns the new one; `f_pos` is the 64-bit pattern of a
`loff_t` that came in as non-negative.

Read and write are cut at their kernel calls: `…Locate` runs from `down_interruptible` to the user
copy, `…Copy` is the copy, `writeUpdate` is what follows it. `mevRead` and `mevWrite` are these
pieces in sequence.

## Loops

* `followLoop` — `while (n--)` runs `(unsigned)n` times
* `trimSlots` — `qset - i` decreases
* `trimNodes` — every round frees a block, so more rounds than identities ever handed out would
  mean that it does not end; that is the fault `endless`
-/

namespace LkmSandbox.Mev

open Lib

/-! ## `mev_follow` -/

/-- The rounds of `while (n--)` for an `int` that wraps below its minimum. -/
def rounds (n : Int) : Nat := (n % 2 ^ 32).toNat

/-- A zeroed `struct mev_qset`, as `memset` leaves it. -/
def zeroQset : Block := .qset { data := none, next := none }

def sizeofQset : Int := 16
def sizeofPointer : Int := 8

def followLoop (env : Env) : Nat → Addr → Mem → Except Fault (Mem × Option Addr)
  | 0, qset, m => .ok (m, some qset)
  | n + 1, qset, m => do
    let node ← m.loadQset qset
    match node.next with
    | some next => followLoop env n next m
    | none =>
      match m.kmalloc env sizeofQset zeroQset with
      | (m, none) => .ok (m, none)
      | (m, some next) =>
        followLoop env n next
          { m with heap := m.heap.store qset (.qset { node with next := some next }) }

def mevFollow (env : Env) (n : Int) (m : Mem) : Except Fault (Mem × Option Addr) :=
  match m.container.data with
  | some qset => followLoop env (rounds n) qset m
  | none =>
    match m.kmalloc env sizeofQset zeroQset with
    | (m, none) => .ok (m, none)
    | (m, some qset) =>
      followLoop env (rounds n) qset { m with container := { m.container with data := some qset } }

/-! ## `mev_trim` -/

/-- The inner loop: `i` is its counter, `n` the rounds left. -/
def trimSlots (data : Addr) : Nat → Nat → Mem → Except Fault Mem
  | 0, _, m => .ok m
  | n + 1, i, m => do
    let slot ← m.loadSlot data i
    let m ← m.kfree slot
    trimSlots data n (i + 1) m

/-- What the outer loop does with one node before it takes `next`. -/
def trimData (qset : Int) (dptr : Addr) (m : Mem) : Except Fault Mem := do
  let node ← m.loadQset dptr
  match node.data with
  | none => .ok m
  | some data => do
    let m ← trimSlots data qset.toNat 0 m
    let m ← m.kfree (some data)
    .ok { m with heap := m.heap.store dptr (.qset { node with data := none }) }

def trimNodes (qset : Int) : Nat → Option Addr → Mem → Except Fault Mem
  | _, none, m => .ok m
  | 0, some _, _ => .error .endless
  | fuel + 1, some dptr, m => do
    let m ← trimData qset dptr m
    let node ← m.loadQset dptr
    let m ← m.kfree (some dptr)
    trimNodes qset fuel node.next m

/-- The fields `mev_trim` stores at its end. -/
def MevContainer.reset (c : MevContainer) : MevContainer :=
  { c with size := 0, quantum := lkmMevQuantumSize, qset := lkmMevQsetSize, data := none }

def mevTrim (m : Mem) : Except Fault Mem := do
  let m' ← trimNodes m.container.qset (m.heap.calls + 1) m.container.data m
  .ok { m' with container := m'.container.reset }

/-! ## `mev_open` -/

/-- `(f_flags & O_ACCMODE) == O_WRONLY` -/
def mevIoIsWronly (fFlags : UInt32) : Bool := fFlags &&& 3 == 1

def mevOpen (fFlags : UInt32) (m : Mem) : Except Fault Mem :=
  if mevIoIsWronly fFlags then mevTrim m else .ok m

/-! ## Positions -/

/-- `item`, `s_pos` and `q_pos` as read and write compute them from `*f_pos`. -/
structure Offset where
  item : Int
  sPos : Int
  qPos : Int

def offsetOf (quantum qset : Int) (fPos : Nat) : Except Fault Offset :=
  let itemsize := int32 (quantum * qset)
  if itemsize = 0 ∨ quantum = 0 then .error .divideError
  else
    let item := int32 ((int64 fPos).tdiv itemsize)
    let rest := int32 ((int64 fPos).tmod itemsize)
    .ok { item, sPos := int32 (rest.tdiv quantum), qPos := rest.tmod quantum }

/-- `if (count > quantum - q_pos) count = quantum - q_pos;` -/
def clampCount (quantum qPos : Int) (count : Nat) : Nat :=
  if sizeT (quantum - qPos) < count then sizeT (quantum - qPos) else count

/-- What a call returns, where `*f_pos` is afterwards, and the bytes that reached user space. -/
structure Reply where
  retval : Int
  fPos : Nat
  delivered : List UInt8
  deriving DecidableEq

/-- Where a call stands before its user copy: it goes to `out`, or it copies `count` bytes. -/
inductive Located where
  | out (retval : Int)
  | copy (dptr : Addr) (sPos qPos : Int) (count : Nat)

/-! ## `mev_read` -/

/-- `dptr->data[s_pos]`, null when `dptr` or its array is. -/
def loadQuantum (dptr : Option Addr) (sPos : Int) (m : Mem) : Except Fault (Option Addr) :=
  match dptr with
  | none => .ok none
  | some dptr => do
    let node ← m.loadQset dptr
    match node.data with
    | none => .ok none
    | some data => m.loadSlot data sPos

def readLocate (env : Env) (quantum qset : Int) (fPos count : Nat) (m : Mem) :
    Except Fault (Mem × Located) :=
  if m.container.size ≤ fPos then .ok (m, .out 0)
  else do
    let count :=
      if m.container.size < (fPos + count) % 2 ^ 64 then m.container.size - fPos else count
    let off ← offsetOf quantum qset fPos
    let (m, dptr) ← mevFollow env off.item m
    match dptr, ← loadQuantum dptr off.sPos m with
    | some dptr, some _ =>
      .ok (m, .copy dptr off.sPos off.qPos (clampCount quantum off.qPos count))
    | _, _ => .ok (m, .out 0)

/--
`copy_to_user`: the bytes before the first that is not copied reach the user. Returns those bytes
and how many were not copied.
-/
def readCopy (dptr : Addr) (sPos qPos : Int) (count uncopied : Nat) (m : Mem) :
    Except Fault (List UInt8 × Nat) := do
  match ← loadQuantum (some dptr) sPos m with
  | none => .error .badPointer
  | some q => do
    let bytes ← m.loadBytes q qPos count
    .ok (bytes.take (count - uncopied), min uncopied count)

/-- `retval` and `*f_pos` after the copy. -/
def readReply (fPos count : Nat) (delivered : List UInt8) (left : Nat) : Reply :=
  if left ≠ 0 then { retval := -efault, fPos, delivered }
  else { retval := count, fPos := fPos + count, delivered }

def mevRead (env : Env) (fPos count uncopied : Nat) (m : Mem) : Except Fault (Mem × Reply) := do
  let quantum := m.container.quantum
  let qset := m.container.qset
  let (m, taken) ← m.downInterruptible
  if taken then do
    let (m, located) ← readLocate env quantum qset fPos count m
    match located with
    | .out retval => .ok (m.up, { retval, fPos, delivered := [] })
    | .copy dptr sPos qPos count => do
      let (delivered, left) ← readCopy dptr sPos qPos count uncopied m
      .ok (m.up, readReply fPos count delivered left)
  else .ok (m, { retval := -erestartsys, fPos, delivered := [] })

/-! ## `mev_write` -/

/-- `dptr->data`, allocated and zeroed when it is null. -/
def ensureData (env : Env) (qset : Int) (dptr : Addr) (m : Mem) :
    Except Fault (Mem × Option Addr) := do
  let node ← m.loadQset dptr
  match node.data with
  | some data => .ok (m, some data)
  | none =>
    match m.kmalloc env (qset * sizeofPointer) (.slots qset.toNat fun _ => none) with
    | (m, none) => .ok (m, none)
    | (m, some data) =>
      .ok ({ m with heap := m.heap.store dptr (.qset { node with data := some data }) }, some data)

/-- `dptr->data[s_pos]`, allocated when it is null. The new quantum is not zeroed. -/
def ensureQuantum (env : Env) (quantum : Int) (data : Addr) (sPos : Int) (m : Mem) :
    Except Fault (Mem × Option Addr) := do
  match ← m.loadSlot data sPos with
  | some q => .ok (m, some q)
  | none =>
    match m.kmalloc env quantum (.quantum quantum.toNat (env.junk m.heap.calls)) with
    | (m, none) => .ok (m, none)
    | (m, some q) => do
      let m ← m.storeSlot data sPos (some q)
      .ok (m, some q)

def writeLocate (env : Env) (quantum qset : Int) (fPos count : Nat) (m : Mem) :
    Except Fault (Mem × Located) := do
  let off ← offsetOf quantum qset fPos
  let (m, dptr) ← mevFollow env off.item m
  match dptr with
  | none => .ok (m, .out (-enomem))
  | some dptr => do
    let (m, data) ← ensureData env qset dptr m
    match data with
    | none => .ok (m, .out (-enomem))
    | some data => do
      let (m, q) ← ensureQuantum env quantum data off.sPos m
      match q with
      | none => .ok (m, .out (-enomem))
      | some _ => .ok (m, .copy dptr off.sPos off.qPos (clampCount quantum off.qPos count))

/-- `copy_from_user` into the located range. Returns how many bytes were not copied. -/
def writeCopy (dptr : Addr) (sPos qPos : Int) (count : Nat) (buf : Nat → UInt8) (copy : UserCopy)
    (m : Mem) : Except Fault (Mem × Nat) := do
  match ← loadQuantum (some dptr) sPos m with
  | none => .error .badPointer
  | some q => do
    let left := min copy.uncopied count
    let src := if left = 0 then fun i => some (buf i) else copy.clobber
    let m ← m.storeBytes q qPos count src
    .ok (m, left)

/-- `if (container->size < *f_pos) container->size = *f_pos;` -/
def writeUpdate (fPos : Nat) (m : Mem) : Mem :=
  if m.container.size < fPos then { m with container := { m.container with size := fPos } } else m

def mevWrite (env : Env) (fPos count : Nat) (buf : Nat → UInt8) (copy : UserCopy) (m : Mem) :
    Except Fault (Mem × Reply) := do
  let quantum := m.container.quantum
  let qset := m.container.qset
  let (m, taken) ← m.downInterruptible
  if taken then do
    let (m, located) ← writeLocate env quantum qset fPos count m
    match located with
    | .out retval => .ok (m.up, { retval, fPos, delivered := [] })
    | .copy dptr sPos qPos count => do
      let (m, left) ← writeCopy dptr sPos qPos count buf copy m
      if left ≠ 0 then .ok (m.up, { retval := -efault, fPos, delivered := [] })
      else
        .ok ((writeUpdate (fPos + count) m).up,
          { retval := count, fPos := fPos + count, delivered := [] })
  else .ok (m, { retval := -erestartsys, fPos, delivered := [] })

/-! ## Calls and runs -/

/-- A call of one of the driver's entry points, with what user space and the kernel put into it. -/
inductive Call where
  | mevOpen (fFlags : UInt32)
  | mevRead (fPos count uncopied : Nat)
  | mevWrite (fPos count : Nat) (buf : Nat → UInt8) (copy : UserCopy)
  | mevTrim

/-- `*f_pos` came in as a non-negative `loff_t`. -/
def Call.Valid : Call → Prop
  | .mevRead fPos _ _ => fPos < 2 ^ 63
  | .mevWrite fPos _ _ _ => fPos < 2 ^ 63
  | _ => True

/--
How far the list reaches. `item` is an `int` and `while (n--)` counts it down as an unsigned number,
so there are `2^32` nodes at most and positions come round after the last.
-/
def listSpan : Nat := 2 ^ 32 * 4000000

theorem valid_of_lt_listSpan {p : Nat} (h : p < listSpan) : p < 2 ^ 63 := Nat.lt_trans h (by decide)

/-- `*f_pos` is a position that the list can cover. -/
def Call.InRange : Call → Prop
  | .mevRead fPos _ _ => fPos < listSpan
  | .mevWrite fPos _ _ _ => fPos < listSpan
  | _ => True

theorem Call.InRange.valid {c : Call} (h : c.InRange) : c.Valid := by
  cases c with
  | mevRead fPos _ _ => exact valid_of_lt_listSpan h
  | mevWrite fPos _ _ _ => exact valid_of_lt_listSpan h
  | _ => trivial

def step (env : Env) (m : Mem) : Call → Except Fault (Mem × Reply)
  | .mevOpen fFlags => do .ok (← mevOpen fFlags m, { retval := 0, fPos := 0, delivered := [] })
  | .mevRead fPos count uncopied => mevRead env fPos count uncopied m
  | .mevWrite fPos count buf copy => mevWrite env fPos count buf copy m
  | .mevTrim => do .ok (← mevTrim m, { retval := 0, fPos := 0, delivered := [] })

/-- A sequence of calls, one at a time. -/
def run (env : Env) (m : Mem) (cs : List Call) : Except Fault (Mem × List Reply) :=
  runE (step env) m cs

/-- The container as `mev_trim` leaves it, with its semaphore free. -/
def trimmed : Mem :=
  { heap := Heap.empty
    container :=
      { data := none, quantum := lkmMevQuantumSize, qset := lkmMevQsetSize, size := 0,
        sem := some 1 } }

end LkmSandbox.Mev
