import LkmSandbox.Kernel
import LkmSandbox.Lib.Heap

/-!
# The container of `lkm_mev.c` and its memory

`struct mev_qset` is a list node with an array of slots, every slot a pointer to one quantum of
bytes. All three are blocks of a heap. Each access checks that the block is live and that the
range lies inside it; an access that is not faults. So "no fault" says: no pointer is used after
`kfree`, no block is freed twice and no index leaves its array.
-/

namespace LkmSandbox.Mev

open Lib

def lkmMevQsetSize : Int := 1000
def lkmMevQuantumSize : Int := 4000

/-- `struct mev_qset`. -/
structure MevQset where
  data : Option Addr
  next : Option Addr

/-- A block from `kmalloc`: a list node, an array of `len` slots, a quantum of `len` bytes. -/
inductive Block where
  | qset (q : MevQset)
  | slots (len : Nat) (slot : Nat → Option Addr)
  | quantum (len : Nat) (byte : Nat → UInt8)

/--
`struct mev_container` (less its `cdev`). The semaphore is `none` until `sema_init` has run.
-/
structure MevContainer where
  data : Option Addr
  quantum : Int
  qset : Int
  size : Nat
  sem : Option Nat

/-- The two sizes from which a container makes its blocks. -/
structure Dims where
  quantum : Int
  qset : Int

namespace Dims

/-- The bytes of a quantum. -/
def bytes (d : Dims) : Nat := d.quantum.toNat

/-- The slots of an array. -/
def slots (d : Dims) : Nat := d.qset.toNat

/-- The sizes that `mev_trim` stores. -/
def std : Dims := { quantum := lkmMevQuantumSize, qset := lkmMevQsetSize }

theorem bytes_std : std.bytes = 4000 := rfl

theorem slots_std : std.slots = 1000 := rfl

end Dims

/-- The container with the blocks behind it. -/
structure Mem where
  heap : Heap Block
  container : MevContainer

/-- What stops a call in the middle. -/
inductive Fault where
  | badPointer
  | outOfBounds
  | badFree
  | divideError
  | semaphoreUninit
  | endless
  deriving DecidableEq, Repr

namespace Mem

/-! ## Access to blocks -/

def loadQset (a : Addr) (m : Mem) : Except Fault MevQset :=
  match m.heap.blocks a with
  | some (.qset q) => .ok q
  | _ => .error .badPointer

/-- `data[i]` -/
def loadSlot (a : Addr) (i : Int) (m : Mem) : Except Fault (Option Addr) :=
  match m.heap.blocks a with
  | some (.slots len slot) =>
    if 0 ≤ i ∧ i < len then .ok (slot i.toNat) else .error .outOfBounds
  | _ => .error .badPointer

/-- `data[i] = p` -/
def storeSlot (a : Addr) (i : Int) (p : Option Addr) (m : Mem) : Except Fault Mem :=
  match m.heap.blocks a with
  | some (.slots len slot) =>
    if 0 ≤ i ∧ i < len then
      .ok { m with heap := m.heap.store a (.slots len (Function.update slot i.toNat p)) }
    else .error .outOfBounds
  | _ => .error .badPointer

theorem storeSlot_eq {m : Mem} {a : Addr} {len : Nat} {slot : Nat → Option Addr}
    (hb : m.heap.blocks a = some (.slots len slot)) {i : Nat} (hi : i < len) (p : Option Addr) :
    m.storeSlot a i p
      = .ok { m with heap := m.heap.store a (.slots len (Function.update slot i p)) } := by
  unfold storeSlot
  rw [hb]
  simp [hi]

/-- `n` bytes from offset `off` of a quantum. -/
def loadBytes (a : Addr) (off : Int) (n : Nat) (m : Mem) : Except Fault (List UInt8) :=
  match m.heap.blocks a with
  | some (.quantum len byte) =>
    if 0 ≤ off ∧ off + n ≤ len then .ok ((List.range n).map fun i => byte (off.toNat + i))
    else .error .outOfBounds
  | _ => .error .badPointer

/-- The bytes of a quantum after `src` was laid over `n` bytes from `off`. -/
def overlay (off n : Nat) (src : Nat → Option UInt8) (byte : Nat → UInt8) : Nat → UInt8 :=
  fun i => if off ≤ i ∧ i < off + n then (src (i - off)).getD (byte i) else byte i

def storeBytes (a : Addr) (off : Int) (n : Nat) (src : Nat → Option UInt8) (m : Mem) :
    Except Fault Mem :=
  match m.heap.blocks a with
  | some (.quantum len byte) =>
    if 0 ≤ off ∧ off + n ≤ len then
      .ok { m with heap := m.heap.store a (.quantum len (overlay off.toNat n src byte)) }
    else .error .outOfBounds
  | _ => .error .badPointer

/--
`kmalloc` of `size` bytes; `b` is what the block holds once the caller has prepared it. A negative
`int` becomes a `size_t` beyond every limit, so such a request fails.
-/
def kmalloc (env : Env) (size : Int) (b : Block) (m : Mem) : Mem × Option Addr :=
  let r := m.heap.alloc (decide (0 ≤ size) && env.kmallocOk m.heap.calls) b
  ({ m with heap := r.1 }, r.2)

theorem kmalloc_eq (env : Env) {size : Int} (hs : 0 ≤ size) (b : Block) (m : Mem) :
    m.kmalloc env size b
      = if env.kmallocOk m.heap.calls then
          ({ m with heap := (m.heap.alloc true b).1 }, some m.heap.calls)
        else ({ m with heap := (m.heap.alloc false b).1 }, none) := by
  unfold kmalloc
  rw [decide_eq_true hs, Bool.true_and]
  cases env.kmallocOk m.heap.calls with
  | false => rfl
  | true => rfl

/-- `kfree`; a null pointer is ignored. -/
def kfree (p : Option Addr) (m : Mem) : Except Fault Mem :=
  match p with
  | none => .ok m
  | some a =>
    if (m.heap.blocks a).isSome then .ok { m with heap := m.heap.free a } else .error .badFree

/-! ## The semaphore -/

/--
`down_interruptible`: `true` when the semaphore was taken. When it is not free the caller sleeps;
here it is then interrupted.
-/
def downInterruptible (m : Mem) : Except Fault (Mem × Bool) :=
  match m.container.sem with
  | none => .error .semaphoreUninit
  | some 0 => .ok (m, false)
  | some (n + 1) => .ok ({ m with container := { m.container with sem := some n } }, true)

def up (m : Mem) : Mem :=
  { m with container := { m.container with sem := m.container.sem.map (· + 1) } }

end Mem

end LkmSandbox.Mev
