import Mathlib.Algebra.Ring.Int.Defs
import Mathlib.Algebra.Ring.Nat

/-!
# What the modules use of the kernel

C integer conversions, error numbers, and the outcomes of the calls whose code is not here:
`kmalloc` and the two user copies. Their outcomes are data handed to the model from outside, so
every statement quantifies over all of them.
-/

namespace LkmSandbox

/-! ## Integer conversions -/

/-- Conversion to `int` (32 bits, wrapping). -/
def int32 (x : Int) : Int := x.bmod (2 ^ 32)

/-- Conversion to `long` (64 bits, wrapping). -/
def int64 (x : Int) : Int := x.bmod (2 ^ 64)

/-- Conversion of a signed value to `size_t` or `unsigned long`. -/
def sizeT (x : Int) : Nat := (x % 2 ^ 64).toNat

theorem int32_of_range {x : Int} (h0 : 0 ≤ x) (h1 : x < 2 ^ 31) : int32 x = x := by
  unfold int32
  exact Int.bmod_eq_of_le (by omega) (by omega)

theorem int64_of_range {x : Int} (h0 : 0 ≤ x) (h1 : x < 2 ^ 63) : int64 x = x := by
  unfold int64
  exact Int.bmod_eq_of_le (by omega) (by omega)

theorem sizeT_of_range {x : Int} (h0 : 0 ≤ x) (h1 : x < 2 ^ 63) : sizeT x = x.toNat := by
  unfold sizeT
  rw [Int.emod_eq_of_lt h0 (by omega)]

/-! ## Error numbers -/

def eio : Int := 5
def enomem : Int := 12
def efault : Int := 14
def ebusy : Int := 16
def enodev : Int := 19
def einval : Int := 22
def erestartsys : Int := 512

/-! ## Strings -/

/-- The bytes of a string literal (ASCII), less the NUL that ends it. -/
def cString (s : String) : List UInt8 := s.toList.map fun c => c.toNat.toUInt8

/-- `strncpy`: the `n` bytes it leaves at its destination, `src` being a string without its NUL. -/
def strncpy (src : List UInt8) (n : Nat) : List UInt8 :=
  src.take n ++ List.replicate (n - src.length) 0

/-! ## Outcomes of kernel calls -/

/--
What `kmalloc` does at its `n`-th call: whether it returns a block, and the bytes that a block
taken from it holds before anything is stored (`kmalloc` does not zero memory).
-/
structure Env where
  kmallocOk : Nat → Bool
  junk : Nat → Nat → UInt8

/-- Memory never runs out; fresh blocks hold `junk`. -/
def Env.granting (junk : Nat → Nat → UInt8) : Env := { kmallocOk := fun _ => true, junk }

/--
One call of `copy_from_user`. `uncopied` is the number of bytes it reports as not copied (at most
the length asked for); when that is not zero, `clobber` is what it has left in the destination:
byte `i` overwritten with a value, or untouched.
-/
structure UserCopy where
  uncopied : Nat
  clobber : Nat → Option UInt8

/-- A user copy that succeeds. -/
def UserCopy.ok : UserCopy := { uncopied := 0, clobber := fun _ => none }

end LkmSandbox
