import Mathlib.Algebra.Ring.Nat
import Mathlib.Data.List.Basic

/-!
# Numbers as text

A number written in decimal, most significant digit first, and the scanner that reads it back.

* `scan_decimal` — a number is read back, whatever follows it that is not a digit
* `append_decimal_inj` — a number at the end of a text is told from what is before it
* `decimal_length_le_iff` — how many bytes a number takes
-/

namespace Lib

/-- The byte of an ASCII character. -/
def asciiByte (c : Char) : UInt8 := UInt8.ofNat c.toNat

/-- `0` to `9` -/
def isDigit (c : UInt8) : Bool := 48 ≤ c.toNat && c.toNat ≤ 57

/-- A number in decimal. -/
def decimal (n : Nat) : List UInt8 := (Nat.toDigits 10 n).map asciiByte

/-- A number with its sign, which is not written where there is none. -/
def signed (n : Int) : List UInt8 :=
  if n < 0 then 45 :: decimal n.natAbs else decimal n.natAbs

/-- The number that digits stand for. -/
def digitsValue (ds : List UInt8) : Nat := ds.foldl (fun n c => 10 * n + (c.toNat - 48)) 0

/-- Read the digits that come first: the number they stand for and what follows them. -/
def scan (bytes : List UInt8) : Option (Nat × List UInt8) :=
  match bytes.takeWhile isDigit with
  | [] => none
  | d :: ds => some (digitsValue (d :: ds), bytes.dropWhile isDigit)

/-! ## Digits -/

theorem asciiByte_toNat {c : Char} (h : c.isDigit = true) : (asciiByte c).toNat = c.toNat := by
  have hle : c.toNat ≤ 57 := (Char.isDigit_iff_toNat.mp h).2
  unfold asciiByte
  rw [UInt8.toNat_ofNat', Nat.mod_eq_of_lt (by omega)]

theorem isDigit_asciiByte {c : Char} (h : c.isDigit = true) : isDigit (asciiByte c) = true := by
  have hrange : 48 ≤ c.toNat ∧ c.toNat ≤ 57 := Char.isDigit_iff_toNat.mp h
  unfold isDigit
  rw [asciiByte_toNat h, Bool.and_eq_true, decide_eq_true_eq, decide_eq_true_eq]
  exact hrange

theorem isDigit_of_mem_decimal {n : Nat} {c : UInt8} (h : c ∈ decimal n) : isDigit c = true := by
  obtain ⟨ch, hch, rfl⟩ := List.mem_map.mp h
  exact isDigit_asciiByte (Nat.isDigit_of_mem_toDigits (by decide) (by decide) hch)

theorem decimal_ne_nil (n : Nat) : decimal n ≠ [] := fun h =>
  Nat.toDigits_ne_nil (List.map_eq_nil_iff.mp h)

/-- **How long a number is.** -/
theorem decimal_length_le_iff {n k : Nat} (hk : 0 < k) : (decimal n).length ≤ k ↔ n < 10 ^ k := by
  unfold decimal
  rw [List.length_map]
  exact Nat.length_toDigits_le_iff (by decide) hk

theorem digitsValue_decimal (n : Nat) : digitsValue (decimal n) = n := by
  have hfold : ∀ (cs : List Char) (m : Nat), (∀ c ∈ cs, c.isDigit = true) →
      (cs.map asciiByte).foldl (fun n c => 10 * n + (c.toNat - 48)) m
        = Nat.ofDigitChars 10 cs m := by
    intro cs
    induction cs with
    | nil => exact fun m _ => Nat.ofDigitChars_nil.symm
    | cons c cs ih =>
      intro m hcs
      obtain ⟨hc, hcs⟩ := List.forall_mem_cons.mp hcs
      rw [List.map_cons, List.foldl_cons, ih _ hcs, Nat.ofDigitChars_cons, asciiByte_toNat hc]
      rfl
  unfold digitsValue decimal
  rw [hfold _ 0 fun c hc => Nat.isDigit_of_mem_toDigits (by decide) (by decide) hc,
    Nat.ofDigitChars_ten_toDigits]

theorem decimal_injective : Function.Injective decimal := fun m n h => by
  rw [← digitsValue_decimal m, h, digitsValue_decimal]

theorem signed_natCast (n : Nat) : signed n = decimal n := by
  unfold signed
  rw [if_neg (by omega), Int.natAbs_natCast]

/-! ## Reading back -/

/-- Digits end where something else follows. -/
theorem span_digits {ds rest : List UInt8} (hds : ∀ c ∈ ds, isDigit c = true)
    (hrest : ∀ c ∈ rest.head?, isDigit c = false) :
    (ds ++ rest).takeWhile isDigit = ds ∧ (ds ++ rest).dropWhile isDigit = rest := by
  rw [List.takeWhile_append_of_pos hds, List.dropWhile_append_of_pos hds]
  cases rest with
  | nil => exact ⟨List.append_nil ds, rfl⟩
  | cons c rest =>
    have hc : ¬ isDigit c = true := by
      rw [hrest c rfl]
      exact Bool.false_ne_true
    rw [List.takeWhile_cons_of_neg hc, List.dropWhile_cons_of_neg hc, List.append_nil]
    exact ⟨rfl, rfl⟩

/-- **A number is read back**, up to what follows it. -/
theorem scan_decimal (n : Nat) {rest : List UInt8} (hrest : ∀ c ∈ rest.head?, isDigit c = false) :
    scan (decimal n ++ rest) = some (n, rest) := by
  obtain ⟨htake, hdrop⟩ := span_digits (fun c hc => isDigit_of_mem_decimal hc) hrest
  unfold scan
  rw [htake, hdrop]
  rcases hd : decimal n with _ | ⟨d, ds⟩
  · exact absurd hd (decimal_ne_nil n)
  · dsimp only
    rw [← hd, digitsValue_decimal]

/-- The digits at the end of a text that has none before them. -/
theorem append_decimal_inj {a b : List UInt8} {m n : Nat}
    (ha : ∀ c ∈ a.getLast?, isDigit c = false) (hb : ∀ c ∈ b.getLast?, isDigit c = false)
    (h : a ++ decimal m = b ++ decimal n) : a = b ∧ m = n := by
  have hend : ∀ {a : List UInt8} (n : Nat), (∀ c ∈ a.getLast?, isDigit c = false) →
      (a ++ decimal n).reverse.takeWhile isDigit = (decimal n).reverse := by
    intro a n ha
    rw [List.reverse_append]
    refine (span_digits (fun c hc => isDigit_of_mem_decimal (List.mem_reverse.mp hc)) ?_).1
    rw [List.head?_reverse]
    exact ha
  have hdigits : decimal m = decimal n := by
    rw [← List.reverse_inj, ← hend m ha, h, hend n hb]
  rw [hdigits] at h
  exact ⟨List.append_cancel_right h, decimal_injective hdigits⟩

end Lib
