import Mathlib.Algebra.BigOperators.Group.Finset.Basic
import Mathlib.Data.Fintype.Basic

/-!
# Who holds what

Owners take things and give them back, of a total that was there before them. Things are counted in
any commutative monoid, such as multisets.

* `balanced_iff` — the total is what one owner holds and what there is besides it
* `Balanced.acquire`, `Balanced.release` — taking and giving back keeps the books
* `Balanced.settled` — when nobody holds anything, the total is what it was
-/

namespace Lib

variable {κ M : Type} [Fintype κ] [AddCommMonoid M]

/-- The total is what was there at first and what the owners hold. -/
def Balanced (base : M) (held : κ → M) (total : M) : Prop := total = base + ∑ k, held k

variable {base total : M} {held : κ → M}

/-- Nobody holds anything. -/
theorem Balanced.start (base : M) : Balanced base (fun _ : κ => 0) base := by
  unfold Balanced
  rw [Finset.sum_const_zero, add_zero]

theorem Balanced.settled (h : Balanced base held total) (hnone : ∀ k, held k = 0) :
    total = base := by
  unfold Balanced at h
  rw [h, Finset.sum_eq_zero fun k _ => hnone k, add_zero]

/-- What nobody will give back is counted to what was there. -/
theorem Balanced.lose (h : Balanced base held total) (x : M) :
    Balanced (x + base) held (x + total) := by
  unfold Balanced at h ⊢
  rw [h, add_assoc]

theorem Balanced.mem_of_base {α : Type} {base total : Multiset α} {held : κ → Multiset α} {x : α}
    (h : Balanced base held total) (hx : x ∈ base) : x ∈ total := by
  rw [h]
  exact Multiset.mem_add.mpr (.inl hx)

variable [DecidableEq κ]

/-- What there is besides the things of `k`. -/
def besides (base : M) (held : κ → M) (k : κ) : M := base + ∑ j ∈ Finset.univ.erase k, held j

theorem balanced_iff (k : κ) : Balanced base held total ↔ total = held k + besides base held k := by
  unfold Balanced besides
  rw [← Finset.add_sum_erase _ held (Finset.mem_univ k), add_left_comm]

theorem besides_update (held : κ → M) (k : κ) (x : M) :
    besides base (Function.update held k x) k = besides base held k := by
  unfold besides
  refine congrArg (base + ·) (Finset.sum_congr rfl ?_)
  intro j hj
  exact Function.update_of_ne (Finset.ne_of_mem_erase hj) _ _

theorem mem_besides {α : Type} {base : Multiset α} {held : κ → Multiset α} {k : κ} {x : α} :
    x ∈ besides base held k ↔ x ∈ base ∨ ∃ j, j ≠ k ∧ x ∈ held j := by
  unfold besides
  rw [Multiset.mem_add, Multiset.mem_sum]
  simp

theorem Balanced.acquire (h : Balanced base held total) {k : κ} (hk : held k = 0) (x : M) :
    Balanced base (Function.update held k x) (x + total) := by
  rw [balanced_iff k, Function.update_self, besides_update, (balanced_iff k).mp h, hk, zero_add]

theorem Balanced.release (base : M) (held : κ → M) (k : κ) :
    Balanced base (Function.update held k 0) (besides base held k) := by
  rw [balanced_iff k, Function.update_self, besides_update, zero_add]

end Lib
