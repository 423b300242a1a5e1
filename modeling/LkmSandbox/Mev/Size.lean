import LkmSandbox.Mev.Bytes
import LkmSandbox.Mev.Reach
import Mathlib.Order.Bounds.Basic

/-!
# The size and the end of the data

`container->size` is raised to `*f_pos` after every write that succeeds. That is the end of the data
where the write has stored a byte; a write of length zero has not.

* `Store.allocate_page_isSome_iff` — a write gets its page iff as many allocations succeed as there
  are blocks missing
* `size_is_end_iff` — the runs along which the size is the end of the data
-/

namespace LkmSandbox.Mev

open Lib

/-! ## The end of the data -/

/-- The offsets at which writes have stored a byte since the last trim, after one call more. -/
def storedBy (D : Set Nat) : Call × Reply → Set Nat
  | (.mevOpen fFlags, _) => if mevIoIsWronly fFlags then ∅ else D
  | (.mevTrim, _) => ∅
  | (.mevRead .., _) => D
  | (.mevWrite fPos .., r) => D ∪ {x | fPos ≤ x ∧ (x : Int) < fPos + r.retval}

/-- The same for the calls of a run, with what they have returned. -/
def storedAfter (history : List (Call × Reply)) : Set Nat := history.foldl storedBy ∅

/-- `size` is 0 when nothing is stored, else the largest offset stored and one. -/
def IsEnd (size : Nat) (D : Set Nat) : Prop :=
  (D = ∅ ∧ size = 0) ∨ ∃ x, IsGreatest D x ∧ size = x + 1

/-! ## Which memory a write needs -/

/-- The blocks that are missing on the way to the quantum of position `p`. -/
def missing (m : Mem) (p : Nat) : Nat :=
  (List.range (p / 4000000 + 1)).countP (fun i => (nodeAt m i).isNone) +
    (if (dataAt m (p / 4000000)).isNone then 1 else 0) +
    if (quantumAt m (p / 4000000) (p % 4000000 / 4000)).isNone then 1 else 0

/-- Every `kmalloc` that a write at position `p` needs succeeds. -/
def HasMemory (env : Env) (m : Mem) (p : Nat) : Prop :=
  Store.AllOk env m.heap.calls (m.heap.calls + missing m p)

/-- A write of length zero does not start past the size, or does not get its memory. -/
def Call.EndsAtData (env : Env) (m : Mem) : Call → Prop
  | .mevWrite fPos count .. => count = 0 → fPos ≤ m.container.size ∨ ¬ HasMemory env m fPos
  | _ => True

namespace IsEnd

variable {size : Nat} {D : Set Nat}

theorem empty : IsEnd 0 ∅ := Or.inl ⟨rfl, rfl⟩

theorem lt (h : IsEnd size D) {x : Nat} (hx : x ∈ D) : x < size := by
  rcases h with ⟨rfl, -⟩ | ⟨y, hy, rfl⟩
  · exact absurd hx (Set.notMem_empty x)
  · exact Nat.lt_succ_of_le (hy.2 hx)

theorem unique {size' : Nat} (h : IsEnd size D) (h' : IsEnd size' D) : size = size' := by
  rcases h with ⟨rfl, rfl⟩ | ⟨x, hx, rfl⟩
  · rcases h' with ⟨-, rfl⟩ | ⟨y, hy, -⟩
    · rfl
    · exact absurd hy.1 (Set.notMem_empty y)
  · rcases h' with ⟨rfl, -⟩ | ⟨y, hy, rfl⟩
    · exact absurd hx.1 (Set.notMem_empty x)
    · rw [hx.unique hy]

/-- A write that stores a byte, at its end. -/
theorem write (h : IsEnd size D) {p n : Nat} (hn : 0 < n) :
    IsEnd (max size (p + n)) (D ∪ {x | p ≤ x ∧ x < p + n}) := by
  have hlast : p + n - 1 ∈ D ∪ {x | p ≤ x ∧ x < p + n} := Or.inr ⟨by omega, by omega⟩
  rcases Nat.le_total size (p + n) with hle | hle
  · refine Or.inr ⟨p + n - 1, ⟨hlast, ?_⟩, by omega⟩
    rintro x (hx | hx)
    · have := h.lt hx
      omega
    · have := hx.2
      omega
  · rcases h with ⟨-, rfl⟩ | ⟨y, hy, rfl⟩
    · omega
    · refine Or.inr ⟨y, ⟨Or.inl hy.1, ?_⟩, by omega⟩
      rintro x (hx | hx)
      · exact hy.2 hx
      · have := hx.2
        omega

end IsEnd

namespace Store

variable {env : Env} {s : Store}

/-! ## How many allocations a write makes -/

/-- The blocks that are missing on the way to the page of position `p`. -/
def missing (s : Store) (p : Nat) : Nat :=
  (p / 4000000 + 1 - s.len) + (if s.data (p / 4000000) then 0 else 1) +
    if (s.page (p / 4000)).isSome then 0 else 1

theorem grow_calls_le (env : Env) (n : Nat) (s : Store) : (s.grow env n).calls ≤ s.calls + n := by
  induction n generalizing s with
  | zero => exact Nat.le_refl _
  | succ n ih =>
    rw [grow]
    split
    · have := ih s.addNode
      simp only [addNode] at this ⊢
      omega
    · simp only [countCall]
      omega

theorem ensureData_calls_le (env : Env) (i : Nat) (s : Store) :
    (s.ensureData env i).calls ≤ s.calls + if s.data i then 0 else 1 := by
  unfold ensureData
  split
  · exact Nat.le_refl _
  · split <;> exact Nat.le_refl _

theorem ensurePage_calls_le (env : Env) (k : Nat) (s : Store) :
    (s.ensurePage env k).calls ≤ s.calls + if (s.page k).isSome then 0 else 1 := by
  unfold ensurePage
  split
  · exact Nat.le_refl _
  · split <;> exact Nat.le_refl _

theorem allocate_calls_le (env : Env) (p : Nat) (s : Store) :
    (s.allocate env p).calls ≤ s.calls + s.missing p := by
  have hf := grow_calls_le env (p / 4000000 + 1 - s.len) s
  have hd := ensureData_calls_le env (p / 4000000) (s.follow env (p / 4000000))
  have hp := ensurePage_calls_le env (p / 4000)
    ((s.follow env (p / 4000000)).ensureData env (p / 4000000))
  rw [follow_data] at hd
  rw [ensureData_page, follow_page] at hp
  unfold missing allocate allocateAt
  simp only
  unfold follow at *
  split_ifs at * <;> omega

theorem grow_len_le_calls (env : Env) (n : Nat) (s : Store) :
    s.calls + (s.grow env n).len ≤ (s.grow env n).calls + s.len := by
  induction n generalizing s with
  | zero => exact Nat.le_refl _
  | succ n ih =>
    rw [grow]
    split
    · have := ih s.addNode
      simp only [addNode] at this ⊢
      omega
    · simp only [countCall]
      omega

theorem le_ensureData_calls (env : Env) {i : Nat} (s : Store)
    (h : (s.ensureData env i).data i = true) :
    (s.calls + if s.data i then 0 else 1) ≤ (s.ensureData env i).calls := by
  unfold ensureData at h ⊢
  split_ifs at h ⊢ with hd hok
  · exact Nat.le_refl _
  · exact Nat.le_refl _
  · exact absurd h hd

theorem le_ensurePage_calls (env : Env) {k : Nat} (s : Store)
    (h : ((s.ensurePage env k).page k).isSome) :
    (s.calls + if (s.page k).isSome then 0 else 1) ≤ (s.ensurePage env k).calls := by
  unfold ensurePage at h ⊢
  split_ifs at h ⊢ with hp hok
  · exact Nat.le_refl _
  · exact Nat.le_refl _
  · exact absurd h hp

/-- A write that gets its page has made as many calls as there were blocks missing. -/
theorem le_allocate_calls (h : s.Wf) (env : Env) (p : Nat)
    (hp : ((s.allocate env p).page (p / 4000)).isSome) :
    s.calls + s.missing p ≤ (s.allocate env p).calls := by
  have hlt := (h.allocate env p).page_lt hp
  have hdata := (h.allocate env p).page_data hp
  rw [show p / 4000 / 1000 = p / 4000000 by omega] at hlt hdata
  have hgrow := grow_len_le_calls env (p / 4000000 + 1 - s.len) s
  have hlen₀ := le_grow_len env s (p / 4000000 + 1 - s.len)
  unfold allocate allocateAt at *
  simp only at *
  split_ifs at * with hlen hd
  · have hcd := le_ensureData_calls env _ hd
    have hcp := le_ensurePage_calls env _ hp
    rw [follow_data] at hcd
    rw [ensureData_page, follow_page] at hcp
    unfold missing follow at *
    omega
  · exact absurd hdata hd
  · exact absurd hlt hlen

/-- **A write gets its page iff the calls that are due succeed.** -/
theorem allocate_page_isSome_iff (h : s.Wf) (env : Env) (p : Nat) :
    ((s.allocate env p).page (p / 4000)).isSome ↔
      AllOk env s.calls (s.calls + s.missing p) := by
  constructor
  · intro hp
    have hle := le_allocate_calls h env p hp
    have hok := (allocate_page_isSome env h p).mp hp
    exact fun i h₁ h₂ => hok i h₁ (Nat.lt_of_lt_of_le h₂ hle)
  · intro hok
    refine (allocate_page_isSome env h p).mpr fun i h₁ h₂ => hok i h₁ ?_
    exact Nat.lt_of_lt_of_le h₂ (allocate_calls_le env p s)

end Store

/-! ## One call -/

section Call

variable {env : Env} {s : Store} {place : Place → Option Addr} {m : Mem} {D : Set Nat}

/-- The blocks missing in the memory are those missing in the store. -/
theorem Rep.missing_eq (h : Rep s place m) (p : Nat) : missing m p = s.missing p := by
  have hcount : ∀ n, (List.range n).countP (fun i => (nodeAt m i).isNone) = n - s.len := by
    intro n
    induction n with
    | zero => rw [Nat.zero_sub, List.range_zero, List.countP_nil]
    | succ n ih =>
      have hnode := h.node_isSome n
      rw [List.range_succ, List.countP_append, ih, List.countP_singleton, h.nodeAt_eq]
      cases hn : place (.node n) with
      | none =>
        have := h.len_le hn
        simp only [Option.isNone_none, if_true]
        omega
      | some a =>
        have := h.node_lt hn
        simp only [Option.isNone_some, Bool.false_eq_true, if_false]
        omega
  have hdata := h.data_isSome (p / 4000000)
  have hpage := h.quantum_isSome (i := p / 4000000) (slot_lt p)
  rw [show Dims.std.slots * (p / 4000000) + p % 4000000 / 4000 = p / 4000 by
    rw [Dims.slots_std]; omega] at hpage
  unfold missing Store.missing
  rw [hcount, h.dataAt_eq, h.quantumAt_eq, ← hdata, ← hpage]
  cases place (.data (p / 4000000)) <;>
    cases place (.quantum (p / 4000000) (p % 4000000 / 4000)) <;> rfl

theorem Rep.hasMemory_iff (h : Rep s place m) (env : Env) (p : Nat) :
    HasMemory env m p ↔ ((s.allocate env p).page (p / 4000)).isSome := by
  unfold HasMemory
  rw [h.missing_eq, h.calls, Store.allocate_page_isSome_iff h.wf]

/-- A negative return value stands for no byte. -/
theorem union_interval_neg {p : Nat} {r : Int} (hr : r < 0) :
    D ∪ {x : Nat | p ≤ x ∧ (x : Int) < p + r} = D := by
  have hnone : {x : Nat | p ≤ x ∧ (x : Int) < p + r} = ∅ := by
    refine Set.eq_empty_of_forall_notMem ?_
    intro x hx
    have h₁ := hx.1
    have h₂ := hx.2
    omega
  rw [hnone, Set.union_empty]

theorem union_interval (p n : Nat) :
    D ∪ {x : Nat | p ≤ x ∧ (x : Int) < p + (n : Int)} = D ∪ {x | p ≤ x ∧ x < p + n} := by
  congr 1
  ext x
  show (p ≤ x ∧ (x : Int) < p + (n : Int)) ↔ p ≤ x ∧ x < p + n
  omega

/-- A write of no byte at position `p` leaves the size at the end iff `p` is not past it. -/
theorem IsEnd.max_iff {size p : Nat} (h : IsEnd size D) : IsEnd (max size p) D ↔ p ≤ size := by
  constructor
  · intro hmax
    have := hmax.unique h
    omega
  · intro hle
    rwa [Nat.max_eq_left hle]

/-- **A call keeps the size at the end of the data** iff it meets the condition. -/
theorem IsEnd.step_iff (env : Env) (h : Rep s place m) (hend : IsEnd s.size D) {c : Call}
    (hc : c.InRange) :
    IsEnd (s.step env c).1.size (storedBy D (c, (s.step env c).2)) ↔ c.EndsAtData env m := by
  cases c with
  | mevOpen fFlags =>
    refine iff_of_true ?_ trivial
    unfold Store.step storedBy
    simp only
    split
    · exact IsEnd.empty
    · exact hend
  | mevTrim => exact iff_of_true IsEnd.empty trivial
  | mevRead p count uncopied =>
    refine iff_of_true ?_ trivial
    show IsEnd (s.lookup env p).size D
    rw [Store.lookup_size]
    exact hend
  | mevWrite p count buf copy =>
    show IsEnd (s.write env p count buf copy).1.size
      (D ∪ {x | p ≤ x ∧ (x : Int) < p + (s.write env p count buf copy).2.retval}) ↔
      (count = 0 → p ≤ m.container.size ∨ ¬ HasMemory env m p)
    rw [h.hasMemory_iff, h.size]
    have hcases := s.write_cases env p count buf copy
    rw [addrOf_of_lt hc] at hcases
    rcases hcases with ⟨hp, hw⟩ | ⟨hp, hleft, hw⟩ | ⟨hp, -, hw⟩
    · rw [hw]
      refine iff_of_true ?_ fun _ => Or.inr hp
      rw [union_interval_neg (show -enomem < 0 by decide), Store.allocate_size]
      exact hend
    · rw [hw]
      refine iff_of_true ?_ fun h0 => absurd ?_ hleft
      · rw [union_interval_neg (show -efault < 0 by decide)]
        show IsEnd (s.allocate env p).size D
        rw [Store.allocate_size]
        exact hend
      · rw [h0, Store.chunk, Nat.zero_min, Nat.min_zero]
    · have hsize : (s.write env p count buf copy).1.size
          = max s.size (p + Store.chunk p count) := by
        rw [hw]
        show max (s.allocate env p).size _ = _
        rw [Store.allocate_size]
      rw [hsize, hw, union_interval]
      rcases Nat.eq_zero_or_pos count with rfl | hpos
      · have hempty : {x : Nat | p ≤ x ∧ x < p + Store.chunk p 0} = ∅ := by
          refine Set.eq_empty_of_forall_notMem ?_
          intro x hx
          rw [Store.chunk, Nat.zero_min] at hx
          exact absurd hx.2 (Nat.not_lt.mpr hx.1)
        rw [hempty, Set.union_empty, Store.chunk, Nat.zero_min, Nat.add_zero, hend.max_iff]
        exact ⟨fun hle _ => Or.inl hle, fun hle => (hle rfl).resolve_right (not_not.mpr hp)⟩
      · refine iff_of_true (hend.write ?_) fun h0 => absurd h0 (Nat.ne_of_gt hpos)
        unfold Store.chunk
        omega

end Call

/-! ## Runs -/

/--
**When the size is the end of the data all along a run.** Iff no write of length zero starts past
the size and gets its memory.
-/
theorem size_is_end_iff (env : Env) (cs : List Call) (hc : ∀ c ∈ cs, c.InRange) :
    (∀ pre, pre <+: cs → ∃ m rs, run env trimmed pre = .ok (m, rs) ∧
      IsEnd m.container.size (storedAfter (pre.zip rs))) ↔
    ∀ pre c, pre ++ [c] <+: cs → ∀ m rs, run env trimmed pre = .ok (m, rs) →
      c.EndsAtData env m := by
  refine forall_prefix_iff (Q := fun pre c => ∀ m rs, run env trimmed pre = .ok (m, rs) →
    c.EndsAtData env m) ⟨trimmed, [], rfl, IsEnd.empty⟩ ?_
  rintro pre c hpre ⟨m, rs, hrun, hend⟩
  have hmem : ∀ d ∈ pre ++ [c], d.InRange := fun d hd => hc d (hpre.subset hd)
  have hcr : c.InRange := hmem c (List.mem_append_right _ List.mem_cons_self)
  obtain ⟨m', he, place, h, hi⟩ := run_simulates env pre fun d hd =>
    (hmem d (List.mem_append_left _ hd)).valid
  obtain ⟨rfl, rfl⟩ := Prod.mk.inj (Except.ok.inj (hrun.symm.trans he))
  obtain ⟨m', place', hs, h', -⟩ := step_spec env h hi hcr.valid
  have hnext := runE_append_singleton hrun hs
  -- the replies are as many as the calls, so the history grows by the last call and its reply
  have hhist : ∀ r, storedAfter ((pre ++ [c]).zip ((Store.empty.run env pre).2 ++ [r]))
      = storedBy (storedAfter (pre.zip (Store.empty.run env pre).2)) (c, r) := by
    intro r
    unfold storedAfter
    rw [List.zip_append (runE_length hrun).symm, List.foldl_append]
    rfl
  rw [h.size] at hend
  have hiff := IsEnd.step_iff env h hend hcr
  constructor
  · rintro ⟨m₂, rs₂, hrun₂, hend₂⟩ m₁ rs₁ hrun₁
    obtain ⟨rfl, -⟩ := Prod.mk.inj (Except.ok.inj (hrun.symm.trans hrun₁))
    obtain ⟨rfl, rfl⟩ := Prod.mk.inj (Except.ok.inj (hnext.symm.trans hrun₂))
    rw [hhist, h'.size] at hend₂
    exact hiff.mp hend₂
  · intro hcond
    refine ⟨m', _, hnext, ?_⟩
    rw [hhist, h'.size]
    exact hiff.mpr (hcond m _ hrun)

theorem size_is_end_iff_writes :
    let env := Env.granting fun _ _ => 0
    let cs : List Call := [.mevWrite 3 2 (fun _ => 7) UserCopy.ok, .mevWrite 9 0 (fun _ => 7)
      UserCopy.ok]
    (∀ pre, pre <+: cs → ∃ m rs, run env trimmed pre = .ok (m, rs) ∧
      IsEnd m.container.size (storedAfter (pre.zip rs))) ↔
    ∀ pre c, pre ++ [c] <+: cs → ∀ m rs, run env trimmed pre = .ok (m, rs) →
      c.EndsAtData env m :=
  size_is_end_iff _ _ (by simp [Call.InRange, listSpan])

/-- A write of no byte at position 5 of the empty store makes its size 5. -/
theorem empty_write_raises_size :
    let env := Env.granting fun _ _ => 0
    ∃ m rs, run env trimmed [.mevWrite 5 0 (fun _ => 7) UserCopy.ok] = .ok (m, rs) ∧
      m.container.size = 5 ∧
      ¬ IsEnd m.container.size
        (storedAfter ([Call.mevWrite 5 0 (fun _ => 7) UserCopy.ok].zip rs)) := by
  intro env
  refine ⟨_, _, rfl, rfl, ?_⟩
  rintro (⟨-, hsize⟩ | ⟨x, hx, -⟩)
  · exact absurd hsize (by decide)
  · rcases hx.1 with hmem | ⟨h₁, h₂⟩
    · exact absurd hmem (Set.notMem_empty x)
    · have : (x : Int) < 5 + 0 := h₂
      omega

end LkmSandbox.Mev
