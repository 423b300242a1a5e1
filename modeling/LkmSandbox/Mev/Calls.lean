import LkmSandbox.Mev.Trim

/-!
# Whole calls and runs of calls

`step_spec` puts the pieces of `LkmSandbox/Mev/Refine.lean` and `LkmSandbox/Mev/Trim.lean`
together: a call at a non-negative position does not fault, replies what the store replies, and
leaves a memory that represents the store afterwards. `run_simulates` is the same for a sequence
of calls, from the container as `mev_trim` leaves it.
-/

namespace LkmSandbox.Mev

open Lib

variable {s : Store} {place : Place → Option Addr} {m : Mem}

/-- The semaphore is free. -/
def Idle (m : Mem) : Prop := m.container.sem = some 1

/-! ## The semaphore around a call -/

theorem downInterruptible_of_idle (hi : Idle m) :
    m.downInterruptible
      = .ok ({ m with container := { m.container with sem := some 0 } }, true) := by
  unfold Mem.downInterruptible
  rw [hi]

theorem idle_up {m : Mem} (h : m.container.sem = some 0) : Idle m.up := by
  unfold Idle Mem.up
  simp [h]

/-- `mev_trim` does not touch the semaphore. -/
theorem idle_reset {m' : Mem} (hi : Idle m) (h : m'.container = m.container.reset) : Idle m' := by
  unfold Idle
  rw [h]
  exact hi

/-! ## Read and write -/

/-- **`mev_read` replies what the store holds.** -/
theorem mevRead_spec (env : Env) (h : Rep s place m) (hi : Idle m) {p : Nat} (hp : p < 2 ^ 63)
    (count uncopied : Nat) :
    ∃ m' place', mevRead env p count uncopied m = .ok (m', s.read p count uncopied) ∧
      Rep (s.lookup env p) place' m' ∧ Idle m' := by
  have hd := h.setSem (some 0)
  obtain ⟨m₁, place₁, located, he, h₁, hs₁, hl⟩ := readLocate_spec env hd hp count
  unfold mevRead
  rw [downInterruptible_of_idle hi, h.quantum, h.qset]
  simp only [ok_bind, if_true, he]
  have hidle : Idle m₁.up := idle_up hs₁
  unfold Store.read
  by_cases hsz : s.size ≤ p
  · rw [if_pos (Or.inl hsz)] at hl
    rw [if_pos hsz, hl]
    exact ⟨_, place₁, rfl, h₁.up, hidle⟩
  · rw [if_neg hsz]
    cases hpg : s.page (addrOf p / 4000) with
    | none =>
      rw [if_pos (Or.inr hpg)] at hl
      rw [hl]
      exact ⟨_, place₁, rfl, h₁.up, hidle⟩
    | some b =>
      rw [if_neg (by simp [hsz, hpg])] at hl
      obtain ⟨a, q, rfl, ha, hq⟩ := hl
      have hn : p % 4000 + Store.chunk p (s.readCount p count) ≤ 4000 := by
        unfold Store.chunk
        omega
      have hb : (s.lookup env p).page (Dims.std.slots * (addrOf p / 4000000) + p % 4000000 / 4000)
          = some b := by
        rw [page_index, Store.lookup_page, hpg]
      simp only [readCopy_spec h₁ ha hq hb hn uncopied, ok_bind]
      exact ⟨_, place₁, rfl, h₁.up, hidle⟩

theorem mevWrite_spec (env : Env) (h : Rep s place m) (hi : Idle m) {p : Nat} (hp : p < 2 ^ 63)
    (count : Nat) (buf : Nat → UInt8) (copy : UserCopy) :
    ∃ m' place',
      mevWrite env p count buf copy m = .ok (m', (s.write env p count buf copy).2) ∧
      Rep (s.write env p count buf copy).1 place' m' ∧ Idle m' := by
  have hd := h.setSem (some 0)
  obtain ⟨m₁, place₁, located, he, h₁, -, hs₁, hl⟩ := writeLocate_spec env hd hp count
  unfold mevWrite
  rw [downInterruptible_of_idle hi, h.quantum, h.qset]
  simp only [ok_bind, if_true, he]
  unfold Store.write
  simp only
  by_cases hpg : ((s.allocate env (addrOf p)).page (addrOf p / 4000)).isSome
  · rw [if_pos hpg] at hl
    rw [if_pos hpg]
    obtain ⟨a, q, rfl, ha, hq⟩ := hl
    have hn : p % 4000 + Store.chunk p count ≤ 4000 := by
      unfold Store.chunk
      omega
    obtain ⟨m₂, hc, h₂, hs₂⟩ := writeCopy_spec h₁ ha hq hn buf copy
    rw [page_index] at h₂
    simp only [hc, ok_bind]
    by_cases hleft : min copy.uncopied (Store.chunk p count) = 0
    · rw [if_neg (not_not.mpr hleft), if_neg (not_not.mpr hleft)]
      rw [if_pos hleft] at h₂
      obtain ⟨h₃, hs₃⟩ := writeUpdate_spec h₂ (p + Store.chunk p count)
      exact ⟨_, place₁, rfl, h₃.up, idle_up (hs₃.trans (hs₂.trans hs₁))⟩
    -- a copy that fails leaves what it has copied, and the size as it was
    · rw [if_pos hleft, if_pos hleft]
      rw [if_neg hleft] at h₂
      exact ⟨_, place₁, rfl, h₂.up, idle_up (hs₂.trans hs₁)⟩
  · rw [if_neg hpg] at hl
    rw [if_neg hpg, hl]
    exact ⟨_, place₁, rfl, h₁.up, idle_up hs₁⟩

/-! ## One call -/

/-- **Each call refines the call of the store.** -/
theorem step_spec (env : Env) (h : Rep s place m) (hi : Idle m) {c : Call} (hc : c.Valid) :
    ∃ m' place', step env m c = .ok (m', (s.step env c).2) ∧
      Rep (s.step env c).1 place' m' ∧ Idle m' := by
  cases c with
  | mevOpen fFlags =>
    by_cases hw : mevIoIsWronly fFlags
    · obtain ⟨m', ids, he, hr, -, -, hcont⟩ := mevTrim_spec h
      simp only [step, Store.step, mevOpen, if_pos hw, he, ok_bind]
      exact ⟨m', _, rfl, hr, idle_reset hi hcont⟩
    · simp only [step, Store.step, mevOpen, if_neg hw, ok_bind]
      exact ⟨m, place, rfl, h, hi⟩
  | mevRead fPos count uncopied => exact mevRead_spec env h hi hc count uncopied
  | mevWrite fPos count buf copy => exact mevWrite_spec env h hi hc count buf copy
  | mevTrim =>
    obtain ⟨m', ids, he, hr, -, -, hcont⟩ := mevTrim_spec h
    simp only [step, Store.step, he, ok_bind]
    exact ⟨m', _, rfl, hr, idle_reset hi hcont⟩

/-! ## Runs -/

theorem rep_trimmed : Rep Store.empty (fun _ => none) trimmed where
  wf := Store.WfOf.empty _
  owns := by
    refine (Owns.nothing fun _ => rfl).congr rfl ?_
    funext p
    cases p <;> simp [Store.content, Store.empty]
  head := rfl
  quantum := rfl
  qset := rfl
  size := rfl
  calls := rfl

theorem idle_trimmed : Idle trimmed := rfl

/-- The memory represents the store and its semaphore is free. -/
def Represents (m : Mem) (s : Store) : Prop := ∃ place, Rep s place m ∧ Idle m

theorem represents_trimmed : Represents trimmed Store.empty := ⟨_, rep_trimmed, idle_trimmed⟩

theorem step_simulates (env : Env) {c : Call} (h : Represents m s) (hc : c.Valid) :
    ∃ m', step env m c = .ok (m', (s.step env c).2) ∧ Represents m' (s.step env c).1 := by
  obtain ⟨place, hr, hi⟩ := h
  obtain ⟨m', place', he, hr', hi'⟩ := step_spec env hr hi hc
  exact ⟨m', he, place', hr', hi'⟩

/-- **A run of calls replies what the store replies and ends in a memory that represents it.** -/
theorem run_simulates (env : Env) (cs : List Call) (hc : ∀ c ∈ cs, c.Valid) :
    ∃ m, run env trimmed cs = .ok (m, (Store.empty.run env cs).2) ∧
      Represents m (Store.empty.run env cs).1 :=
  runE_simulates (P := Call.Valid) (step_simulates env) cs hc represents_trimmed

/-- As long as the positions are in range, the list also covers the size. -/
theorem run_sized (env : Env) (cs : List Call) (hc : ∀ c ∈ cs, c.InRange) :
    (Store.empty.run env cs).1.Sized :=
  (run_invariant (P := Call.InRange) (I := fun s : Store => s.Wf ∧ s.Sized)
    (fun h hc => ⟨h.1.step env _, h.2.step h.1 env hc⟩) cs hc
    ⟨Store.WfOf.empty _, Nat.zero_le _⟩).2

end LkmSandbox.Mev
