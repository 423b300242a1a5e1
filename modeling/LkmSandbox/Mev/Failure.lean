import LkmSandbox.Mev.Bytes
import LkmSandbox.Mev.Reach

/-!
# What a write that fails leaves behind

A write can run out of memory at its nodes, at the array and at the quantum, and its user copy can
fail. What it has built by then stays attached. Nodes, arrays and the size are nothing that a read
shows; a quantum is, and so are bytes that the copy has overwritten.

* `Store.read_congr` — a read depends on the size and on one page
* `failed_write_visible` — what reads can tell after a write that has failed
-/

namespace LkmSandbox.Mev

open Lib

/-! ## Reads after a write -/

/-- Whatever `kmalloc` does, a read at position `q` replies `r`. -/
def Replies (m : Mem) (q count uncopied : Nat) (r : Reply) : Prop :=
  ∀ env, ∃ m', mevRead env q count uncopied m = .ok (m', r)

/-- Both positions lie in the same quantum. -/
def SameQuantum (p q : Nat) : Prop := addrOf p / 4000 = addrOf q / 4000

/-- The quantum of position `p` is allocated. -/
def HasQuantum (m : Mem) (p : Nat) : Prop :=
  (quantumAt m (addrOf p / 4000000) (p % 4000000 / 4000)).isSome

/--
The bytes delivered from position `q` on after `clobber` has been laid over the `n` bytes from `p`.
-/
def clobbered (p n : Nat) (clobber : Nat → Option UInt8) (q : Nat) (bytes : List UInt8) :
    List UInt8 :=
  bytes.mapIdx fun i b =>
    if addrOf p ≤ addrOf q + i ∧ addrOf q + i < addrOf p + n then
      (clobber (addrOf q + i - addrOf p)).getD b
    else b

/-- What reads from position `q` on can tell after a write at `p` that has failed. -/
structure Leaves (m m' : Mem) (p n : Nat) (clobber : Nat → Option UInt8) (failure : Int)
    (q count uncopied : Nat) (r r' : Reply) : Prop where
  before : Replies m q count uncopied r
  after : Replies m' q count uncopied r'
  /-- nothing, when it was for want of memory -/
  enomem : failure = -enomem → r' = r
  /-- nothing, at the end of the data or in another quantum -/
  elsewhere : count = 0 ∨ m.container.size ≤ q ∨ ¬ SameQuantum p q → r' = r
  /-- what the copy has overwritten, in a quantum that was there -/
  overwritten : failure = -efault → SameQuantum p q → HasQuantum m p →
    r'.retval = r.retval ∧ r'.fPos = r.fPos ∧
      r'.delivered = clobbered p n clobber q r.delivered

namespace Store

variable {env : Env} {s s' : Store}

/-! ## On the store -/

theorem read_congr {q : Nat} (hsize : s'.size = s.size)
    (hpage : s'.page (addrOf q / 4000) = s.page (addrOf q / 4000)) (count uncopied : Nat) :
    s'.read q count uncopied = s.read q count uncopied := by
  unfold read readCount
  rw [hsize, hpage]

theorem read_zero (s : Store) (q uncopied : Nat) :
    s.read q 0 uncopied = { retval := 0, fPos := q, delivered := [] } := by
  unfold read
  split_ifs with hsize
  · rfl
  · cases s.page (addrOf q / 4000) with
    | none => rfl
    | some b =>
      have hn : chunk q (s.readCount q 0) = 0 := by
        unfold chunk readCount
        rw [Nat.add_zero]
        split_ifs with hlt
        · exact absurd (Nat.lt_of_lt_of_le hlt (Nat.mod_le q _)) (by omega)
        · exact Nat.zero_min _
      simp [hn, readReply, bytes]

theorem read_of_le {q : Nat} (hsize : s.size ≤ q) (count uncopied : Nat) :
    s.read q count uncopied = { retval := 0, fPos := q, delivered := [] } := if_pos hsize

/-- Reading bytes that were laid over a page. -/
theorem bytes_overlay (b : Nat → UInt8) {p q : Nat} (hpq : addrOf p / 4000 = addrOf q / 4000)
    (n k j : Nat) (clobber : Nat → Option UInt8) :
    (bytes (Mem.overlay (p % 4000) n clobber b) (q % 4000) k).take j
      = clobbered p n clobber q ((bytes b (q % 4000) k).take j) := by
  have hp := addrOf_mod p
  have hq := addrOf_mod q
  unfold bytes clobbered Mem.overlay
  refine List.ext_getElem (by simp) ?_
  intro i h₁ h₂
  have hiff : (p % 4000 ≤ q % 4000 + i ∧ q % 4000 + i < p % 4000 + n) ↔
      addrOf p ≤ addrOf q + i ∧ addrOf q + i < addrOf p + n := by omega
  have hsub : q % 4000 + i - p % 4000 = addrOf q + i - addrOf p := by omega
  simp only [List.getElem_take, List.getElem_map, List.getElem_range, List.getElem_mapIdx, hiff,
    hsub]

/-- A read of the page that was written, when the page was there. -/
theorem read_overlay {p q : Nat} {b : Nat → UInt8} (hpq : addrOf p / 4000 = addrOf q / 4000)
    (hsize : s'.size = s.size) (hb : s.page (addrOf q / 4000) = some b) {n : Nat}
    {clobber : Nat → Option UInt8}
    (hb' : s'.page (addrOf q / 4000) = some (Mem.overlay (p % 4000) n clobber b))
    (count uncopied : Nat) :
    (s'.read q count uncopied).retval = (s.read q count uncopied).retval ∧
      (s'.read q count uncopied).fPos = (s.read q count uncopied).fPos ∧
      (s'.read q count uncopied).delivered
        = clobbered p n clobber q (s.read q count uncopied).delivered := by
  have hcount : s'.readCount q count = s.readCount q count := by
    unfold readCount
    rw [hsize]
  unfold read
  rw [hsize, hb, hb', hcount]
  by_cases hend : s.size ≤ q
  · rw [if_pos hend, if_pos hend]
    exact ⟨rfl, rfl, rfl⟩
  · rw [if_neg hend, if_neg hend]
    simp only
    rw [bytes_overlay b hpq]
    unfold readReply
    split_ifs
    · exact ⟨rfl, rfl, rfl⟩
    · exact ⟨rfl, rfl, rfl⟩

end Store

/-! ## On the driver -/

section Driver

variable {s s' : Store} {place : Place → Option Addr} {m m' : Mem}

theorem Rep.replies (h : Rep s place m) (hi : Idle m) {q : Nat} (hq : q < 2 ^ 63)
    (count uncopied : Nat) : Replies m q count uncopied (s.read q count uncopied) := by
  intro env
  obtain ⟨m', place', he, -, -⟩ := mevRead_spec env h hi hq count uncopied
  exact ⟨m', he⟩

theorem Rep.hasQuantum_iff (h : Rep s place m) (p : Nat) :
    HasQuantum m p ↔ (s.page (addrOf p / 4000)).isSome := by
  unfold HasQuantum
  rw [h.quantumAt_eq, h.quantum_isSome (slot_lt p), page_index]

/-- A write that gets no page shows nowhere. -/
theorem Rep.leaves_enomem {place' : Place → Option Addr} (h : Rep s place m) (hi : Idle m)
    (h' : Rep s' place' m') (hi' : Idle m') (hsize : s'.size = s.size) (hpage : s'.page = s.page)
    {q : Nat} (hq : q < 2 ^ 63) (p n : Nat) (clobber : Nat → Option UInt8) (count uncopied : Nat) :
    Leaves m m' p n clobber (-enomem) q count uncopied (s.read q count uncopied)
      (s'.read q count uncopied) := by
  have heq : s'.read q count uncopied = s.read q count uncopied :=
    Store.read_congr hsize (by rw [hpage]) count uncopied
  refine ⟨h.replies hi hq _ _, h'.replies hi' hq _ _, fun _ => heq, fun _ => heq, ?_⟩
  intro hf
  exact absurd hf (by decide)

/-- A write whose user copy fails shows in its own quantum only. -/
theorem Rep.leaves_efault {place' : Place → Option Addr} (env : Env) (h : Rep s place m)
    (hi : Idle m) (p n : Nat) (clobber : Nat → Option UInt8)
    (h' : Rep ((s.allocate env (addrOf p)).overlay (addrOf p / 4000) (p % 4000) n clobber) place'
      m') (hi' : Idle m') {q : Nat} (hq : q < 2 ^ 63) (count uncopied : Nat) :
    Leaves m m' p n clobber (-efault) q count uncopied (s.read q count uncopied)
      (((s.allocate env (addrOf p)).overlay (addrOf p / 4000) (p % 4000) n clobber).read q count
        uncopied) := by
  have hsize : ((s.allocate env (addrOf p)).overlay (addrOf p / 4000) (p % 4000) n clobber).size
      = s.size := Store.allocate_size env s (addrOf p)
  refine ⟨h.replies hi hq _ _, h'.replies hi' hq _ _, fun hf => absurd hf (by decide), ?_, ?_⟩
  · rintro (rfl | hle | hne)
    · rw [Store.read_zero, Store.read_zero]
    · rw [h.size] at hle
      rw [Store.read_of_le hle, Store.read_of_le (by rw [hsize]; exact hle)]
    · refine Store.read_congr hsize ?_ count uncopied
      have hk : addrOf q / 4000 ≠ addrOf p / 4000 := Ne.symm hne
      show Function.update _ _ _ _ = _
      rw [Function.update_of_ne hk, Store.allocate_page_of_ne env s hk]
  · intro _ hpq hhas
    rw [h.hasQuantum_iff] at hhas
    obtain ⟨b, hb⟩ := Option.isSome_iff_exists.mp hhas
    refine Store.read_overlay hpq hsize (hpq ▸ hb) ?_ count uncopied
    rw [← show addrOf p / 4000 = addrOf q / 4000 from hpq]
    show Function.update _ _ _ _ = _
    rw [Function.update_self, Store.allocate_page_of_some env s hb]
    rfl

end Driver

/--
**What a write that fails leaves behind.** After every sequence of calls: `*f_pos` and the size are
as they were, and so is every read where the write failed for want of memory. Where the user copy
has failed, a read tells the difference in the quantum of the write only; and when that quantum was
there before, only by the bytes that the copy has overwritten.
-/
theorem failed_write_visible (env : Env) (cs : List Call) (hc : ∀ c ∈ cs, c.Valid) (p count : Nat)
    (hp : p < 2 ^ 63) (buf : Nat → UInt8) (copy : UserCopy) :
    ∃ m rs m' w, run env trimmed cs = .ok (m, rs) ∧
      mevWrite env p count buf copy m = .ok (m', w) ∧
      (w.retval < 0 → (w.retval = -enomem ∨ w.retval = -efault) ∧ w.fPos = p ∧
        m'.container.size = m.container.size ∧
        ∀ q < 2 ^ 63, ∀ count' uncopied, ∃ r r',
          Leaves m m' p (min count (4000 - p % 4000)) copy.clobber w.retval q count' uncopied
            r r') := by
  obtain ⟨m, he, place, h, hi⟩ := run_simulates env cs hc
  obtain ⟨m', place', hw, h', hi'⟩ := mevWrite_spec env h hi hp count buf copy
  refine ⟨m, _, m', _, he, hw, ?_⟩
  intro hneg
  rcases Store.write_cases env p count buf copy (Store.empty.run env cs).1 with
    ⟨hnone, heq⟩ | ⟨-, -, heq⟩ | ⟨-, -, heq⟩
  · rw [heq] at h' ⊢
    have hsize := Store.allocate_size env (Store.empty.run env cs).1 (addrOf p)
    refine ⟨Or.inl rfl, rfl, by rw [h'.size, h.size, hsize], ?_⟩
    intro q hq count' uncopied
    exact ⟨_, _, h.leaves_enomem hi h' hi' hsize (Store.allocate_page_of_none hnone) hq ..⟩
  · rw [heq] at h' ⊢
    refine ⟨Or.inr rfl, rfl, ?_, ?_⟩
    · rw [h'.size, h.size]
      exact Store.allocate_size env _ _
    · intro q hq count' uncopied
      exact ⟨_, _, h.leaves_efault env hi p _ copy.clobber h' hi' hq ..⟩
  · rw [heq] at hneg
    exact absurd hneg (by simp)

theorem failed_write_visible_far :
    let env : Env := { kmallocOk := fun n => n != 4, junk := fun _ _ => 0 }
    let cs : List Call := [.mevWrite 0 3 (fun _ => 7) UserCopy.ok]
    ∃ m rs m' w, run env trimmed cs = .ok (m, rs) ∧
      mevWrite env 4000000 9 (fun _ => 8) UserCopy.ok m = .ok (m', w) ∧
      (w.retval < 0 → (w.retval = -enomem ∨ w.retval = -efault) ∧ w.fPos = 4000000 ∧
        m'.container.size = m.container.size ∧
        ∀ q < 2 ^ 63, ∀ count' uncopied, ∃ r r',
          Leaves m m' 4000000 (min 9 (4000 - 4000000 % 4000)) UserCopy.ok.clobber w.retval q count'
            uncopied r r') :=
  failed_write_visible _ _ (by simp [Call.Valid]) 4000000 9 (by decide) _ _

/-- A copy that ends after its first byte. -/
def UserCopy.broken : UserCopy where
  uncopied := 1
  clobber := fun i => if i = 0 then some 9 else none

/--
Two bytes are written, and a second write to them fails behind its first byte, which a read shows.
One byte is written to the second quantum, and a write to the first fails, which a read no longer
takes for a hole.
-/
theorem broken_write_shows :
    let env := Env.granting fun _ _ => 0
    let broken : Call := .mevWrite 0 2 (fun _ => 9) UserCopy.broken
    let read : Call := .mevRead 0 2 0
    let reply (n : Nat) (bytes : List UInt8) : Reply :=
      { retval := n, fPos := n, delivered := bytes }
    let failed : Reply := { retval := -efault, fPos := 0, delivered := [] }
    (∃ m m₁ m₂ m₃ rs, run env trimmed [.mevWrite 0 2 (fun _ => 7) UserCopy.ok] = .ok (m, rs) ∧
      step env m read = .ok (m₁, reply 2 [7, 7]) ∧ step env m broken = .ok (m₂, failed) ∧
      step env m₂ read = .ok (m₃, reply 2 [9, 7])) ∧
    ∃ m m₁ m₂ m₃ rs, run env trimmed [.mevWrite 4000 2 (fun _ => 7) UserCopy.ok] = .ok (m, rs) ∧
      step env m read = .ok (m₁, reply 0 []) ∧ step env m broken = .ok (m₂, failed) ∧
      step env m₂ read = .ok (m₃, reply 2 [9, 0]) :=
  ⟨⟨_, _, _, _, _, rfl, rfl, rfl, rfl⟩, _, _, _, _, _, rfl, rfl, rfl, rfl⟩

end LkmSandbox.Mev
