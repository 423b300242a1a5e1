import LkmSandbox.Mev.Calls

/-!
# What is reachable from `container->data`

`reach` follows the pointers of the memory itself: `next` from node to node, `data` to the array,
a slot to its quantum. For a memory that represents a store these are the places of the
representation, so that the shape of the container and the ledger of live blocks can be read off.

* `container_sound` — the shape of the container in every reached memory
* `store_leaks_nothing` — live means reachable, along one path, and `mev_trim` frees it all
-/

namespace LkmSandbox.Mev

open Lib

variable {δ : Dims} {s : Store} {place : Place → Option Addr} {m : Mem}

/-! ## Following the pointers -/

/-- The `i`-th node of the list. -/
def nodeAt (m : Mem) : Nat → Option Addr
  | 0 => m.container.data
  | i + 1 =>
    (nodeAt m i).bind fun a =>
      match m.heap.blocks a with
      | some (.qset q) => q.next
      | _ => none

/-- The array of the `i`-th node. -/
def dataAt (m : Mem) (i : Nat) : Option Addr :=
  (nodeAt m i).bind fun a =>
    match m.heap.blocks a with
    | some (.qset q) => q.data
    | _ => none

/-- The quantum at slot `j` of the `i`-th node. -/
def quantumAt (m : Mem) (i j : Nat) : Option Addr :=
  (dataAt m i).bind fun d =>
    match m.heap.blocks d with
    | some (.slots len slot) => if j < len then slot j else none
    | _ => none

def reach (m : Mem) : Place → Option Addr
  | .node i => nodeAt m i
  | .data i => dataAt m i
  | .quantum i j => quantumAt m i j

theorem RepOf.blocks_node (h : RepOf δ s place m) {i : Nat} {a : Addr}
    (ha : place (.node i) = some a) :
    m.heap.blocks a
      = some (.qset { data := place (.data i), next := place (.node (i + 1)) }) := by
  rw [h.owns.holds ha, Store.content, if_pos (h.node_lt ha)]

theorem RepOf.nodeAt_eq (h : RepOf δ s place m) : ∀ i, nodeAt m i = place (.node i)
  | 0 => h.head
  | i + 1 => by
    rw [nodeAt, h.nodeAt_eq i]
    cases ha : place (.node i) with
    | some a => simp [h.blocks_node ha]
    | none =>
      rw [h.node_none (Nat.le_succ_of_le (h.len_le ha))]
      rfl

theorem RepOf.dataAt_eq (h : RepOf δ s place m) (i : Nat) : dataAt m i = place (.data i) := by
  rw [dataAt, h.nodeAt_eq]
  cases ha : place (.node i) with
  | some a => simp [h.blocks_node ha]
  | none =>
    rw [h.data_none (h.len_le ha)]
    rfl

theorem RepOf.quantumAt_eq (h : RepOf δ s place m) (i j : Nat) :
    quantumAt m i j = place (.quantum i j) := by
  rw [quantumAt, h.dataAt_eq]
  cases hd : place (.data i) with
  | some d =>
    simp only [Option.bind_some, h.slots hd]
    split
    · rfl
    · next hj =>
      cases hq : place (.quantum i j) with
      | none => rfl
      | some q => exact absurd (h.quantum_lt hq) hj
  | none =>
    rw [h.quantum_none hd j]
    rfl

/-- **The represented places are those the pointers lead to.** -/
theorem RepOf.reach_eq (h : RepOf δ s place m) : reach m = place := by
  funext p
  cases p with
  | node i => exact h.nodeAt_eq i
  | data i => exact h.dataAt_eq i
  | quantum i j => exact h.quantumAt_eq i j

/-! ## The shape of the container -/

/-- The list from `container->data` has `len` nodes and then ends in a null pointer. -/
def ListLength (m : Mem) (len : Nat) : Prop :=
  (∀ i < len, (nodeAt m i).isSome) ∧ nodeAt m len = none

/-- The representation invariant of `struct mev_container`. -/
structure Sound (m : Mem) : Prop where
  quantum : m.container.quantum = 4000
  qset : m.container.qset = 1000
  /-- the list is finite, and the size lies within it -/
  list : ∃ len, ListLength m len ∧
    (m.container.size : Int) ≤ len * m.container.quantum * m.container.qset
  acyclic : ∀ i j a, nodeAt m i = some a → nodeAt m j = some a → i = j
  node : ∀ i a, nodeAt m i = some a → ∃ q, m.heap.blocks a = some (.qset q)
  data : ∀ i d, dataAt m i = some d → ∃ slot, m.heap.blocks d = some (.slots 1000 slot)
  block : ∀ i j q, quantumAt m i j = some q → ∃ b, m.heap.blocks q = some (.quantum 4000 b)
  /-- no block hangs on two places -/
  single : ∀ p q a, reach m p = some a → reach m q = some a → p = q

theorem RepOf.listLength (h : RepOf δ s place m) : ListLength m s.len := by
  refine ⟨?_, ?_⟩
  · intro i hi
    rw [h.nodeAt_eq]
    exact (h.node_isSome i).mpr hi
  · rw [h.nodeAt_eq]
    exact h.node_none (Nat.le_refl _)

theorem Rep.single (h : Rep s place m) {p q : Place} {a : Addr} (hp : reach m p = some a)
    (hq : reach m q = some a) : p = q := by
  rw [h.reach_eq] at hp hq
  exact h.owns.inj hp hq

theorem Rep.sound (h : Rep s place m) (hs : s.Sized) : Sound m where
  quantum := h.quantum
  qset := h.qset
  list := by
    refine ⟨s.len, h.listLength, ?_⟩
    unfold Store.Sized at hs
    rw [h.size, h.quantum, h.qset, show Dims.std.quantum = 4000 from rfl,
      show Dims.std.qset = 1000 from rfl]
    omega
  acyclic := by
    intro i j a hi hj
    rw [h.nodeAt_eq] at hi hj
    exact Place.node.inj (h.owns.inj hi hj)
  node := by
    intro i a ha
    rw [h.nodeAt_eq] at ha
    exact ⟨_, h.blocks_node ha⟩
  data := by
    intro i d hd
    rw [h.dataAt_eq] at hd
    exact ⟨_, h.slots hd⟩
  block := by
    intro i j q hq
    rw [h.quantumAt_eq] at hq
    obtain ⟨b, -, hb⟩ := h.page hq
    exact ⟨b, hb⟩
  single := fun p q a hp hq => h.single hp hq

/--
`dptr->data[s_pos]` lies inside its array, and `n` bytes from `q_pos` lie inside the quantum it
points to.
-/
def RangeInside (m : Mem) (dptr : Addr) (sPos qPos : Int) (n : Nat) : Prop :=
  ∃ node data len slot q size b,
    m.heap.blocks dptr = some (.qset node) ∧ node.data = some data ∧
    m.heap.blocks data = some (.slots len slot) ∧ 0 ≤ sPos ∧ sPos < len ∧
    slot sPos.toNat = some q ∧ m.heap.blocks q = some (.quantum size b) ∧
    0 ≤ qPos ∧ qPos + n ≤ size

theorem Rep.rangeInside (h : Rep s place m) {p count : Nat} {dptr : Addr} {sPos qPos : Int}
    {n : Nat} (hl : AtPage place p (Store.chunk p count) (.copy dptr sPos qPos n)) :
    RangeInside m dptr sPos qPos n := by
  obtain ⟨a, q, he, ha, hq⟩ := hl
  cases he
  obtain ⟨d, hd⟩ := h.data_of_quantum hq
  obtain ⟨b, -, hb⟩ := h.page hq
  have hslot := slot_lt p
  have hrange : p % 4000 + Store.chunk p count ≤ Dims.std.bytes := by
    rw [Dims.bytes_std]
    unfold Store.chunk
    omega
  refine ⟨_, d, _, _, q, _, b, h.blocks_node ha, hd, h.slots hd, by omega, by omega, ?_, hb,
    by omega, by omega⟩
  rw [Int.toNat_natCast]
  exact hq

/--
**The representation invariant holds after every sequence of calls, and every transfer of a
further call stays inside one slot array and one quantum.**
-/
theorem container_sound (env : Env) (cs : List Call) (hc : ∀ c ∈ cs, c.InRange) :
    ∃ m rs, run env trimmed cs = .ok (m, rs) ∧ Sound m ∧
      ∀ m₁, m.downInterruptible = .ok (m₁, true) →
      ∀ p count, p < 2 ^ 63 → ∀ m₂ dptr sPos qPos n,
        (readLocate env m.container.quantum m.container.qset p count m₁
            = .ok (m₂, .copy dptr sPos qPos n) ∨
          writeLocate env m.container.quantum m.container.qset p count m₁
            = .ok (m₂, .copy dptr sPos qPos n)) →
        RangeInside m₂ dptr sPos qPos n := by
  obtain ⟨m, he, place, h, hi⟩ := run_simulates env cs fun c hm => (hc c hm).valid
  refine ⟨m, _, he, h.sound (run_sized env cs hc), ?_⟩
  intro m₁ hd p count hp m₂ dptr sPos qPos n hl
  rw [h.quantum, h.qset] at hl
  rw [downInterruptible_of_idle hi] at hd
  cases hd
  have h := h.setSem (some 0)
  rcases hl with hl | hl
  · obtain ⟨m₁, place₁, located, hr, h₁, -, ha⟩ := readLocate_spec env h hp count
    rw [hl] at hr
    cases hr
    split at ha
    · simp at ha
    · exact h₁.rangeInside ha
  · obtain ⟨m₁, place₁, located, hw, h₁, -, -, ha⟩ := writeLocate_spec env h hp count
    rw [hl] at hw
    cases hw
    split at ha
    · exact h₁.rangeInside ha
    · simp at ha

theorem container_sound_partial :
    let env : Env := { kmallocOk := fun n => n != 3, junk := fun _ _ => 0 }
    let cs : List Call := [.mevWrite 4000000 3 (fun _ => 7) UserCopy.ok, .mevRead 0 3 0]
    ∃ m rs, run env trimmed cs = .ok (m, rs) ∧ Sound m ∧
      ∀ m₁, m.downInterruptible = .ok (m₁, true) →
      ∀ p count, p < 2 ^ 63 → ∀ m₂ dptr sPos qPos n,
        (readLocate env m.container.quantum m.container.qset p count m₁
            = .ok (m₂, .copy dptr sPos qPos n) ∨
          writeLocate env m.container.quantum m.container.qset p count m₁
            = .ok (m₂, .copy dptr sPos qPos n)) →
        RangeInside m₂ dptr sPos qPos n :=
  container_sound _ _ (by simp [Call.InRange, listSpan])

/-! ## The ledger -/

/--
**Nothing is leaked and nothing is freed twice.** After every sequence of calls the live blocks
are those reachable from `container->data`, each along one path; and `mev_trim` ends without
touching a freed block, frees each of them once and nothing else.
-/
theorem store_leaks_nothing (env : Env) (cs : List Call) (hc : ∀ c ∈ cs, c.Valid) :
    ∃ m rs, run env trimmed cs = .ok (m, rs) ∧
      (∀ a, m.heap.blocks a ≠ none ↔ ∃ p, reach m p = some a) ∧
      (∀ p q a, reach m p = some a → reach m q = some a → p = q) ∧
      ∃ m' ids, mevTrim m = .ok m' ∧ m'.heap.freed = ids ++ m.heap.freed ∧ ids.Nodup ∧
        (∀ a, a ∈ ids ↔ m.heap.blocks a ≠ none) ∧ (∀ a, m'.heap.blocks a = none) ∧
        m'.container.size = 0 ∧ m'.container.data = none := by
  obtain ⟨m, he, place, h, -⟩ := run_simulates env cs hc
  obtain ⟨m', ids, ht, -, hno, hf, hcont⟩ := mevTrim_spec h
  refine ⟨m, _, he, ?_, fun p q a => h.single, m', ids, ht, hf.freed, hf.nodup,
    hf.mem_iff_live hno, hno, by rw [hcont]; rfl, by rw [hcont]; rfl⟩
  intro a
  rw [h.reach_eq]
  exact h.owns.live_iff a

theorem store_leaks_nothing_partial :
    let env : Env := { kmallocOk := fun n => n != 3, junk := fun _ _ => 0 }
    let cs : List Call := [.mevWrite 4000000 3 (fun _ => 7) UserCopy.ok, .mevOpen 0]
    ∃ m rs, run env trimmed cs = .ok (m, rs) ∧
      (∀ a, m.heap.blocks a ≠ none ↔ ∃ p, reach m p = some a) ∧
      (∀ p q a, reach m p = some a → reach m q = some a → p = q) ∧
      ∃ m' ids, mevTrim m = .ok m' ∧ m'.heap.freed = ids ++ m.heap.freed ∧ ids.Nodup ∧
        (∀ a, a ∈ ids ↔ m.heap.blocks a ≠ none) ∧ (∀ a, m'.heap.blocks a = none) ∧
        m'.container.size = 0 ∧ m'.container.data = none :=
  store_leaks_nothing _ _ (by simp [Call.Valid])

end LkmSandbox.Mev
