import LkmSandbox.Mev.Store

/-!
# The memory represents a store

`RepOf δ s place m` says that the blocks of `m` are a store `s`: `place` gives the identity of each
node, array and quantum, `Store.content` what that block has to hold, and `Owns` that these are
all the live blocks, each in one place. The sizes `δ` are those of the container; `Rep` fixes them
to 4000 and 1000.

Each piece of the driver is shown to compute the matching operation of `Store` and to keep `Rep`;
none of them faults.
-/

namespace LkmSandbox.Mev

open Lib

/-- The places a block can have in a container: node `i`, its array, the quantum at its slot `j`. -/
inductive Place where
  | node (i : Nat)
  | data (i : Nat)
  | quantum (i j : Nat)
  deriving DecidableEq

/-- What the block at each place holds, its pointers given by `place`. -/
def Store.content (δ : Dims) (s : Store) (place : Place → Option Addr) : Place → Option Block
  | .node i =>
    if i < s.len then some (.qset { data := place (.data i), next := place (.node (i + 1)) })
    else none
  | .data i => if s.data i then some (.slots δ.slots fun j => place (.quantum i j)) else none
  | .quantum i j =>
    if j < δ.slots then (s.page (δ.slots * i + j)).map (.quantum δ.bytes) else none

structure RepOf (δ : Dims) (s : Store) (place : Place → Option Addr) (m : Mem) : Prop where
  wf : s.WfOf δ
  owns : Owns place (s.content δ place) m.heap
  head : m.container.data = place (.node 0)
  quantum : m.container.quantum = δ.quantum
  qset : m.container.qset = δ.qset
  size : m.container.size = s.size
  calls : m.heap.calls = s.calls

/-- The container has the sizes that `mev_trim` stores. -/
abbrev Rep (s : Store) (place : Place → Option Addr) (m : Mem) : Prop := RepOf .std s place m

/-! ## Pages and slots -/

theorem pageIndex_div {n i j : Nat} (hj : j < n) : (n * i + j) / n = i := by
  rw [Nat.mul_add_div (by omega), Nat.div_eq_of_lt hj, Nat.add_zero]

/-- Different slots hold different pages. -/
theorem pageIndex_inj {n i j k l : Nat} (hj : j < n) (hl : l < n) :
    n * k + l = n * i + j ↔ k = i ∧ l = j := by
  constructor
  · intro h
    have hki : k = i := by rw [← pageIndex_div (i := k) hl, h, pageIndex_div hj]
    subst hki
    exact ⟨rfl, Nat.add_left_cancel h⟩
  · rintro ⟨rfl, rfl⟩
    rfl

/-! ## Positions -/

theorem offsetOf_eq {p : Nat} (hp : p < 2 ^ 63) :
    offsetOf Dims.std.quantum Dims.std.qset p
      = .ok { item := int32 (p / 4000000 : Nat), sPos := (p % 4000000 / 4000 : Nat),
              qPos := (p % 4000 : Nat) } := by
  have hitem : int32 (Dims.std.quantum * Dims.std.qset) = 4000000 := by decide
  have h64 : int64 (p : Int) = p := int64_of_range (by omega) (by omega)
  have hdiv : (p : Int).tdiv 4000000 = (p / 4000000 : Nat) := (Int.ofNat_tdiv p 4000000).symm
  have hmod : (p : Int).tmod 4000000 = (p % 4000000 : Nat) := (Int.ofNat_tmod p 4000000).symm
  have hs : ((p % 4000000 : Nat) : Int).tdiv 4000 = (p % 4000000 / 4000 : Nat) :=
    (Int.ofNat_tdiv (p % 4000000) 4000).symm
  have hq : ((p % 4000000 : Nat) : Int).tmod 4000 = (p % 4000000 % 4000 : Nat) :=
    (Int.ofNat_tmod (p % 4000000) 4000).symm
  unfold offsetOf
  simp only [hitem, h64, hdiv, hmod]
  simp only [show Dims.std.quantum = 4000 from rfl]
  -- `rest` is below 4000000 and so keeps its value as an `int`
  rw [if_neg (by decide),
    int32_of_range (x := ((p % 4000000 : Nat) : Int)) (by omega) (by omega), hs, hq,
    int32_of_range (x := ((p % 4000000 / 4000 : Nat) : Int)) (by omega) (by omega)]
  rw [show p % 4000000 % 4000 = p % 4000 by omega]

/-- The loop of `mev_follow` runs to the node of `addrOf p`, also when `item` has wrapped. -/
theorem rounds_item (p : Nat) :
    rounds (int32 (p / 4000000 : Nat)) = addrOf p / 4000000 := by
  have hmod : (int32 (p / 4000000 : Nat)) % 2 ^ 32 = ((p / 4000000 % 2 ^ 32 : Nat) : Int) := by
    have hb := Int.bmod_emod (x := ((p / 4000000 : Nat) : Int)) (m := 2 ^ 32)
    unfold int32
    omega
  unfold rounds addrOf listSpan
  rw [hmod]
  omega

theorem clampCount_eq (p count : Nat) :
    clampCount Dims.std.quantum ((p % 4000 : Nat) : Int) count = Store.chunk p count := by
  have hsz : sizeT (Dims.std.quantum - ((p % 4000 : Nat) : Int)) = 4000 - p % 4000 := by
    rw [show Dims.std.quantum = 4000 from rfl, sizeT_of_range (by omega) (by omega)]
    omega
  unfold clampCount Store.chunk
  rw [hsz]
  split <;> omega

/-- The page at slot `s_pos` of node `item`. -/
theorem page_index (p : Nat) :
    Dims.std.slots * (addrOf p / 4000000) + p % 4000000 / 4000 = addrOf p / 4000 := by
  rw [Dims.slots_std]
  unfold addrOf listSpan
  omega

/-! ## Reading blocks -/

namespace RepOf

variable {δ : Dims} {s : Store} {place : Place → Option Addr} {m : Mem}

theorem node_isSome (h : RepOf δ s place m) (i : Nat) : (place (.node i)).isSome ↔ i < s.len := by
  rw [h.owns.isSome, Store.content]
  split <;> simp_all

theorem node_lt (h : RepOf δ s place m) {i : Nat} {a : Addr} (ha : place (.node i) = some a) :
    i < s.len := (h.node_isSome i).mp (by rw [ha]; rfl)

theorem node_none (h : RepOf δ s place m) {i : Nat} (hi : s.len ≤ i) : place (.node i) = none := by
  have hn := (h.node_isSome i).not.mpr (by omega)
  simpa using hn

theorem len_le (h : RepOf δ s place m) {i : Nat} (ha : place (.node i) = none) : s.len ≤ i := by
  by_contra hlt
  have hs := (h.node_isSome i).mpr (by omega)
  rw [ha] at hs
  simp at hs

theorem data_isSome (h : RepOf δ s place m) (i : Nat) :
    (place (.data i)).isSome = s.data i := by
  rw [h.owns.isSome, Store.content]
  split <;> simp_all

theorem data_none (h : RepOf δ s place m) {i : Nat} (hi : s.len ≤ i) : place (.data i) = none := by
  have hs := h.data_isSome i
  cases hd : s.data i with
  | false => rw [hd] at hs; simpa using hs
  | true => have := h.wf.data_lt i hd; omega

theorem data_of_some (h : RepOf δ s place m) {i : Nat} {d : Addr} (hd : place (.data i) = some d) :
    s.data i = true := by
  rw [← h.data_isSome, hd]
  rfl

theorem quantum_isSome (h : RepOf δ s place m) {i j : Nat} (hj : j < δ.slots) :
    (place (.quantum i j)).isSome = (s.page (δ.slots * i + j)).isSome := by
  rw [h.owns.isSome, Store.content, if_pos hj, Option.isSome_map]

theorem quantum_lt (h : RepOf δ s place m) {i j : Nat} {a : Addr}
    (ha : place (.quantum i j) = some a) : j < δ.slots := by
  have hs := h.owns.isSome (.quantum i j)
  rw [ha, Store.content] at hs
  by_contra hj
  rw [if_neg hj] at hs
  simp at hs

theorem loadQset (h : RepOf δ s place m) {i : Nat} {a : Addr} (ha : place (.node i) = some a) :
    m.loadQset a = .ok { data := place (.data i), next := place (.node (i + 1)) } := by
  have hb := h.owns.holds ha
  rw [Store.content, if_pos (h.node_lt ha)] at hb
  simp [Mem.loadQset, hb]

theorem slots (h : RepOf δ s place m) {i : Nat} {d : Addr} (hd : place (.data i) = some d) :
    m.heap.blocks d = some (.slots δ.slots fun j => place (.quantum i j)) := by
  rw [h.owns.holds hd, Store.content, if_pos (h.data_of_some hd)]

theorem loadSlot (h : RepOf δ s place m) {i j : Nat} {d : Addr} (hd : place (.data i) = some d)
    (hj : j < δ.slots) : m.loadSlot d (j : Nat) = .ok (place (.quantum i j)) := by
  simp [Mem.loadSlot, h.slots hd, hj]

theorem page (h : RepOf δ s place m) {i j : Nat} {q : Addr} (hq : place (.quantum i j) = some q) :
    ∃ b, s.page (δ.slots * i + j) = some b ∧ m.heap.blocks q = some (.quantum δ.bytes b) := by
  have hj := h.quantum_lt hq
  have hs := h.quantum_isSome (i := i) hj
  rw [hq] at hs
  obtain ⟨b, hb⟩ := Option.isSome_iff_exists.mp hs.symm
  refine ⟨b, hb, ?_⟩
  rw [h.owns.holds hq, Store.content, if_pos hj, hb]
  rfl

theorem data_of_quantum (h : RepOf δ s place m) {i j : Nat} {q : Addr}
    (hq : place (.quantum i j) = some q) : ∃ d, place (.data i) = some d := by
  obtain ⟨b, hb, -⟩ := h.page hq
  have hj := h.quantum_lt hq
  have hd := h.wf.page_data (δ.slots * i + j) (by rw [hb]; rfl)
  rw [pageIndex_div hj, ← h.data_isSome] at hd
  exact Option.isSome_iff_exists.mp hd

/-- Without an array there is no quantum. -/
theorem quantum_none (h : RepOf δ s place m) {i : Nat} (hd : place (.data i) = none) (j : Nat) :
    place (.quantum i j) = none := by
  cases hq : place (.quantum i j) with
  | none => rfl
  | some q =>
    obtain ⟨d, hd'⟩ := h.data_of_quantum hq
    rw [hd] at hd'
    simp at hd'

/-- Only the heap, the list head and the three numbers count; the semaphore does not. -/
theorem setSem (h : RepOf δ s place m) (sem : Option Nat) :
    RepOf δ s place { m with container := { m.container with sem := sem } } :=
  ⟨h.wf, h.owns, h.head, h.quantum, h.qset, h.size, h.calls⟩

theorem up (h : RepOf δ s place m) : RepOf δ s place m.up := h.setSem _

/-! ## Allocation -/

/-- What a `kmalloc` of a non-negative size does to the heap. -/
theorem kmalloc_eq (h : RepOf δ s place m) (env : Env) {size : Int} (hs : 0 ≤ size) (b : Block) :
    m.kmalloc env size b
      = if env.kmallocOk s.calls then
          ({ m with heap := (m.heap.alloc true b).1 }, some s.calls)
        else ({ m with heap := (m.heap.alloc false b).1 }, none) := by
  rw [Mem.kmalloc_eq env hs b m, h.calls]

theorem countCall (h : RepOf δ s place m) (b : Block) :
    RepOf δ s.countCall place { m with heap := (m.heap.alloc false b).1 } where
  wf := h.wf.countCall
  owns := h.owns.allocFail b
  head := h.head
  quantum := h.quantum
  qset := h.qset
  size := h.size
  calls := by simp [Heap.alloc_false, Store.countCall, h.calls]

end RepOf

end LkmSandbox.Mev
