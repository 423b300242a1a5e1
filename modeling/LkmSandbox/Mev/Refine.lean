import LkmSandbox.Mev.Rep

/-!
# The driver computes the operations of the store

One specification for each piece of `lkm_mev.c`: from a memory that represents `s` it does not
fault, and the memory afterwards represents the store that the matching operation gives.

* `followLoop_spec` / `mevFollow_spec` — `Store.follow`
* `ensureData_spec` / `ensureQuantum_spec` — the two allocations of a write
* `writeCopy_spec` / `writeUpdate_spec` / `readCopy_spec` — the user copies
* `readLocate_spec` / `writeLocate_spec` — everything before the copy
-/

namespace LkmSandbox.Mev

open Lib

variable {δ : Dims} {s : Store} {place : Place → Option Addr} {m : Mem}

@[simp] theorem ok_bind {α β ε : Type} (a : α) (f : α → Except ε β) :
    (Except.ok a >>= f) = f a := rfl

theorem bind_ok {α β ε : Type} {x : Except ε α} {f : α → Except ε β} {b : β}
    (h : (x >>= f) = .ok b) : ∃ a, x = .ok a ∧ f a = .ok b := by
  cases x with
  | error e => cases h
  | ok a => exact ⟨a, rfl, h⟩

/-- `place'` has everything where `place` has it. -/
def Extends (place place' : Place → Option Addr) : Prop :=
  ∀ p a, place p = some a → place' p = some a

theorem Extends.refl (place : Place → Option Addr) : Extends place place := fun _ _ h => h

theorem Extends.trans {p₁ p₂ p₃ : Place → Option Addr} (h₁ : Extends p₁ p₂) (h₂ : Extends p₂ p₃) :
    Extends p₁ p₃ := fun p a h => h₂ p a (h₁ p a h)

theorem Extends.update {p : Place} (hp : place p = none) (a : Addr) :
    Extends place (Function.update place p (some a)) := by
  intro q b hq
  by_cases hqp : q = p
  · rw [hqp, hp] at hq
    simp at hq
  · rw [Function.update_of_ne hqp]
    exact hq

/-! ## `mev_follow` -/

/-- The first node of an empty list. -/
theorem RepOf.addFirst (h : RepOf δ s place m) (h0 : s.len = 0) :
    RepOf δ s.addNode (Function.update place (.node 0) (some s.calls))
      { heap := (m.heap.alloc true zeroQset).1
        container := { m.container with data := some s.calls } } where
  wf := h.wf.addNode
  owns := by
    have hnone : place (.node 0) = none := h.node_none (by omega)
    refine (h.owns.alloc hnone zeroQset).congr (by rw [h.calls]) ?_
    funext p
    cases p with
    | node i =>
      by_cases hi : i = 0
      · subst hi
        simp [Store.content, Store.addNode, zeroQset, h0, h.data_none (show s.len ≤ 0 by omega),
          h.node_none (show s.len ≤ 1 by omega)]
      · simp [Store.content, Store.addNode, h0, hi]
    | data i => simp [Store.content, Store.addNode]
    | quantum i j => simp [Store.content, Store.addNode]
  head := by simp
  quantum := h.quantum
  qset := h.qset
  size := h.size
  calls := by simp [Heap.alloc_true, Store.addNode, h.calls]

/-- A node appended behind node `i`, the last one. -/
theorem RepOf.addNext (h : RepOf δ s place m) {i : Nat} {a : Addr} (ha : place (.node i) = some a)
    (hi : i + 1 = s.len) :
    RepOf δ s.addNode (Function.update place (.node (i + 1)) (some s.calls))
      { m with heap := (m.heap.alloc true zeroQset).1.store a
                (.qset { data := place (.data i), next := some s.calls }) } where
  wf := h.wf.addNode
  owns := by
    have hnone : place (.node (i + 1)) = none := h.node_none (by omega)
    have hal := h.owns.alloc hnone zeroQset
    have ha' : Function.update place (.node (i + 1)) (some m.heap.calls) (.node i) = some a := by
      simpa using ha
    refine (hal.store ha' _).congr (by rw [h.calls]) ?_
    funext p
    cases p with
    | node k =>
      by_cases hk : k = i
      · subst hk
        simp [Store.content, Store.addNode, show k < s.len + 1 by omega]
      · by_cases hk' : k = i + 1
        · subst hk'
          simp [Store.content, Store.addNode, zeroQset, show i + 1 < s.len + 1 by omega,
            h.data_none (show s.len ≤ i + 1 by omega),
            h.node_none (show s.len ≤ i + 1 + 1 by omega)]
        · simp only [Store.content, Store.addNode,
            Function.update_of_ne (show Place.node k ≠ .node i by simpa using hk),
            Function.update_of_ne (show Place.node k ≠ .node (i + 1) by simpa using hk'),
            Function.update_of_ne (show Place.data k ≠ .node (i + 1) by simp),
            Function.update_of_ne (show Place.node (k + 1) ≠ .node (i + 1) by simpa using hk)]
          by_cases hlt : k < s.len
          · rw [if_pos hlt, if_pos (by omega)]
          · rw [if_neg hlt, if_neg (by omega)]
    | data k => simp [Store.content, Store.addNode]
    | quantum k j => simp [Store.content, Store.addNode]
  head := by
    have : s.len ≠ 0 := by omega
    simpa using h.head
  quantum := h.quantum
  qset := h.qset
  size := h.size
  calls := by simp [Heap.alloc_true, Store.addNode, h.calls]

/--
From node `i` the loop ends at node `i + k`, having appended the nodes that were missing; when one
of them could not be allocated there is no node `i + k` and the result is null.
-/
theorem followLoop_spec (env : Env) : ∀ (k i : Nat) {s : Store} {place : Place → Option Addr}
    {m : Mem} {a : Addr}, RepOf δ s place m → place (.node i) = some a →
    ∃ m' place', followLoop env k a m = .ok (m', place' (.node (i + k))) ∧
      RepOf δ (s.grow env (i + k + 1 - s.len)) place' m' ∧ Extends place place' ∧
      m'.container.sem = m.container.sem := by
  intro k
  induction k with
  | zero =>
    intro i s place m a h ha
    have hlt := h.node_lt ha
    refine ⟨m, place, by rw [followLoop, Nat.add_zero, ha], ?_, Extends.refl place, rfl⟩
    rw [show i + 0 + 1 - s.len = 0 by omega]
    exact h
  | succ k ih =>
    intro i s place m a h ha
    have hlt := h.node_lt ha
    rw [followLoop, h.loadQset ha, ok_bind]
    simp only
    cases hn : place (.node (i + 1)) with
    | some next =>
      obtain ⟨m', place', he, hr, hx, hsem⟩ := ih (i + 1) h hn
      rw [show i + (k + 1) = i + 1 + k by omega]
      exact ⟨m', place', he, hr, hx, hsem⟩
    | none =>
      -- node `i` is the last one, so a node is appended and the loop goes on from there
      have hlen : i + 1 = s.len := Nat.le_antisymm hlt (h.len_le hn)
      rw [h.kmalloc_eq env (by decide)]
      rw [show i + (k + 1) + 1 - s.len = k + 1 by omega, Store.grow]
      cases hk : env.kmallocOk s.calls with
      | false =>
        refine ⟨_, place, ?_, h.countCall zeroQset, Extends.refl place, rfl⟩
        rw [h.node_none (show s.len ≤ i + (k + 1) by omega)]
        rfl
      | true =>
        have hr := h.addNext ha hlen
        have hx := Extends.update hn s.calls
        obtain ⟨m', place', he, hr', hx', hsem⟩ := ih (i + 1) (a := s.calls) hr (by simp)
        refine ⟨m', place', ?_, ?_, hx.trans hx', hsem⟩
        · rw [show i + (k + 1) = i + 1 + k by omega]
          exact he
        · rw [show i + 1 + k + 1 - s.addNode.len = k by simp only [Store.addNode]; omega] at hr'
          exact hr'

theorem mevFollow_spec (env : Env) (h : RepOf δ s place m) {item : Int} {n : Nat}
    (hn : rounds item = n) :
    ∃ m' place', mevFollow env item m = .ok (m', place' (.node n)) ∧
      RepOf δ (s.follow env n) place' m' ∧ Extends place place' ∧
      m'.container.sem = m.container.sem := by
  unfold mevFollow
  rw [hn, h.head]
  cases h0 : place (.node 0) with
  | some a =>
    obtain ⟨m', place', he, hr, hx, hsem⟩ := followLoop_spec env n 0 h h0
    rw [Nat.zero_add] at he hr
    exact ⟨m', place', he, hr, hx, hsem⟩
  | none =>
    have hlen : s.len = 0 := Nat.le_zero.mp (h.len_le h0)
    simp only
    rw [h.kmalloc_eq env (by decide), Store.follow, hlen, Nat.sub_zero, Store.grow]
    cases hk : env.kmallocOk s.calls with
    | false =>
      refine ⟨_, place, ?_, h.countCall zeroQset, Extends.refl place, rfl⟩
      rw [h.node_none (show s.len ≤ n by omega)]
      rfl
    | true =>
      have hr := h.addFirst hlen
      have hx := Extends.update h0 s.calls
      obtain ⟨m', place', he, hr', hx', hsem⟩ := followLoop_spec env n 0 (a := s.calls) hr (by simp)
      rw [Nat.zero_add] at he hr'
      refine ⟨m', place', he, ?_, hx.trans hx', hsem⟩
      rw [show n + 1 - s.addNode.len = n by simp only [Store.addNode]; omega] at hr'
      exact hr'

/-! ## The two allocations of a write -/

/-- The zeroed array of a node. -/
def zeroSlots (δ : Dims) : Block := .slots δ.slots fun _ => none

theorem RepOf.addData (h : RepOf δ s place m) {i : Nat} {a : Addr} (ha : place (.node i) = some a)
    (hd : place (.data i) = none) :
    RepOf δ (s.addData i) (Function.update place (.data i) (some s.calls))
      { m with heap := (m.heap.alloc true (zeroSlots δ)).1.store a
                (.qset { data := some s.calls, next := place (.node (i + 1)) }) } where
  wf := h.wf.addData (h.node_lt ha)
  owns := by
    have hal := h.owns.alloc hd (zeroSlots δ)
    have ha' : Function.update place (.data i) (some m.heap.calls) (.node i) = some a := by
      simpa using ha
    refine (hal.store ha' _).congr (by rw [h.calls]) ?_
    funext p
    cases p with
    | node k =>
      by_cases hk : k = i
      · subst hk
        simp [Store.content, Store.addData, h.node_lt ha]
      · simp [Store.content, Store.addData, hk]
    | data k =>
      by_cases hk : k = i
      · subst hk
        simp [Store.content, Store.addData, zeroSlots, h.quantum_none hd]
      · simp [Store.content, Store.addData, hk]
    | quantum k j => simp [Store.content, Store.addData]
  head := by simpa using h.head
  quantum := h.quantum
  qset := h.qset
  size := h.size
  calls := by simp [Heap.alloc_true, Store.addData, h.calls]

theorem ensureData_spec (env : Env) (h : RepOf δ s place m) (hδ : 0 ≤ δ.qset) {i : Nat} {a : Addr}
    (ha : place (.node i) = some a) :
    ∃ m' place', ensureData env δ.qset a m = .ok (m', place' (.data i)) ∧
      RepOf δ (s.ensureData env i) place' m' ∧ Extends place place' ∧
      m'.container.sem = m.container.sem := by
  unfold ensureData Store.ensureData
  rw [h.loadQset ha, ok_bind]
  cases hd : place (.data i) with
  | some d =>
    rw [if_pos (h.data_of_some hd)]
    exact ⟨m, place, by rw [hd], h, Extends.refl place, rfl⟩
  | none =>
    have hs : s.data i = false := by
      rw [← h.data_isSome, hd]
      rfl
    rw [if_neg (by simp [hs])]
    simp only
    rw [h.kmalloc_eq env (by unfold sizeofPointer; omega)]
    cases hk : env.kmallocOk s.calls with
    | false => exact ⟨_, place, by rw [hd]; rfl, h.countCall (zeroSlots δ), Extends.refl place, rfl⟩
    | true => exact ⟨_, _, by simp; rfl, h.addData ha hd, Extends.update hd _, rfl⟩

theorem RepOf.addPage (h : RepOf δ s place m) {i j : Nat} {d : Addr} (hd : place (.data i) = some d)
    (hj : j < δ.slots) (hq : place (.quantum i j) = none) (b : Nat → UInt8) :
    RepOf δ (s.addPage (δ.slots * i + j) b) (Function.update place (.quantum i j) (some s.calls))
      { m with heap := (m.heap.alloc true (.quantum δ.bytes b)).1.store d
                (.slots δ.slots
                  (Function.update (fun j => place (.quantum i j)) j (some s.calls))) }
    where
  wf := by
    refine h.wf.addPage ?_ b
    rw [pageIndex_div hj]
    exact h.data_of_some hd
  owns := by
    have hal := h.owns.alloc hq (.quantum δ.bytes b)
    have hd' : Function.update place (.quantum i j) (some m.heap.calls) (.data i) = some d := by
      simpa using hd
    refine (hal.store hd' _).congr (by rw [h.calls]) ?_
    funext p
    cases p with
    | node k => simp [Store.content, Store.addPage]
    | data k =>
      by_cases hk : k = i
      · subst hk
        have hdk := h.data_of_some hd
        simp only [Store.content, Store.addPage, hdk, if_true, Function.update_self]
        congr 2
        funext l
        by_cases hl : l = j
        · subst hl; simp
        · simp [hl]
      · simp [Store.content, Store.addPage, hk]
    | quantum k l =>
      by_cases hkl : k = i ∧ l = j
      · obtain ⟨rfl, rfl⟩ := hkl
        simp [Store.content, Store.addPage, hj]
      · by_cases hl : l < δ.slots
        · have hne : δ.slots * k + l ≠ δ.slots * i + j := fun h => hkl ((pageIndex_inj hj hl).mp h)
          simp [Store.content, Store.addPage, hl, hne, hkl]
        · simp [Store.content, hl, hkl]
  head := by simpa using h.head
  quantum := h.quantum
  qset := h.qset
  size := h.size
  calls := by simp [Heap.alloc_true, Store.addPage, h.calls]

theorem ensureQuantum_spec (env : Env) (h : RepOf δ s place m) (hδ : 0 ≤ δ.quantum) {i j : Nat}
    {d : Addr} (hd : place (.data i) = some d) (hj : j < δ.slots) :
    ∃ m' place',
      ensureQuantum env δ.quantum d (j : Nat) m = .ok (m', place' (.quantum i j)) ∧
      RepOf δ (s.ensurePage env (δ.slots * i + j)) place' m' ∧ Extends place place' ∧
      m'.container.sem = m.container.sem := by
  unfold ensureQuantum Store.ensurePage
  rw [h.loadSlot hd hj, ok_bind]
  cases hq : place (.quantum i j) with
  | some q =>
    rw [if_pos (by rw [← h.quantum_isSome hj, hq]; rfl)]
    exact ⟨m, place, by rw [hq], h, Extends.refl place, rfl⟩
  | none =>
    rw [if_neg (by rw [← h.quantum_isSome hj, hq]; simp)]
    simp only
    rw [h.kmalloc_eq env hδ]
    cases hk : env.kmallocOk s.calls with
    | false => exact ⟨_, place, by rw [hq]; rfl, h.countCall _, Extends.refl place, rfl⟩
    | true =>
      have hdc : d ≠ m.heap.calls := Nat.ne_of_lt (h.owns.lt_calls hd)
      have hb : (m.heap.alloc true (.quantum δ.bytes (env.junk s.calls))).1.blocks d
          = some (.slots δ.slots fun j => place (.quantum i j)) := by
        rw [Heap.alloc_true]
        simp only [Function.update_of_ne hdc]
        exact h.slots hd
      refine ⟨_, _, ?_, h.addPage hd hj hq (env.junk s.calls), Extends.update hq _, rfl⟩
      rw [h.calls]
      simp only [if_true, show δ.quantum.toNat = δ.bytes from rfl]
      rw [Mem.storeSlot_eq (m := { m with heap := _ }) hb hj, ok_bind, Function.update_self]

/-! ## The user copies -/

theorem loadQuantum_spec (h : RepOf δ s place m) {i j : Nat} {a : Addr}
    (ha : place (.node i) = some a) (hj : j < δ.slots) :
    loadQuantum (some a) (j : Nat) m = .ok (place (.quantum i j)) := by
  unfold loadQuantum
  simp only [h.loadQset ha, ok_bind]
  cases hd : place (.data i) with
  | some d => exact h.loadSlot hd hj
  | none => rw [h.quantum_none hd j]

theorem readCopy_spec (h : RepOf δ s place m) {i j off n : Nat} {a q : Addr} {b : Nat → UInt8}
    (ha : place (.node i) = some a) (hq : place (.quantum i j) = some q)
    (hb : s.page (δ.slots * i + j) = some b) (hn : off + n ≤ δ.bytes) (uncopied : Nat) :
    readCopy a (j : Nat) (off : Nat) n uncopied m
      = .ok ((Store.bytes b off n).take (n - uncopied), min uncopied n) := by
  obtain ⟨b', hb', hblk⟩ := h.page hq
  rw [hb, Option.some.injEq] at hb'
  subst hb'
  unfold readCopy
  rw [loadQuantum_spec h ha (h.quantum_lt hq), hq]
  simp only [ok_bind, Mem.loadBytes, hblk]
  rw [if_pos (by omega), ok_bind]
  rfl

theorem writeCopy_spec (h : RepOf δ s place m) {i j off n : Nat} {a q : Addr}
    (ha : place (.node i) = some a) (hq : place (.quantum i j) = some q) (hn : off + n ≤ δ.bytes)
    (buf : Nat → UInt8) (copy : UserCopy) :
    ∃ m', writeCopy a (j : Nat) (off : Nat) n buf copy m = .ok (m', min copy.uncopied n) ∧
      RepOf δ (s.overlay (δ.slots * i + j) off n
        (if min copy.uncopied n = 0 then fun i => some (buf i) else copy.clobber)) place m' ∧
      m'.container.sem = m.container.sem := by
  obtain ⟨b, hb, hblk⟩ := h.page hq
  have hj := h.quantum_lt hq
  unfold writeCopy
  rw [loadQuantum_spec h ha hj, hq]
  simp only [ok_bind, Mem.storeBytes, hblk]
  rw [if_pos (by omega), ok_bind]
  refine ⟨_, rfl, ?_, rfl⟩
  generalize (if min copy.uncopied n = 0 then fun i => some (buf i) else copy.clobber) = src
  refine ⟨h.wf.overlay _ _ _ _, ?_, h.head, h.quantum, h.qset, h.size, h.calls⟩
  refine (h.owns.store hq _).congr rfl ?_
  funext p
  cases p with
  | node k => rw [Function.update_of_ne (by simp)]; rfl
  | data k => rw [Function.update_of_ne (by simp)]; rfl
  | quantum k l =>
    by_cases hkl : k = i ∧ l = j
    · obtain ⟨rfl, rfl⟩ := hkl
      simp [Store.content, Store.overlay, hj, hb]
    · by_cases hl : l < δ.slots
      · have hne : δ.slots * k + l ≠ δ.slots * i + j := fun h => hkl ((pageIndex_inj hj hl).mp h)
        simp [Store.content, Store.overlay, hl, hne, hkl]
      · simp [Store.content, hl, hkl]

theorem writeUpdate_spec (h : RepOf δ s place m) (n : Nat) :
    RepOf δ (s.extend n) place (writeUpdate n m) ∧
      (writeUpdate n m).container.sem = m.container.sem := by
  unfold writeUpdate
  rw [h.size]
  by_cases hlt : s.size < n
  · rw [if_pos hlt]
    refine ⟨⟨h.wf.extend n, h.owns, h.head, h.quantum, h.qset, ?_, h.calls⟩, rfl⟩
    simp only [Store.extend]
    omega
  · rw [if_neg hlt]
    refine ⟨⟨h.wf.extend n, h.owns, h.head, h.quantum, h.qset, ?_, h.calls⟩, rfl⟩
    simp only [Store.extend, h.size]
    omega

/-! ## Everything before the copy -/

/-- The call stands before a copy of `n` bytes at offset `o` of slot `j` of node `i`. -/
def AtSlot (place : Place → Option Addr) (i j o n : Nat) (located : Located) : Prop :=
  ∃ a q, located = .copy a (j : Nat) (o : Nat) n ∧ place (.node i) = some a ∧
    place (.quantum i j) = some q

/-- What a read does before its copy: it follows the list. -/
theorem readLocate_at (env : Env) (h : RepOf δ s place m) {p i j o : Nat} {item : Int}
    (hoff : offsetOf δ.quantum δ.qset p = .ok { item, sPos := (j : Nat), qPos := (o : Nat) })
    (hi : rounds item = i) (hj : j < δ.slots) (count : Nat) :
    ∃ m' place' located, readLocate env δ.quantum δ.qset p count m = .ok (m', located) ∧
      RepOf δ (if s.size ≤ p then s else s.follow env i) place' m' ∧
      m'.container.sem = m.container.sem ∧
      if s.size ≤ p ∨ s.page (δ.slots * i + j) = none then located = .out 0
      else AtSlot place' i j o (clampCount δ.quantum (o : Nat) (s.readCount p count)) located := by
  unfold readLocate
  rw [h.size]
  by_cases hsz : s.size ≤ p
  · rw [if_pos hsz, if_pos hsz]
    exact ⟨m, place, _, rfl, h, rfl, by rw [if_pos (Or.inl hsz)]⟩
  · rw [if_neg hsz, if_neg hsz, hoff]
    obtain ⟨m₁, place₁, he₁, h₁, -, hs₁⟩ := mevFollow_spec env h hi
    have hpage := h₁.quantum_isSome (i := i) hj
    rw [Store.follow_page] at hpage
    simp only [ok_bind, he₁]
    cases ha : place₁ (.node i) with
    | none =>
      have hnone : s.page (δ.slots * i + j) = none := by
        rw [h₁.quantum_none (h₁.data_none (h₁.len_le ha))] at hpage
        simpa using hpage.symm
      exact ⟨m₁, place₁, _, rfl, h₁, hs₁, by rw [if_pos (Or.inr hnone)]⟩
    | some a =>
      rw [loadQuantum_spec h₁ ha hj]
      simp only [ok_bind]
      cases hq : place₁ (.quantum i j) with
      | none =>
        rw [hq] at hpage
        exact ⟨m₁, place₁, _, rfl, h₁, hs₁, by rw [if_pos (Or.inr (by simpa using hpage.symm))]⟩
      | some q =>
        rw [hq] at hpage
        refine ⟨m₁, place₁, _, rfl, h₁, hs₁, ?_⟩
        rw [if_neg ?_]
        · exact ⟨a, q, rfl, ha, hq⟩
        · rintro (hc | hc)
          · exact hsz hc
          · rw [hc] at hpage
            simp at hpage

/-- The allocations of a write, and the place it found. -/
theorem writeLocate_at (env : Env) (h : RepOf δ s place m) (hδ : 0 ≤ δ.qset)
    (hδ' : 0 ≤ δ.quantum) {p i j o : Nat} {item : Int}
    (hoff : offsetOf δ.quantum δ.qset p = .ok { item, sPos := (j : Nat), qPos := (o : Nat) })
    (hi : rounds item = i) (hj : j < δ.slots) (count : Nat) :
    ∃ m' place' located, writeLocate env δ.quantum δ.qset p count m = .ok (m', located) ∧
      RepOf δ (s.allocateAt env i (δ.slots * i + j)) place' m' ∧ Extends place place' ∧
      m'.container.sem = m.container.sem ∧
      if ((s.allocateAt env i (δ.slots * i + j)).page (δ.slots * i + j)).isSome then
        AtSlot place' i j o (clampCount δ.quantum (o : Nat) count) located
      else located = .out (-enomem) := by
  unfold writeLocate Store.allocateAt AtSlot
  rw [hoff, ok_bind]
  obtain ⟨m₁, place₁, he₁, h₁, hx₁, hs₁⟩ := mevFollow_spec env h hi
  simp only [he₁, ok_bind]
  cases ha : place₁ (.node i) with
  | none =>
    -- no node: the list has ended before `i`
    have hlt : ¬ i < (s.follow env i).len := Nat.not_lt.mpr (h₁.len_le ha)
    have hpage : ¬ ((s.follow env i).page (δ.slots * i + j)).isSome := by
      intro hc
      have := h₁.wf.page_lt hc
      rw [pageIndex_div hj] at this
      exact hlt this
    rw [if_neg hlt]
    exact ⟨m₁, place₁, _, rfl, h₁, hx₁, hs₁, by rw [if_neg hpage]⟩
  | some a =>
    rw [if_pos ((h₁.node_isSome _).mp (by rw [ha]; rfl))]
    obtain ⟨m₂, place₂, he₂, h₂, hx₂, hs₂⟩ := ensureData_spec env h₁ hδ ha
    simp only [he₂, ok_bind]
    cases hd : place₂ (.data i) with
    | none =>
      -- the node is there, the array is not
      have hnd := h₂.data_isSome i
      rw [hd] at hnd
      have hpage : ¬ (((s.follow env i).ensureData env i).page (δ.slots * i + j)).isSome := by
        intro hc
        have := h₂.wf.page_data _ hc
        rw [pageIndex_div hj, ← hnd] at this
        simp at this
      rw [if_neg (by rw [← hnd]; simp)]
      exact ⟨m₂, place₂, _, rfl, h₂, hx₁.trans hx₂, hs₂.trans hs₁, by rw [if_neg hpage]⟩
    | some d =>
      rw [if_pos (h₂.data_of_some hd)]
      obtain ⟨m₃, place₃, he₃, h₃, hx₃, hs₃⟩ := ensureQuantum_spec env h₂ hδ' hd hj
      simp only [he₃, ok_bind]
      rw [← h₃.quantum_isSome (i := i) hj]
      cases hq : place₃ (.quantum i j) with
      | none =>
        exact ⟨m₃, place₃, _, rfl, h₃, (hx₁.trans hx₂).trans hx₃, hs₃.trans (hs₂.trans hs₁),
          by simp⟩
      | some q =>
        refine ⟨m₃, place₃, _, rfl, h₃, (hx₁.trans hx₂).trans hx₃, hs₃.trans (hs₂.trans hs₁), ?_⟩
        rw [if_pos (by rfl)]
        exact ⟨a, q, rfl, hx₃ _ _ (hx₂ _ _ ha), hq⟩

/-! ## The sizes that `mev_trim` stores -/

/-- The call stands before a copy of `n` bytes at position `p` of the container. -/
def AtPage (place : Place → Option Addr) (p n : Nat) (located : Located) : Prop :=
  AtSlot place (addrOf p / 4000000) (p % 4000000 / 4000) (p % 4000) n located

theorem slot_lt (p : Nat) : p % 4000000 / 4000 < Dims.std.slots := by
  rw [Dims.slots_std]
  omega

theorem readLocate_spec (env : Env) (h : Rep s place m) {p : Nat} (hp : p < 2 ^ 63)
    (count : Nat) :
    ∃ m' place' located,
      readLocate env Dims.std.quantum Dims.std.qset p count m = .ok (m', located) ∧
      Rep (s.lookup env p) place' m' ∧ m'.container.sem = m.container.sem ∧
      if s.size ≤ p ∨ s.page (addrOf p / 4000) = none then located = .out 0
      else AtPage place' p (Store.chunk p (s.readCount p count)) located := by
  have hl := readLocate_at env h (offsetOf_eq hp) (rounds_item p) (slot_lt p) count
  rwa [page_index, clampCount_eq] at hl

theorem writeLocate_spec (env : Env) (h : Rep s place m) {p : Nat} (hp : p < 2 ^ 63)
    (count : Nat) :
    ∃ m' place' located,
      writeLocate env Dims.std.quantum Dims.std.qset p count m = .ok (m', located) ∧
      Rep (s.allocate env (addrOf p)) place' m' ∧ Extends place place' ∧
      m'.container.sem = m.container.sem ∧
      if ((s.allocate env (addrOf p)).page (addrOf p / 4000)).isSome then
        AtPage place' p (Store.chunk p count) located
      else located = .out (-enomem) := by
  have hl := writeLocate_at env h (by decide) (by decide) (offsetOf_eq hp) (rounds_item p)
    (slot_lt p) count
  rwa [page_index, clampCount_eq] at hl

end LkmSandbox.Mev
