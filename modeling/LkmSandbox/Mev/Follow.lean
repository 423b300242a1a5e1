import LkmSandbox.Lib.Chain
import LkmSandbox.Mev.Bytes
import LkmSandbox.Mev.Reach

/-!
# `mev_follow` on a list

What `mev_follow` does is said here of the list alone: from `container->data` a chain of nodes,
each with its `data`, whatever other blocks there are and whatever hangs on the nodes.

* `IsList` — the list behind `container->data`
* `Follows` — what one call of `mev_follow` does to it
* `mevFollow_follows` — that it does this, from every list and with every outcome of `kmalloc`
* `follow_indexes_and_appends` — indexing and appending over one call, later calls and both orders
* `container_isList` — the container of the driver is such a list after every sequence of calls
-/

namespace LkmSandbox.Mev

open Lib Store

/-- A node of the list: its address and its `data`. -/
abbrev Node := Addr × Option Addr

/-- A `struct mev_qset` as a list cell. -/
def nodeView : Block → Option (Option Addr × Option Addr)
  | .qset q => some (q.data, q.next)
  | _ => none

/--
The list from `container->data`, ending in a null pointer. What `kmalloc` returns next is not in
use.
-/
structure IsList (m : Mem) (nodes : List Node) : Prop where
  chain : Chain nodeView m.heap m.container.data nodes
  fresh : ∀ a, m.heap.calls ≤ a → m.heap.blocks a = none

/-- The address of the node at index `i`. -/
def addrAt (nodes : List Node) (i : Nat) : Option Addr := nodes[i]?.map Prod.fst

/-- The zeroed nodes from `j` calls of `kmalloc`, the first of them call number `c`. -/
def zeroed (c j : Nat) : List Node := (List.range' c j).map fun a => (a, none)

@[simp] theorem zeroed_length (c j : Nat) : (zeroed c j).length = j := by simp [zeroed]

@[simp] theorem zeroed_zero (c : Nat) : zeroed c 0 = [] := rfl

theorem zeroed_succ (c j : Nat) : zeroed c (j + 1) = (c, none) :: zeroed (c + 1) j := rfl

theorem zeroed_append (c i j : Nat) : zeroed c i ++ zeroed (c + i) j = zeroed c (i + j) := by
  rw [zeroed, zeroed, zeroed, ← List.map_append, List.range'_append_1]

theorem addrAt_append {nodes : List Node} (ns : List Node) {i : Nat} (hi : i < nodes.length) :
    addrAt (nodes ++ ns) i = addrAt nodes i := by
  rw [addrAt, addrAt, List.getElem?_append_left hi]

theorem addrAt_drop (nodes : List Node) (i k : Nat) :
    addrAt nodes (i + k) = addrAt (nodes.drop i) k := by
  rw [addrAt, addrAt, List.getElem?_drop]

theorem addrAt_isSome {nodes : List Node} {i : Nat} :
    (addrAt nodes i).isSome ↔ i < nodes.length := by
  simp [addrAt]

theorem addrAt_mid (pre post : List Node) (n : Node) :
    addrAt (pre ++ n :: post) pre.length = some n.1 := by
  simp [addrAt]

/--
From `m` to `m'` the list becomes `nodes`. Blocks that are not its nodes, the other fields of the
container and the ledger of freed blocks are left alone.
-/
structure Grows (m m' : Mem) (nodes : List Node) : Prop where
  list : IsList m' nodes
  elsewhere : ∀ a, a ∉ nodes.map Prod.fst → m'.heap.blocks a = m.heap.blocks a
  container : m'.container = { m.container with data := m'.container.data }
  freed : m'.heap.freed = m.heap.freed

/--
A call of `mev_follow` with `n` on the list `nodes` of `m` has appended `j` zeroed nodes and
returned `r`. It needs `n + 1 - nodes.length` allocations.
-/
structure Follows (env : Env) (n : Nat) (nodes : List Node) (m : Mem) (j : Nat) (m' : Mem)
    (r : Option Addr) : Prop where
  grows : Grows m m' (nodes ++ zeroed m.heap.calls j)
  /-- nothing is done when the node is there -/
  there : n < nodes.length → m' = m
  success : AllOk env m.heap.calls (m.heap.calls + (n + 1 - nodes.length)) →
    j = n + 1 - nodes.length ∧ m'.heap.calls = m.heap.calls + j ∧
      ∃ a, r = some a ∧ addrAt (nodes ++ zeroed m.heap.calls j) n = some a
  failure : ¬AllOk env m.heap.calls (m.heap.calls + (n + 1 - nodes.length)) →
    j < n + 1 - nodes.length ∧ r = none ∧ AllOk env m.heap.calls (m.heap.calls + j) ∧
      env.kmallocOk (m.heap.calls + j) = false

variable {env : Env} {m m' m₁ m₂ : Mem} {nodes ns : List Node} {n j : Nat} {r : Option Addr}

/-! ## One step of the list -/

namespace IsList

theorem block {pre post : List Node} {a : Addr} {d : Option Addr}
    (h : IsList m (pre ++ (a, d) :: post)) :
    m.heap.blocks a = some (.qset { data := d, next := addrAt post 0 }) := by
  have hc := Chain.cell_next h.chain
  rw [Cell, List.head?_eq_getElem?] at hc
  rcases hb : m.heap.blocks a with _ | (q | ⟨len, slot⟩ | ⟨len, byte⟩) <;> rw [hb] at hc
  · cases hc
  · obtain ⟨rfl, hn⟩ := Prod.mk.inj (Option.some.inj hc)
    rw [addrAt, ← hn]
  · cases hc
  · cases hc

theorem loadQset {pre post : List Node} {a : Addr} {d : Option Addr}
    (h : IsList m (pre ++ (a, d) :: post)) :
    m.loadQset a = .ok { data := d, next := addrAt post 0 } := by
  rw [Mem.loadQset, h.block]

theorem head_eq (h : IsList m nodes) : m.container.data = addrAt nodes 0 := by
  rw [addrAt, ← List.head?_eq_getElem?]
  exact Chain.head_eq h.chain

/-- A failing `kmalloc` leaves the list as it is. -/
theorem countCall (h : IsList m nodes) (b : Block) :
    Grows m { m with heap := (m.heap.alloc false b).1 } nodes where
  list := ⟨Seg.congr h.chain fun _ _ => rfl, Heap.alloc_fresh h.fresh false b⟩
  elsewhere := fun _ _ => rfl
  container := rfl
  freed := rfl

/-- An empty list gets its first node. -/
theorem addFirst (h : IsList m []) :
    Grows m { heap := (m.heap.alloc true zeroQset).1
              container := { m.container with data := some m.heap.calls } }
      [(m.heap.calls, none)] where
  list := ⟨Chain.first rfl, Heap.alloc_fresh h.fresh true zeroQset⟩
  elsewhere := by
    intro a ha
    have hne : a ≠ m.heap.calls := by simpa using ha
    exact Function.update_of_ne hne _ _
  container := rfl
  freed := rfl

/-- The last node gets a node behind it. -/
theorem addNext {pre : List Node} {a : Addr} {d : Option Addr} (h : IsList m (pre ++ [(a, d)])) :
    Grows m { m with heap := (m.heap.alloc true zeroQset).1.store a
                      (.qset { data := d, next := some m.heap.calls }) }
      (pre ++ [(a, d)] ++ [(m.heap.calls, none)]) where
  list := by
    have hnew := Heap.alloc_fresh h.fresh true zeroQset
    have hlt : a < m.heap.calls := by
      by_contra hge
      exact Seg.live h.chain (by simp) (h.fresh a (Nat.le_of_not_lt hge))
    exact ⟨Chain.append h.chain (h.fresh _ (Nat.le_refl _)) rfl rfl,
      Heap.store_fresh hnew (Nat.lt_succ_of_lt hlt) _⟩
  elsewhere := by
    intro c hc
    simp only [List.map_append, List.mem_append, not_or, List.map_cons, List.map_nil,
      List.mem_singleton] at hc
    simp only [Heap.store, Heap.alloc_true]
    rw [Function.update_of_ne hc.1.2, Function.update_of_ne hc.2]
  container := rfl
  freed := rfl

end IsList

theorem Grows.trans (h₁ : Grows m m₁ nodes) (h₂ : Grows m₁ m₂ (nodes ++ ns)) :
    Grows m m₂ (nodes ++ ns) where
  list := h₂.list
  elsewhere := by
    intro a ha
    rw [h₂.elsewhere a ha]
    refine h₁.elsewhere a fun hm => ha ?_
    rw [List.map_append]
    exact List.mem_append_left _ hm
  container := by rw [h₂.container, h₁.container]
  freed := by rw [h₂.freed, h₁.freed]

/-! ## One call -/

namespace Follows

/-- The node is in the list. -/
theorem reached (h : IsList m nodes) (hn : n < nodes.length) :
    Follows env n nodes m 0 m (addrAt nodes n) where
  grows := by
    rw [zeroed_zero, List.append_nil]
    exact ⟨h, fun _ _ => rfl, rfl, rfl⟩
  there := fun _ => rfl
  success := by
    intro _
    obtain ⟨a, ha⟩ := Option.isSome_iff_exists.mp (addrAt_isSome.mpr hn)
    refine ⟨by omega, rfl, a, ha, ?_⟩
    rw [zeroed_zero, List.append_nil, ha]
  failure := by
    intro hf
    rw [show n + 1 - nodes.length = 0 by omega] at hf
    exact absurd (allOk_self _) hf

/-- The next node is needed and cannot be allocated. -/
theorem refused (h : IsList m nodes) (hn : nodes.length ≤ n)
    (hk : env.kmallocOk m.heap.calls = false) :
    Follows env n nodes m 0 { m with heap := (m.heap.alloc false zeroQset).1 } none where
  grows := by
    rw [zeroed_zero, List.append_nil]
    exact h.countCall zeroQset
  there := fun hlt => absurd hlt (by omega)
  success := by
    intro hall
    have hok := hall m.heap.calls (Nat.le_refl _) (by omega)
    rw [hk] at hok
    cases hok
  failure := fun _ => ⟨by omega, rfl, allOk_self _, hk⟩

/-- The next node is allocated, and the call goes on from there. -/
theorem more (hn : nodes.length ≤ n) (hk : env.kmallocOk m.heap.calls = true)
    (hg : Grows m m₁ (nodes ++ [(m.heap.calls, none)])) (hc : m₁.heap.calls = m.heap.calls + 1)
    (hf : Follows env n (nodes ++ [(m.heap.calls, none)]) m₁ j m' r) :
    Follows env n nodes m (j + 1) m' r := by
  have hlist : nodes ++ [(m.heap.calls, none)] ++ zeroed m₁.heap.calls j
      = nodes ++ zeroed m.heap.calls (j + 1) := by
    rw [hc, zeroed_succ, List.append_assoc, List.singleton_append]
  have hlen : n + 1 - (nodes ++ [(m.heap.calls, (none : Option Addr))]).length
      = n - nodes.length := by
    rw [List.length_append, List.length_singleton]
    omega
  -- the first of the allocations needed has succeeded
  have hall : AllOk env m.heap.calls (m.heap.calls + (n + 1 - nodes.length)) ↔
      AllOk env m₁.heap.calls (m₁.heap.calls + (n - nodes.length)) := by
    rw [hc, allOk_cons (by omega), hk,
      show m.heap.calls + (n + 1 - nodes.length) = m.heap.calls + 1 + (n - nodes.length) by omega]
    exact and_iff_right rfl
  obtain ⟨hgrows, -, hsuccess, hfailure⟩ := hf
  rw [hlen, ← hall] at hsuccess hfailure
  rw [hlist] at hsuccess
  refine ⟨?_, fun hlt => absurd hlt (by omega), ?_, ?_⟩
  · rw [← hlist]
    exact hg.trans hgrows
  · intro h
    obtain ⟨hj, hcalls, ha⟩ := hsuccess h
    exact ⟨by omega, by omega, ha⟩
  · intro h
    obtain ⟨hj, hr, hok, hk'⟩ := hfailure h
    rw [hc] at hok hk'
    rw [show m.heap.calls + (j + 1) = m.heap.calls + 1 + j by omega]
    exact ⟨by omega, hr, (allOk_cons (by omega)).mpr ⟨hk, hok⟩, hk'⟩

end Follows

/-- The loop, `k` rounds before its end, at the node behind `pre`. -/
theorem followLoop_follows (env : Env) : ∀ (k : Nat) {pre post : List Node} {a : Addr}
    {d : Option Addr} {m : Mem}, IsList m (pre ++ (a, d) :: post) →
    ∃ m' j r, followLoop env k a m = .ok (m', r) ∧
      Follows env (pre.length + k) (pre ++ (a, d) :: post) m j m' r := by
  intro k
  induction k with
  | zero =>
    intro pre post a d m h
    have hf : Follows env pre.length (pre ++ (a, d) :: post) m 0 m _ := Follows.reached h (by simp)
    rw [addrAt_mid] at hf
    exact ⟨m, 0, some a, rfl, hf⟩
  | succ k ih =>
    intro pre post a d m h
    rw [followLoop, h.loadQset, ok_bind]
    rcases post with _ | ⟨⟨b, e⟩, post⟩
    · -- the last node: one is allocated behind it
      have hlen : (pre ++ [(a, d)]).length ≤ pre.length + (k + 1) := by simp
      simp only [addrAt, List.getElem?_nil, Option.map_none]
      rw [Mem.kmalloc_eq env (by decide)]
      rcases hk : env.kmallocOk m.heap.calls with _ | _
      · exact ⟨_, 0, none, rfl, Follows.refused h hlen hk⟩
      · have hg := h.addNext
        obtain ⟨m', j, r, he, hf⟩ := ih hg.list
        rw [show (pre ++ [(a, d)]).length + k = pre.length + (k + 1) by simp; omega] at hf
        exact ⟨m', j + 1, r, he, Follows.more hlen hk hg rfl hf⟩
    · -- a node is there, and nothing is done but to go on to it
      have hassoc : pre ++ (a, d) :: (b, e) :: post = pre ++ [(a, d)] ++ (b, e) :: post := by simp
      rw [hassoc] at h ⊢
      obtain ⟨m', j, r, he, hf⟩ := ih h
      rw [show (pre ++ [(a, d)]).length + k = pre.length + (k + 1) by simp; omega] at hf
      exact ⟨m', j, r, he, hf⟩

/-- **One call of `mev_follow`**, on an empty list too. -/
theorem mevFollow_follows (env : Env) (h : IsList m nodes) (item : Int) :
    ∃ m' j r, mevFollow env item m = .ok (m', r) ∧ Follows env (rounds item) nodes m j m' r := by
  unfold mevFollow
  rw [h.head_eq]
  rcases nodes with _ | ⟨⟨a, d⟩, post⟩
  · simp only [addrAt, List.getElem?_nil, Option.map_none]
    rw [Mem.kmalloc_eq env (by decide)]
    rcases hk : env.kmallocOk m.heap.calls with _ | _
    · exact ⟨_, 0, none, rfl, Follows.refused h (Nat.zero_le _) hk⟩
    · have hg := h.addFirst
      have hl : IsList _ ([] ++ (m.heap.calls, none) :: []) := hg.list
      obtain ⟨m', j, r, he, hf⟩ := followLoop_follows env (rounds item) hl
      rw [List.length_nil, Nat.zero_add] at hf
      exact ⟨m', j + 1, r, he, Follows.more (Nat.zero_le _) hk hg rfl hf⟩
  · have hl : IsList m ([] ++ (a, d) :: post) := h
    obtain ⟨m', j, r, he, hf⟩ := followLoop_follows env (rounds item) hl
    rw [List.length_nil, Nat.zero_add] at hf
    exact ⟨m', j, r, he, hf⟩

/-! ## Later calls -/

namespace Follows

/-- A call that does not return null has got all it needed. -/
theorem granted {a : Addr} (hf : Follows env n nodes m j m' (some a)) :
    j = n + 1 - nodes.length ∧ m'.heap.calls = m.heap.calls + j ∧
      addrAt (nodes ++ zeroed m.heap.calls j) n = some a := by
  rcases Classical.em (AllOk env m.heap.calls (m.heap.calls + (n + 1 - nodes.length))) with h | h
  · obtain ⟨hj, hc, b, hb, ha⟩ := hf.success h
    cases hb
    exact ⟨hj, hc, ha⟩
  · cases (hf.failure h).2.1

end Follows

/-- A node that is there is found, and nothing else happens. -/
theorem IsList.follow_there (env : Env) (h : IsList m nodes) {item : Int}
    (hlt : rounds item < nodes.length) :
    ∃ a, addrAt nodes (rounds item) = some a ∧ mevFollow env item m = .ok (m, some a) := by
  obtain ⟨m', j, r, he, hf⟩ := mevFollow_follows env h item
  have hneed : rounds item + 1 - nodes.length = 0 := by omega
  obtain ⟨hj, -, a, rfl, ha⟩ := hf.success (by rw [hneed]; exact allOk_self _)
  rw [hj, hneed, zeroed_zero, List.append_nil] at ha
  rw [hf.there hlt] at he
  exact ⟨a, ha, he⟩

/-- An index that is a non-negative `int`. -/
theorem rounds_of_nat {n : Nat} (hn : n < 2 ^ 31) : rounds n = n := by
  unfold rounds
  omega

/-- Calls of `mev_follow`, one after another. -/
abbrev followAll (env : Env) (m : Mem) (items : List Int) :
    Except Fault (Mem × List (Option Addr)) :=
  runE (fun m item => mevFollow env item m) m items

theorem followAll_appends (env : Env) (h : IsList m nodes) (items : List Int) :
    ∃ m' rs, followAll env m items = .ok (m', rs) ∧ ∃ added, IsList m' (nodes ++ added) := by
  refine runE_keeps (I := fun m => ∃ added, IsList m (nodes ++ added)) (P := fun _ => True)
    ?_ items (fun _ _ => trivial) ⟨[], by rw [List.append_nil]; exact h⟩
  rintro m item ⟨added, h⟩ -
  obtain ⟨m', j, r, he, hf⟩ := mevFollow_follows env h item
  refine ⟨m', r, he, added ++ zeroed m.heap.calls j, ?_⟩
  rw [← List.append_assoc]
  exact hf.grows.list

/--
Whatever calls of `mev_follow` come in between, a call with `k ≤ n` gives the node at index `k` of
`nodes`, and nothing is allocated or changed for it.
-/
def Indexes (n : Nat) (nodes : List Node) (m : Mem) : Prop :=
  ∀ (env : Env) (items : List Int), ∃ m' rs, followAll env m items = .ok (m', rs) ∧
    ∀ k ≤ n, ∃ a, addrAt nodes k = some a ∧ mevFollow env k m' = .ok (m', some a)

theorem IsList.indexes (h : IsList m nodes) (hlt : n < nodes.length) (hn : n < 2 ^ 31) :
    Indexes n nodes m := by
  intro env items
  obtain ⟨m', rs, hrun, added, h'⟩ := followAll_appends env h items
  refine ⟨m', rs, hrun, ?_⟩
  intro k hk
  have hrounds : rounds k = k := rounds_of_nat (by omega)
  have hk' : k < nodes.length := by omega
  have hlt : rounds k < (nodes ++ added).length := by
    rw [hrounds, List.length_append]
    omega
  obtain ⟨a, ha, he⟩ := h'.follow_there env hlt
  rw [hrounds, addrAt_append added hk'] at ha
  exact ⟨a, ha, he⟩

/-! ## Both orders -/

/-- The second call appends what the first one has left to do. -/
theorem follow_twice {n₁ n₂ : Nat} {a₁ a₂ : Addr} (h : IsList m nodes) (hn₁ : n₁ < 2 ^ 31)
    (hn₂ : n₂ < 2 ^ 31) (he₁ : mevFollow env n₁ m = .ok (m₁, some a₁))
    (he₂ : mevFollow env n₂ m₁ = .ok (m₂, some a₂)) :
    IsList m₂ (nodes ++ zeroed m.heap.calls (max n₁ n₂ + 1 - nodes.length)) ∧
      addrAt (nodes ++ zeroed m.heap.calls (max n₁ n₂ + 1 - nodes.length)) n₁ = some a₁ ∧
      addrAt (nodes ++ zeroed m.heap.calls (max n₁ n₂ + 1 - nodes.length)) n₂ = some a₂ := by
  obtain ⟨_, j₁, _, he₁', hf₁⟩ := mevFollow_follows env h n₁
  rw [he₁] at he₁'
  cases he₁'
  obtain ⟨_, j₂, _, he₂', hf₂⟩ := mevFollow_follows env hf₁.grows.list n₂
  rw [he₂] at he₂'
  cases he₂'
  rw [rounds_of_nat hn₁] at hf₁
  rw [rounds_of_nat hn₂] at hf₂
  obtain ⟨hj₁, hc₁, ha₁⟩ := hf₁.granted
  obtain ⟨hj₂, -, ha₂⟩ := hf₂.granted
  have hlist := hf₂.grows.list
  rw [hc₁, List.append_assoc, zeroed_append] at ha₂ hlist
  rw [List.length_append, zeroed_length] at hj₂
  have hj : j₁ + j₂ = max n₁ n₂ + 1 - nodes.length := by omega
  have hlt : n₁ < (nodes ++ zeroed m.heap.calls j₁).length := by
    rw [List.length_append, zeroed_length]
    omega
  rw [← hj]
  refine ⟨hlist, ?_, ha₂⟩
  rw [← zeroed_append, ← List.append_assoc, addrAt_append _ hlt]
  exact ha₁

/--
**`mev_follow` indexes and only appends**: one call with every outcome of `kmalloc`, the calls
after one that succeeded, and two calls in either order.
-/
theorem follow_indexes_and_appends (h : IsList m nodes) :
    (∀ (env : Env) (n : Nat), n < 2 ^ 31 →
      ∃ m' j r, mevFollow env n m = .ok (m', r) ∧ Follows env n nodes m j m' r ∧
        (r ≠ none → Indexes n (nodes ++ zeroed m.heap.calls j) m')) ∧
    ∀ n₁ n₂ : Nat, n₁ < 2 ^ 31 → n₂ < 2 ^ 31 → ∀ env env' m₁ m₂ m₁' m₂' a₁ a₂ a₁' a₂',
      mevFollow env n₁ m = .ok (m₁, some a₁) → mevFollow env n₂ m₁ = .ok (m₂, some a₂) →
      mevFollow env' n₂ m = .ok (m₁', some a₂') → mevFollow env' n₁ m₁' = .ok (m₂', some a₁') →
      ∃ l, IsList m₂ l ∧ IsList m₂' l ∧ nodes <+: l ∧
        l.length = max nodes.length (max (n₁ + 1) (n₂ + 1)) ∧
        addrAt l n₁ = some a₁ ∧ addrAt l n₂ = some a₂ ∧ a₁' = a₁ ∧ a₂' = a₂ := by
  constructor
  · intro env n hn
    obtain ⟨m', j, r, he, hf⟩ := mevFollow_follows env h n
    rw [rounds_of_nat hn] at hf
    refine ⟨m', j, r, he, hf, ?_⟩
    intro hr
    obtain ⟨a, rfl⟩ := Option.ne_none_iff_exists'.mp hr
    obtain ⟨hj, -, -⟩ := hf.granted
    refine hf.grows.list.indexes ?_ hn
    rw [List.length_append, zeroed_length]
    omega
  · intro n₁ n₂ hn₁ hn₂ env env' m₁ m₂ m₁' m₂' a₁ a₂ a₁' a₂' he₁ he₂ he₁' he₂'
    obtain ⟨hl, ha₁, ha₂⟩ := follow_twice h hn₁ hn₂ he₁ he₂
    obtain ⟨hl', ha₂', ha₁'⟩ := follow_twice h hn₂ hn₁ he₁' he₂'
    rw [max_comm n₂ n₁] at hl' ha₁' ha₂'
    refine ⟨_, hl, hl', List.prefix_append _ _, ?_, ha₁, ha₂, ?_, ?_⟩
    · rw [List.length_append, zeroed_length]
      omega
    · exact Option.some.inj (ha₁'.symm.trans ha₁)
    · exact Option.some.inj (ha₂'.symm.trans ha₂)

/-- Two nodes, the first with its array. -/
def twoNodes : Mem :=
  { heap :=
      { blocks := fun a =>
          match a with
          | 0 => some (.qset { data := some 1, next := some 2 })
          | 1 => some (.slots 1000 fun _ => none)
          | 2 => some zeroQset
          | _ => none
        calls := 3
        freed := [] }
    container := { trimmed.container with data := some 0 } }

theorem twoNodes_isList : IsList twoNodes [(0, some 1), (2, none)] where
  chain := ⟨rfl, _, rfl, rfl, _, rfl, rfl⟩
  fresh := by
    intro a ha
    match a, ha with
    | _ + 3, _ => rfl

/-- The fifth allocation is refused in a call with `3`; calls with `4` and `1` are granted. -/
theorem follow_indexes_and_appends_twoNodes :
    (∃ m', mevFollow { kmallocOk := fun c => c != 4, junk := fun _ _ => 0 } 3 twoNodes
        = .ok (m', none) ∧ IsList m' [(0, some 1), (2, none), (3, none)]) ∧
      ∃ m₁ m₂ m₁' m₂' l, mevFollow (.granting fun _ _ => 0) 4 twoNodes = .ok (m₁, some 5) ∧
        mevFollow (.granting fun _ _ => 0) 1 m₁ = .ok (m₂, some 2) ∧
        mevFollow (.granting fun _ _ => 0) 1 twoNodes = .ok (m₁', some 2) ∧
        mevFollow (.granting fun _ _ => 0) 4 m₁' = .ok (m₂', some 5) ∧
        IsList m₂ l ∧ IsList m₂' l ∧ l.length = 5 := by
  constructor
  · obtain ⟨m', j, r, he, hf, -⟩ := (follow_indexes_and_appends twoNodes_isList).1
      { kmallocOk := fun c => c != 4, junk := fun _ _ => 0 } 3 (by decide)
    have hnot : ¬AllOk { kmallocOk := fun c => c != 4, junk := fun _ _ => 0 } 3 5 := fun hall =>
      absurd (hall 4 (by decide) (by decide)) (by decide)
    obtain ⟨hj, rfl, -, hk⟩ := hf.failure hnot
    have hj1 : j = 1 := by
      rcases j with _ | _ | j
      · cases hk
      · rfl
      · simp only [List.length_cons, List.length_nil] at hj
        omega
    subst hj1
    exact ⟨m', he, hf.grows.list⟩
  · obtain ⟨l, hl, hl', -, hlen, -⟩ := (follow_indexes_and_appends twoNodes_isList).2 4 1
      (by decide) (by decide) (.granting fun _ _ => 0) (.granting fun _ _ => 0) _ _ _ _ _ _ _ _
      rfl rfl rfl rfl
    exact ⟨_, _, _, _, l, rfl, rfl, rfl, rfl, hl, hl', hlen⟩

/-! ## The container of the driver -/

/-- Counting nodes in the list is following `next`. -/
theorem IsList.nodeAt_eq (h : IsList m nodes) : ∀ i, nodeAt m i = addrAt nodes i
  | 0 => h.head_eq
  | i + 1 => by
    rw [nodeAt, h.nodeAt_eq i]
    have hi := addrAt_drop nodes i 0
    have hi' := addrAt_drop nodes i 1
    rcases hd : nodes.drop i with _ | ⟨⟨a, d⟩, post⟩ <;> rw [hd] at hi hi'
    · rw [hi', show addrAt nodes i = none from hi]
      rfl
    · have hsplit : nodes.take i ++ (a, d) :: post = nodes := by rw [← hd, List.take_append_drop]
      rw [← hsplit] at h
      rw [hi', show addrAt nodes i = some a from hi, Option.bind_some, h.block]
      rfl

/-- The nodes of a represented store, from node `i` on. -/
theorem RepOf.chain {δ : Dims} {s : Store} {place : Place → Option Addr} (h : RepOf δ s place m) :
    ∀ (k i : Nat), i + k = s.len → ∃ nodes, Chain nodeView m.heap (place (.node i)) nodes
  | 0, _, hi => ⟨[], h.node_none (by omega)⟩
  | k + 1, i, hi => by
    obtain ⟨a, ha⟩ := Option.isSome_iff_exists.mp ((h.node_isSome i).mpr (by omega))
    obtain ⟨nodes, hc⟩ := h.chain k (i + 1) (by omega)
    refine ⟨(a, place (.data i)) :: nodes, ha, place (.node (i + 1)), ?_, hc⟩
    rw [Cell, h.blocks_node ha]
    rfl

theorem RepOf.isList {δ : Dims} {s : Store} {place : Place → Option Addr}
    (h : RepOf δ s place m) : ∃ nodes, IsList m nodes := by
  obtain ⟨nodes, hc⟩ := h.chain s.len 0 (Nat.zero_add _)
  rw [← h.head] at hc
  exact ⟨nodes, hc, fun a ha => h.owns.fresh ha⟩

/-- **After every sequence of calls the container is such a list.** -/
theorem container_isList (env : Env) (cs : List Call) (hc : ∀ c ∈ cs, c.Valid) :
    ∃ m rs nodes, run env trimmed cs = .ok (m, rs) ∧ IsList m nodes ∧
      ∀ i, nodeAt m i = addrAt nodes i := by
  obtain ⟨m, he, place, h, -⟩ := run_simulates env cs hc
  obtain ⟨nodes, hl⟩ := h.isList
  exact ⟨m, _, nodes, he, hl, hl.nodeAt_eq⟩

end LkmSandbox.Mev
