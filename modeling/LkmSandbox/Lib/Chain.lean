import LkmSandbox.Lib.Heap
import Mathlib.Data.List.Infix

/-!
# Linked lists in a heap

A block can be seen as a list cell: `view` reads from it what the cell holds and the link to the
next one. `Seg` follows the links from one pointer to another and collects the cells with their
addresses on the way; a *chain* is a segment that ends in a null pointer.

* `seg_append` — a segment cut in two
* `Seg.congr` — only the cells on the way count
* `Chain.unique` / `Chain.nodup` — the heap and the head determine a chain, so it has no cycle
* `Chain.first` / `Chain.append` — a chain grows at its end by an allocated cell
-/

namespace Lib

variable {α β : Type} {view : β → Option (α × Option Addr)} {h h' : Heap β}

/-- A live block at `a` that holds `x` and links on to `next`. -/
def Cell (view : β → Option (α × Option Addr)) (h : Heap β) (a : Addr) (x : α)
    (next : Option Addr) : Prop :=
  (h.blocks a).bind view = some (x, next)

/-- The cells from `p` on, up to the link `q`. -/
def Seg (view : β → Option (α × Option Addr)) (h : Heap β) :
    Option Addr → List (Addr × α) → Option Addr → Prop
  | p, [], q => p = q
  | p, (a, x) :: ns, q => p = some a ∧ ∃ next, Cell view h a x next ∧ Seg view h next ns q

abbrev Chain (view : β → Option (α × Option Addr)) (h : Heap β) (p : Option Addr)
    (ns : List (Addr × α)) : Prop :=
  Seg view h p ns none

/-! ## Cells -/

theorem Cell.unique {a : Addr} {x y : α} {p q : Option Addr} (hx : Cell view h a x p)
    (hy : Cell view h a y q) : x = y ∧ p = q := by
  rw [Cell, hx, Option.some.injEq, Prod.mk.injEq] at hy
  exact hy

theorem Cell.live {a : Addr} {x : α} {next : Option Addr} (hc : Cell view h a x next) :
    h.blocks a ≠ none := by
  intro hn
  rw [Cell, hn] at hc
  cases hc

theorem Cell.congr {a : Addr} {x : α} {next : Option Addr} (hc : Cell view h a x next)
    (ha : h'.blocks a = h.blocks a) : Cell view h' a x next := by
  rw [Cell, ha]
  exact hc

/-! ## Segments -/

theorem seg_append {p r : Option Addr} {ns ms : List (Addr × α)} :
    Seg view h p (ns ++ ms) r ↔ ∃ q, Seg view h p ns q ∧ Seg view h q ms r := by
  induction ns generalizing p with
  | nil => simp [Seg]
  | cons n ns ih =>
    constructor
    · rintro ⟨hp, next, hc, hs⟩
      obtain ⟨q, hq, hr⟩ := ih.mp hs
      exact ⟨q, ⟨hp, next, hc, hq⟩, hr⟩
    · rintro ⟨q, ⟨hp, next, hc, hq⟩, hr⟩
      exact ⟨hp, next, hc, ih.mpr ⟨q, hq, hr⟩⟩

theorem seg_singleton {p q : Option Addr} {a : Addr} {x : α} :
    Seg view h p [(a, x)] q ↔ p = some a ∧ Cell view h a x q := by
  simp [Seg]

theorem Seg.cell {p q : Option Addr} {ns : List (Addr × α)} (hs : Seg view h p ns q)
    {n : Addr × α} (hn : n ∈ ns) : ∃ next, Cell view h n.1 n.2 next := by
  obtain ⟨pre, post, rfl⟩ := List.append_of_mem hn
  obtain ⟨_, _, -, next, hc, -⟩ := seg_append.mp hs
  exact ⟨next, hc⟩

theorem Seg.live {p q : Option Addr} {ns : List (Addr × α)} (hs : Seg view h p ns q) {a : Addr}
    (ha : a ∈ ns.map Prod.fst) : h.blocks a ≠ none := by
  obtain ⟨n, hn, rfl⟩ := List.mem_map.mp ha
  obtain ⟨next, hc⟩ := hs.cell hn
  exact hc.live

/-- Heaps that agree on the cells of a segment both have it. -/
theorem Seg.congr {q : Option Addr} : ∀ {ns : List (Addr × α)} {p : Option Addr},
    Seg view h p ns q → (∀ a ∈ ns.map Prod.fst, h'.blocks a = h.blocks a) → Seg view h' p ns q
  | [], _, hs, _ => hs
  | (a, _) :: _, _, ⟨hp, next, hc, hs⟩, hag =>
    ⟨hp, next, hc.congr (hag a List.mem_cons_self),
      hs.congr fun b hb => hag b (List.mem_cons_of_mem _ hb)⟩

/-! ## Chains -/

theorem Chain.head_eq {p : Option Addr} {ns : List (Addr × α)} (hs : Chain view h p ns) :
    p = ns.head?.map Prod.fst := by
  cases ns with
  | nil => exact hs
  | cons n ns => exact hs.1

/-- The link of a cell in a chain is the address of the cell after it. -/
theorem Chain.cell_next {p : Option Addr} {pre post : List (Addr × α)} {a : Addr} {x : α}
    (hs : Chain view h p (pre ++ (a, x) :: post)) :
    Cell view h a x (post.head?.map Prod.fst) := by
  obtain ⟨_, -, -, next, hc, hpost⟩ := seg_append.mp hs
  rw [← Chain.head_eq hpost]
  exact hc

/-- A heap has one chain at most from a pointer on. -/
theorem Chain.unique : ∀ {ns ms : List (Addr × α)} {p : Option Addr},
    Chain view h p ns → Chain view h p ms → ns = ms
  | [], [], _, _, _ => rfl
  | [], (b, y) :: ms, p, hns, hms => by
    have hp : p = none := hns
    rw [hp] at hms
    cases hms.1
  | (a, x) :: ns, [], p, hns, hms => by
    have hp : p = none := hms
    rw [hp] at hns
    cases hns.1
  | (a, x) :: ns, (b, y) :: ms, p, ⟨hpa, next, hc, hns⟩, ⟨hpb, next', hc', hms⟩ => by
    rw [hpa, Option.some.injEq] at hpb
    subst hpb
    obtain ⟨rfl, rfl⟩ := hc.unique hc'
    rw [Chain.unique hns hms]

/-- **A chain has no cycle**: a second visit to a cell would have to end where the first one did. -/
theorem Chain.nodup : ∀ {ns : List (Addr × α)} {p : Option Addr},
    Chain view h p ns → (ns.map Prod.fst).Nodup
  | [], _, _ => List.nodup_nil
  | (a, x) :: ns, p, hs => by
    obtain ⟨hp, next, hc, hns⟩ := hs
    refine List.nodup_cons.mpr ⟨?_, Chain.nodup hns⟩
    intro hmem
    obtain ⟨⟨b, y⟩, hb, rfl⟩ := List.mem_map.mp hmem
    obtain ⟨pre, post, rfl⟩ := List.append_of_mem hb
    obtain ⟨_, -, rfl, next', hc', hpost⟩ := seg_append.mp hns
    -- both visits start chains from the same link, one of them longer than the other
    have hlen := congrArg List.length (Chain.unique hns ((hc.unique hc').2 ▸ hpost))
    simp only [List.length_append, List.length_cons] at hlen
    omega

/-! ## Growing a chain -/

/-- The last cell `a` is linked to a new cell `c`; the cells before them stay as they are. -/
theorem Chain.snoc {p : Option Addr} {ns : List (Addr × α)} {a c : Addr} {x y : α}
    (hs : Chain view h p (ns ++ [(a, x)])) (hsame : ∀ b ∈ ns.map Prod.fst, h'.blocks b = h.blocks b)
    (ha : Cell view h' a x (some c)) (hc : Cell view h' c y none) :
    Chain view h' p (ns ++ [(a, x)] ++ [(c, y)]) := by
  obtain ⟨q, hq, hl⟩ := seg_append.mp hs
  obtain ⟨rfl, -⟩ := seg_singleton.mp hl
  refine seg_append.mpr ⟨some c, ?_, seg_singleton.mpr ⟨rfl, hc⟩⟩
  exact seg_append.mpr ⟨some a, hq.congr hsame, seg_singleton.mpr ⟨rfl, ha⟩⟩

/-- An allocated cell with a null link is a chain. -/
theorem Chain.first {b : β} {y : α} (hb : view b = some (y, none)) :
    Chain view (h.alloc true b).1 (some h.calls) [(h.calls, y)] := by
  refine seg_singleton.mpr ⟨rfl, ?_⟩
  rw [Cell, Heap.alloc_true]
  simpa using hb

/-- A cell is allocated and the last cell of the chain is linked to it. -/
theorem Chain.append {p : Option Addr} {ns : List (Addr × α)} {a : Addr} {x y : α} {b b' : β}
    (hs : Chain view h p (ns ++ [(a, x)])) (hnew : h.blocks h.calls = none)
    (hb : view b = some (y, none)) (hb' : view b' = some (x, some h.calls)) :
    Chain view ((h.alloc true b).1.store a b') p (ns ++ [(a, x)] ++ [(h.calls, y)]) := by
  have hne : ∀ c ∈ (ns ++ [(a, x)]).map Prod.fst, c ≠ h.calls := by
    rintro c hc rfl
    exact hs.live hc hnew
  have hac : a ≠ h.calls := hne a (by simp)
  refine hs.snoc ?_ ?_ ?_
  · intro c hc
    have hca : c ≠ a := by
      rintro rfl
      have hnd := Chain.nodup hs
      rw [List.map_append, List.nodup_append'] at hnd
      exact hnd.2.2 hc (by simp)
    have hcn : c ≠ h.calls := hne c (by rw [List.map_append]; exact List.mem_append_left _ hc)
    rw [Heap.alloc_true, Heap.store]
    simp only
    rw [Function.update_of_ne hca, Function.update_of_ne hcn]
  · rw [Cell, Heap.store]
    simpa using hb'
  · rw [Cell, Heap.alloc_true, Heap.store]
    simp only
    rw [Function.update_of_ne hac.symm, Function.update_self]
    exact hb

end Lib
