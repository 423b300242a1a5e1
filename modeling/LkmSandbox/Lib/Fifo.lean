import LkmSandbox.Lib.Run
import Mathlib.Data.List.Range
import Mathlib.Data.Nat.ModEq
import Mathlib.Logic.Function.Basic

/-!
# Bounded queues

* `Fifo` — a queue of bounded capacity. A write to a full queue is discarded, and a read of an empty
  one gives a fixed answer.
* `Fifo.conserved` — whatever the run, the values taken in are those given out followed by those
  still held
* `window` — the items of a circular array, oldest first; how it moves when a cell is written at its
  end (`window_write`) and when it loses its first cell (`window_succ`), and how windows are put
  together (`window_append`)
-/

namespace Lib

variable {α : Type}

/-- At most `cap` items, the oldest first. -/
structure Fifo (α : Type) (cap : Nat) where
  items : List α
  bounded : items.length ≤ cap

namespace Fifo

variable {cap : Nat}

def empty : Fifo α cap := ⟨[], Nat.zero_le _⟩

inductive Op (α : Type) where
  | read
  | write (value : α)

theorem length_append_singleton_le {items : List α} (h : items.length < cap) (value : α) :
    (items ++ [value]).length ≤ cap := by
  rw [List.length_append, List.length_singleton]
  exact h

/-- Put a value in, where there is room. -/
def write (q : Fifo α cap) (value : α) : Fifo α cap :=
  if h : q.items.length < cap then ⟨q.items ++ [value], length_append_singleton_le h value⟩ else q

/-- Take the oldest value out; an empty queue answers `e`. -/
def read (e : α) (q : Fifo α cap) : Fifo α cap × α :=
  match q with
  | ⟨[], h⟩ => (⟨[], h⟩, e)
  | ⟨a :: as, h⟩ => (⟨as, Nat.le_of_succ_le h⟩, a)

/-- One operation. Only a read has an answer. -/
def step (e : α) (q : Fifo α cap) : Op α → Fifo α cap × Option α
  | .read => ((q.read e).1, some (q.read e).2)
  | .write value => (q.write value, none)

/-- The values that a run of operations takes in. -/
def accepted (e : α) (q : Fifo α cap) : List (Op α) → List α
  | [] => []
  | .read :: ops => accepted e (q.step e .read).1 ops
  | .write value :: ops =>
    (if q.items.length < cap then [value] else []) ++ accepted e (q.step e (.write value)).1 ops

/-- The values that a run of operations gives out: answers of an empty queue are not among them. -/
def removed (e : α) (q : Fifo α cap) : List (Op α) → List α
  | [] => []
  | .read :: ops => q.items.head?.toList ++ removed e (q.step e .read).1 ops
  | .write value :: ops => removed e (q.step e (.write value)).1 ops

theorem write_items_of_room {q : Fifo α cap} (h : q.items.length < cap) (value : α) :
    (q.write value).items = q.items ++ [value] := by
  unfold write
  rw [dif_pos h]

theorem write_of_full {q : Fifo α cap} (h : ¬ q.items.length < cap) (value : α) :
    q.write value = q := by
  unfold write
  rw [dif_neg h]

theorem head?_append_read (e : α) (q : Fifo α cap) :
    q.items.head?.toList ++ (q.read e).1.items = q.items := by
  obtain ⟨items, h⟩ := q
  cases items with
  | nil => rfl
  | cons a as => rfl

/-- **Nothing is lost, doubled or reordered.** -/
theorem conserved (e : α) (ops : List (Op α)) (q : Fifo α cap) :
    q.items ++ q.accepted e ops = q.removed e ops ++ (run (step e) q ops).1.items := by
  induction ops generalizing q with
  | nil => simp [accepted, removed, run]
  | cons op ops ih =>
    cases op with
    | read =>
      have hrest := ih (q.read e).1
      show q.items ++ (q.read e).1.accepted e ops = _ ++ (q.read e).1.removed e ops ++ _
      rw [List.append_assoc]
      show _ = _ ++ (_ ++ (run (step e) (q.read e).1 ops).1.items)
      rw [← hrest, ← List.append_assoc, head?_append_read]
    | write value =>
      have hrest := ih (q.write value)
      show q.items ++ (_ ++ (q.write value).accepted e ops) = (q.write value).removed e ops ++
        (run (step e) (q.write value) ops).1.items
      rw [← hrest, ← List.append_assoc]
      congr 1
      by_cases h : q.items.length < cap
      · rw [if_pos h, write_items_of_room h]
      · rw [if_neg h, write_of_full h, List.append_nil]

end Fifo

/-! ## Circular arrays -/

/-- The `n` cells from `head` on, in an array of `cap` cells whose last is followed by its first. -/
def window (cell : Nat → α) (cap head n : Nat) : List α :=
  (List.range n).map fun i => cell ((head + i) % cap)

variable {cell : Nat → α} {cap head n : Nat}

@[simp] theorem window_length : (window cell cap head n).length = n := by
  simp [window]

/-- Losing the first cell. -/
theorem window_succ :
    window cell cap head (n + 1) = cell (head % cap) :: window cell cap (head + 1) n := by
  unfold window
  rw [List.range_succ_eq_map, List.map_cons, List.map_map]
  simp only [Function.comp_def, Nat.succ_eq_add_one, Nat.add_zero]
  congr 1
  exact List.map_congr_left fun i _ => by rw [show head + (i + 1) = head + 1 + i by omega]

/-- It does not matter how often the head has come round. -/
theorem window_mod : window cell cap (head % cap) n = window cell cap head n := by
  unfold window
  simp only [Nat.mod_add_mod]

/-- A window in two parts. -/
theorem window_append {m : Nat} :
    window cell cap head (n + m) = window cell cap head n ++ window cell cap (head + n) m := by
  unfold window
  rw [List.range_add, List.map_append, List.map_map]
  simp only [Function.comp_def, Nat.add_assoc]

/-- A window that does not come round is a part of the list that the cells hold. -/
theorem window_eq_take_drop {l : List α} {e : α} (h : head + n ≤ l.length) :
    window (fun i => l.getD i e) l.length head n = (l.drop head).take n := by
  refine List.ext_getElem (by simp; omega) ?_
  intro i h₁ h₂
  rw [window_length] at h₁
  have hi : head + i < l.length := by omega
  simp [window, Nat.mod_eq_of_lt hi, hi]

/-- Fewer than `cap` steps do not come back to the same cell. -/
theorem add_mod_ne {i : Nat} (hi : i < n) (hn : n < cap) : (head + i) % cap ≠ (head + n) % cap := by
  intro h
  have hmod : i % cap = n % cap := Nat.ModEq.add_left_cancel' head h
  rw [Nat.mod_eq_of_lt (by omega), Nat.mod_eq_of_lt hn] at hmod
  omega

/-- Writing the cell after the last adds it to the window. -/
theorem window_write (hn : n < cap) (value : α) :
    window (Function.update cell ((head + n) % cap) value) cap head (n + 1)
      = window cell cap head n ++ [value] := by
  unfold window
  rw [List.range_succ, List.map_append, List.map_singleton, Function.update_self]
  congr 1
  refine List.map_congr_left ?_
  intro i hi
  rw [Function.update_of_ne (add_mod_ne (List.mem_range.mp hi) hn)]

end Lib
