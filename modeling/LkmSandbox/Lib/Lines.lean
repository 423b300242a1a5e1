import Mathlib.Algebra.Ring.Nat
import Mathlib.Data.List.Basic
import Mathlib.Data.List.Count

/-!
# Lines

A text in which a separator ends each line. What is behind the last separator is not a line yet.

* `lines_append` — the lines of a text that is added to another one
* `lines_writeLines_iff` — when what is read of lines that have been added is what was written
-/

namespace Lib

variable {α : Type}

/-- The text of lines. -/
def writeLines (sep : α) (ls : List (List α)) : List α := ls.flatMap (· ++ [sep])

/-- Nothing is behind the last separator. -/
def EndsLine (sep : α) (text : List α) : Prop := ∀ c ∈ text.getLast?, c = sep

theorem writeLines_cons (sep : α) (l : List α) (ls : List (List α)) :
    writeLines sep (l :: ls) = l ++ sep :: writeLines sep ls := by
  unfold writeLines
  rw [List.flatMap_cons, List.append_assoc, List.singleton_append]

variable [DecidableEq α]

/-- The lines of a text, the first of which has begun with `begun`. -/
def linesFrom (sep : α) : List α → List α → List (List α)
  | _, [] => []
  | begun, c :: cs =>
    if c = sep then begun :: linesFrom sep [] cs else linesFrom sep (begun ++ [c]) cs

/-- What is behind the last separator, of a text whose first line has begun with `begun`. -/
def lineLeft (sep : α) : List α → List α → List α
  | begun, [] => begun
  | begun, c :: cs => if c = sep then lineLeft sep [] cs else lineLeft sep (begun ++ [c]) cs

def lines (sep : α) (text : List α) : List (List α) := linesFrom sep [] text

variable {sep : α}

theorem linesFrom_append : ∀ (begun xs ys : List α),
    linesFrom sep begun (xs ++ ys)
      = linesFrom sep begun xs ++ linesFrom sep (lineLeft sep begun xs) ys
  | _, [], _ => rfl
  | begun, c :: xs, ys => by
    rw [List.cons_append, linesFrom, linesFrom, lineLeft]
    split
    · rw [linesFrom_append [] xs ys, List.cons_append]
    · exact linesFrom_append (begun ++ [c]) xs ys

theorem lineLeft_append : ∀ (begun xs ys : List α),
    lineLeft sep begun (xs ++ ys) = lineLeft sep (lineLeft sep begun xs) ys
  | _, [], _ => rfl
  | begun, c :: xs, ys => by
    rw [List.cons_append, lineLeft, lineLeft]
    split
    · exact lineLeft_append [] xs ys
    · exact lineLeft_append (begun ++ [c]) xs ys

/-- **Adding to a text.** What is left of its last line is the beginning of the next. -/
theorem lines_append (xs ys : List α) :
    lines sep (xs ++ ys) = lines sep xs ++ linesFrom sep (lineLeft sep [] xs) ys :=
  linesFrom_append [] xs ys

/-- A line without the separator goes on from what has begun. -/
theorem linesFrom_line : ∀ (begun : List α) {l : List α}, sep ∉ l → ∀ rest : List α,
    linesFrom sep begun (l ++ sep :: rest) = (begun ++ l) :: linesFrom sep [] rest
  | begun, [], _, rest => by rw [List.nil_append, linesFrom, if_pos rfl, List.append_nil]
  | begun, c :: l, hl, rest => by
    obtain ⟨hc, hl⟩ := not_or.mp (List.mem_cons.not.mp hl)
    rw [List.cons_append, linesFrom, if_neg (Ne.symm hc), linesFrom_line (begun ++ [c]) hl rest,
      List.append_assoc, List.singleton_append]

/-- Each separator ends a line. -/
theorem linesFrom_length : ∀ begun xs : List α, (linesFrom sep begun xs).length = xs.count sep
  | _, [] => rfl
  | begun, c :: xs => by
    rw [linesFrom]
    by_cases hc : c = sep
    · rw [if_pos hc, hc, List.count_cons_self, List.length_cons, linesFrom_length [] xs]
    · rw [if_neg hc, List.count_cons_of_ne hc, linesFrom_length (begun ++ [c]) xs]

theorem lineLeft_eq_nil_iff (xs : List α) : lineLeft sep [] xs = [] ↔ EndsLine sep xs := by
  unfold EndsLine
  rcases List.eq_nil_or_concat xs with rfl | ⟨xs, c, rfl⟩
  · exact iff_of_true rfl fun c hc => nomatch hc
  · rw [List.concat_eq_append, lineLeft_append, lineLeft, List.getLast?_append_of_ne_nil _
      (List.cons_ne_nil _ _)]
    by_cases hc : c = sep
    · rw [if_pos hc]
      refine iff_of_true rfl ?_
      intro x hx
      rw [← hc]
      exact (Option.some.inj hx).symm
    · rw [if_neg hc]
      exact iff_of_false (List.append_ne_nil_of_right_ne_nil _ (List.cons_ne_nil _ _))
        fun h => hc (h c rfl)

theorem writeLines_count (ls : List (List α)) :
    (writeLines sep ls).count sep = (ls.map (List.count sep)).sum + ls.length := by
  induction ls with
  | nil => rfl
  | cons l ls ih =>
    rw [writeLines_cons, List.count_append, List.count_cons_self, ih, List.map_cons, List.sum_cons,
      List.length_cons]
    omega

theorem linesFrom_writeLines : ∀ {ls : List (List α)}, (∀ l ∈ ls, sep ∉ l) →
    linesFrom sep [] (writeLines sep ls) = ls
  | [], _ => rfl
  | l :: ls, h => by
    obtain ⟨hl, hls⟩ := List.forall_mem_cons.mp h
    rw [writeLines_cons, linesFrom_line [] hl, linesFrom_writeLines hls, List.nil_append]

/--
**Lines that have been added.** They are read as they were written iff the text they were added to
ends a line, and no separator is in them.
-/
theorem lines_writeLines_iff (text : List α) {ls : List (List α)} (hne : ls ≠ []) :
    lines sep (text ++ writeLines sep ls) = lines sep text ++ ls
      ↔ EndsLine sep text ∧ ∀ l ∈ ls, sep ∉ l := by
  rw [lines_append, List.append_cancel_left_eq, ← lineLeft_eq_nil_iff]
  constructor
  · intro heq
    have hlen := congrArg List.length heq
    rw [linesFrom_length, writeLines_count] at hlen
    have hzero : (ls.map (List.count sep)).sum = 0 := by omega
    have hsep : ∀ l ∈ ls, sep ∉ l := fun l hl =>
      List.count_eq_zero.mp
        (List.sum_eq_zero_iff_forall_eq_nat.mp hzero _ (List.mem_map_of_mem hl))
    refine ⟨?_, hsep⟩
    obtain ⟨l, ls, rfl⟩ := List.exists_cons_of_ne_nil hne
    rw [writeLines_cons, linesFrom_line _ (hsep l List.mem_cons_self)] at heq
    exact List.append_left_eq_self.mp (List.cons.inj heq).1
  · rintro ⟨hends, hsep⟩
    rw [hends]
    exact linesFrom_writeLines hsep

end Lib
