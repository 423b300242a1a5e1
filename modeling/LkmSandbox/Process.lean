import LkmSandbox.Lib.Decimal
import LkmSandbox.Lib.Run
import LkmSandbox.Registry
import Mathlib.Data.List.Forall2

/-!
# The process module

`lkm_process` logs the process that loads it and the process that unloads it. The line is put
together in a block of 64 bytes, which the text may not fit.

* `line_complete_iff` — when the line is logged up to its newline
* `log_identifies` — whatever is granted, nothing stays allocated, and the log tells which calls got
  no memory and which process was behind each of the others
-/

namespace LkmSandbox.Process

open Lib

/-! ## The program -/

/-- `LKM_PROCESS_OUTPUT_SIZE` -/
def lkmProcessOutputSize : Nat := 64

/-- What the module asks of `current`: its name, less the NUL that ends it, and its number. -/
structure Task where
  comm : List UInt8
  pid : Nat
  /-- `TASK_COMM_LEN` is 16, with the NUL. -/
  comm_lt : comm.length < 16
  comm_ne : 0 ∉ comm
  /-- `PID_MAX_LIMIT` -/
  pid_lt : pid < 4194304

/-- The text in front of the name. -/
def lineHead : List UInt8 := cString "lkm_process: Current process is '"

/-- The text between name and number. -/
def lineMiddle : List UInt8 := cString "' (pid "

/-- What the format `"%s: Current process is '%s' (pid %i)\n"` gives. -/
def line (current : Task) : List UInt8 :=
  lineHead ++ current.comm ++ lineMiddle ++ signed current.pid ++ cString ")\n"

/-- `snprintf`: what it stores, the NUL included, and what it returns. -/
def snprintf (size : Nat) (text : List UInt8) : List UInt8 × Int :=
  (if size = 0 then [] else text.take (size - 1) ++ [0], text.length)

/-- `get_process_information`: a block and what is in it, or `NULL`. -/
def getProcessInformation (granted : Bool) (current : Task) (r : Registry) :
    Option (Nat × List UInt8) × Registry :=
  match r.kmalloc granted with
  | (none, r) => (none, r)
  | (some buffer, r) =>
    let (stored, written) := snprintf lkmProcessOutputSize (line current)
    if written = 0 then (none, r) else (some (buffer, stored), r)

/-- `print_process_information`, and what it logs with `"%s"`: the block up to its NUL. -/
def printProcessInformation (granted : Bool) (current : Task) (r : Registry) :
    Option (List UInt8) × Registry :=
  match getProcessInformation granted current r with
  | (none, r) => (none, r)
  | (some (info, stored), r) => (some (stored.takeWhile (· ≠ 0)), r.kfree info)

/-- `lkm_process_init` -/
def lkmProcessInit (granted : Bool) (current : Task) (r : Registry) :
    Int × Option (List UInt8) × Registry := (0, printProcessInformation granted current r)

/-- `lkm_process_exit` -/
def lkmProcessExit (granted : Bool) (current : Task) (r : Registry) :
    Option (List UInt8) × Registry := printProcessInformation granted current r

/-! ## The line -/

/-- The line less its newline. -/
def body (current : Task) : List UInt8 :=
  lineHead ++ current.comm ++ lineMiddle ++ decimal current.pid ++ cString ")"

theorem line_eq (current : Task) : line current = body current ++ [10] := by
  unfold line body
  rw [signed_natCast, List.append_assoc _ (cString ")")]
  rfl

theorem body_length (current : Task) :
    (body current).length = 41 + current.comm.length + (decimal current.pid).length := by
  have hfixed : lineHead.length = 33 ∧ lineMiddle.length = 7 ∧ (cString ")").length = 1 := by
    decide
  unfold body
  simp only [List.length_append, hfixed]
  omega

theorem body_ne_nul (current : Task) : 0 ∉ body current := by
  have hfixed : 0 ∉ lineHead ∧ 0 ∉ lineMiddle ∧ 0 ∉ cString ")" := by decide
  have hdigits : 0 ∉ decimal current.pid := fun h =>
    absurd (isDigit_of_mem_decimal h) (by decide)
  unfold body
  simp only [List.mem_append, not_or]
  exact ⟨⟨⟨⟨hfixed.1, current.comm_ne⟩, hfixed.2.1⟩, hdigits⟩, hfixed.2.2⟩

/-- A number is seven digits at most, so the line is cut behind its newline's place or nowhere. -/
theorem body_length_le (current : Task) : (body current).length ≤ 63 := by
  have hcomm := current.comm_lt
  have hdigits : (decimal current.pid).length ≤ 7 :=
    (decimal_length_le_iff (by decide)).mpr (Nat.lt_trans current.pid_lt (by decide))
  rw [body_length]
  omega

/-- What is logged. -/
def logged (current : Task) : List UInt8 :=
  body current ++ ([10] : List UInt8).take (63 - (body current).length)

/-- **The block** gives back the line, or all of it but the newline. -/
theorem stored_eq (current : Task) :
    (snprintf lkmProcessOutputSize (line current)).1.takeWhile (· ≠ 0) = logged current := by
  have htake : (line current).take 63 = logged current := by
    rw [line_eq, List.take_append, List.take_of_length_le (body_length_le current)]
    rfl
  have hnul : ∀ c ∈ logged current, (decide (c ≠ 0)) = true := by
    intro c hc
    refine decide_eq_true ?_
    rintro rfl
    rcases List.mem_append.mp hc with hbody | hnl
    · exact body_ne_nul current hbody
    · exact absurd (List.mem_of_mem_take hnl) (by decide)
  show ((line current).take 63 ++ [0]).takeWhile (· ≠ 0) = _
  rw [htake, List.takeWhile_append_of_pos hnul]
  exact List.append_nil _

/-- **When the newline is logged.** Only the longest names and numbers leave no place for it. -/
theorem line_complete_iff (current : Task) :
    logged current = line current ↔ ¬ (current.comm.length = 15 ∧ 1000000 ≤ current.pid) := by
  have hcomm := current.comm_lt
  have hshort : (decimal current.pid).length ≤ 6 ↔ current.pid < 1000000 :=
    decimal_length_le_iff (by decide)
  have hlong : (decimal current.pid).length ≤ 7 :=
    (decimal_length_le_iff (by decide)).mpr (Nat.lt_trans current.pid_lt (by decide))
  have hlen := body_length current
  rw [line_eq, logged, List.append_cancel_left_eq]
  rcases Nat.lt_or_ge (body current).length 63 with hlt | hge
  · refine iff_of_true (List.take_of_length_le ?_) (by omega)
    rw [List.length_singleton]
    omega
  · rw [Nat.sub_eq_zero_of_le hge]
    exact iff_of_false (fun h => nomatch h) (by omega)

/-! ## What a line tells -/

theorem body_injective {c c' : Task} (h : body c = body c') :
    c.comm = c'.comm ∧ c.pid = c'.pid := by
  have hlast : ∀ comm : List UInt8, ∀ x ∈ (lineHead ++ comm ++ lineMiddle).getLast?,
      isDigit x = false := by
    intro comm x hx
    rw [List.getLast?_append_of_ne_nil _ (by decide)] at hx
    obtain rfl : x = 32 := (Option.some.inj hx).symm
    rfl
  obtain ⟨hfront, hpid⟩ :=
    append_decimal_inj (hlast c.comm) (hlast c'.comm) (List.append_cancel_right h)
  exact ⟨List.append_cancel_left (List.append_cancel_right hfront), hpid⟩

theorem logged_eq_body_or (c : Task) : logged c = body c ∨ logged c = body c ++ [10] := by
  unfold logged
  rcases Nat.eq_zero_or_pos (63 - (body c).length) with hzero | hpos
  · rw [hzero]
    exact Or.inl (List.append_nil _)
  · rw [List.take_of_length_le (Nat.succ_le_of_lt hpos)]
    exact Or.inr rfl

/-- A line is not another one with a newline behind it. -/
theorem body_ne_append (c c' : Task) : body c ≠ body c' ++ [10] := by
  intro h
  have hlast := congrArg List.getLast? h
  unfold body at hlast
  rw [List.getLast?_append_of_ne_nil _ (by decide), List.getLast?_append_of_ne_nil _ (by decide)]
    at hlast
  exact absurd hlast (by decide)

theorem logged_injective {c c' : Task} (h : logged c = logged c') :
    c.comm = c'.comm ∧ c.pid = c'.pid := by
  rcases logged_eq_body_or c with hc | hc <;> rcases logged_eq_body_or c' with hc' | hc' <;>
    rw [hc, hc'] at h
  · exact body_injective h
  · exact absurd h (body_ne_append c c')
  · exact absurd h.symm (body_ne_append c' c)
  · exact body_injective (List.append_cancel_right h)

/-! ## The log -/

/-- A load or an unload: the process that asks for it, and whether there is memory. -/
structure Call where
  load : Bool
  current : Task
  granted : Bool

/-- The module comes or goes. -/
def step (r : Registry) (call : Call) : Registry × Option (List UInt8) :=
  if call.load then
    let (_, line, r) := lkmProcessInit call.granted call.current r
    (r, line)
  else
    let (line, r) := lkmProcessExit call.granted call.current r
    (r, line)

/-- What a call logs: a line, or `none` for the warnings that there is no memory. -/
def Call.logged (call : Call) : Option (List UInt8) :=
  if call.granted then some (Process.logged call.current) else none

/-- There was no memory for either, or there was for both and the same process is behind them. -/
def Call.Alike (call call' : Call) : Prop :=
  call.granted = call'.granted ∧
    (call.granted = true →
      call.current.comm = call'.current.comm ∧ call.current.pid = call'.current.pid)

/-- The block is freed once the line is logged. -/
theorem printProcessInformation_eq (granted : Bool) (current : Task) (r : Registry) :
    printProcessInformation granted current r
      = (if granted then some (logged current) else none, r) := by
  cases granted with
  | false => rfl
  | true =>
    have hwritten : ¬ ((line current).length : Int) = 0 := by
      rw [line_eq, List.length_append, List.length_singleton]
      omega
    have hreturned : (snprintf lkmProcessOutputSize (line current)).2 = (line current).length := rfl
    unfold printProcessInformation getProcessInformation Registry.kmalloc
    simp only [if_true]
    rw [hreturned, if_neg hwritten]
    simp only [Registry.kfree, List.erase_cons_head, stored_eq]

theorem step_eq (r : Registry) (call : Call) : step r call = (r, call.logged) := by
  unfold step lkmProcessInit lkmProcessExit
  rw [printProcessInformation_eq]
  split <;> rfl

theorem run_eq (r : Registry) (calls : List Call) :
    run step r calls = (r, calls.map Call.logged) := by
  induction calls with
  | nil => rfl
  | cons call calls ih => rw [run, step_eq, ih, List.map_cons]

theorem logged_eq_iff (call call' : Call) : call.logged = call'.logged ↔ call.Alike call' := by
  obtain ⟨_, c, granted⟩ := call
  obtain ⟨_, c', granted'⟩ := call'
  unfold Call.logged Call.Alike
  cases granted <;> cases granted'
  · simp
  · simp
  · simp
  · simp only [if_true, Option.some.injEq, true_and, forall_const]
    constructor
    · exact logged_injective
    · rintro ⟨hcomm, hpid⟩
      unfold Process.logged body
      rw [hcomm, hpid]

/--
**What the log tells.** After any loads and unloads, by any processes and with memory or without,
the kernel holds what it held before. Two such histories have the same log iff there are as many
calls in both, the same of them found no memory, and the same processes are behind the others.
-/
theorem log_identifies (r r' : Registry) (calls calls' : List Call) :
    (run step r calls).1 = r ∧
      ((run step r calls).2 = (run step r' calls').2 ↔ List.Forall₂ Call.Alike calls calls') := by
  rw [run_eq, run_eq]
  refine ⟨rfl, ?_⟩
  show calls.map Call.logged = calls'.map Call.logged ↔ _
  rw [← List.forall₂_eq_eq_eq, List.forall₂_map_left_iff, List.forall₂_map_right_iff]
  simp only [logged_eq_iff]

end LkmSandbox.Process
