import LkmSandbox.Lib.Run
import Mathlib.Algebra.Order.BigOperators.Group.List
import Mathlib.Algebra.Order.Ring.Nat

/-!
# Tasks and I/O ports

A task may access the ports it has the permission for. What permissions a task begins with, and what
a call of one task does to the others of its process, is up to the kernel, and kernels differ in it.

* `Prog` — what a program does about tasks and ports
* `run_safe` — where every access is permitted by what its own task has asked for, or has from its
  creator, no process is killed, however the tasks are scheduled
* `run_length_le` — no run goes on for ever
-/

namespace LkmSandbox.IoPorts

open Lib

/-! ## Permissions -/

structure Permissions where
  level : Nat
  ports : Nat → Bool

namespace Permissions

def empty : Permissions := { level := 0, ports := fun _ => false }

/-- `iopl` -/
def iopl (level : Nat) (p : Permissions) : Permissions := { p with level }

/-- `ioperm` -/
def ioperm (start num : Nat) (turnOn : Bool) (p : Permissions) : Permissions :=
  { p with ports := fun port => if start ≤ port ∧ port < start + num then turnOn else p.ports port }

/-- `inb` and `outb` are let through. -/
def Allow (p : Permissions) (port : Nat) : Prop := p.level = 3 ∨ p.ports port = true

instance (p : Permissions) (port : Nat) : Decidable (p.Allow port) :=
  inferInstanceAs (Decidable (_ ∨ _))

end Permissions

/-- The ways to create a task, or to put another program in its place. -/
inductive Creation where
  | clone
  | fork
  | pthread
  | execve
  deriving DecidableEq

/-- What the kernel does with permissions. -/
structure Kernel where
  /-- what the new task or program begins with, from what its creator had -/
  inherit : Creation → Permissions → Permissions
  /-- what a call that has this effect on its own task makes of another task of the process -/
  share : (Permissions → Permissions) → Permissions → Permissions

/-- Permissions are a matter of the single thread. -/
def Kernel.PerThread (kernel : Kernel) : Prop := ∀ effect p, kernel.share effect p = p

/-! ## Programs -/

/-- What a program does next. The calls in it have succeeded. -/
inductive Prog where
  /-- the end of `main` or of a thread -/
  | ret (retval : Int)
  | iopl (level : Nat) (next : Prog)
  | ioperm (start num : Nat) (turnOn : Bool) (next : Prog)
  /-- `inb` or `outb` -/
  | access (port : Nat) (next : Prog)
  /-- `pthread_create`: a task of the same process -/
  | thread (func : Prog) (next : Prog)
  /-- `fork` or `clone`: a task with a process of its own -/
  | process (how : Creation) (child : Prog) (next : Prog)
  | execve (target : Prog)
  /-- `pthread_join`, on the task with this number -/
  | join (task : Nat) (next : Prog)
  /-- a call without a defined behaviour -/
  | undefined

structure Task where
  permissions : Permissions
  prog : Prog

/-- A process: its tasks, the one that runs `main` first, or how it ended. -/
inductive Process where
  | running (tasks : List Task)
  | exited (retval : Int)
  /-- by `SIGSEGV`, for an access of this task -/
  | killed (task : Nat)
  /-- nothing can be said of it -/
  | undefined

/-- Task `i` goes on with other permissions. -/
def regrant (kernel : Kernel) (tasks : List Task) (i : Nat) (t : Task)
    (effect : Permissions → Permissions) (next : Prog) : List Task :=
  (tasks.map fun t' => ⟨kernel.share effect t'.permissions, t'.prog⟩).set i
    ⟨effect t.permissions, next⟩

/-- One step of a task: the process after it, and the process it has created. -/
def Task.step (kernel : Kernel) (tasks : List Task) (i : Nat) (t : Task) :
    Option (Process × List Process) :=
  match t.prog with
  -- a thread that has ended stays; where `main` returns the whole process ends
  | .ret retval => if i = 0 then some (.exited retval, []) else none
  | .iopl level next =>
    some (.running (regrant kernel tasks i t (Permissions.iopl level) next), [])
  | .ioperm start num turnOn next =>
    some (.running (regrant kernel tasks i t (Permissions.ioperm start num turnOn) next), [])
  | .access port next =>
    if t.permissions.Allow port then some (.running (tasks.set i ⟨t.permissions, next⟩), [])
    else some (.killed i, [])
  | .thread func next =>
    some (.running (tasks.set i ⟨t.permissions, next⟩
      ++ [⟨kernel.inherit .pthread t.permissions, func⟩]), [])
  | .process how child next =>
    some (.running (tasks.set i ⟨t.permissions, next⟩),
      [.running [⟨kernel.inherit how t.permissions, child⟩]])
  | .execve target => some (.running [⟨kernel.inherit .execve t.permissions, target⟩], [])
  | .join j next =>
    match tasks[j]? with
    | some ⟨_, .ret _⟩ => some (.running (tasks.set i ⟨t.permissions, next⟩), [])
    | _ => none
  | .undefined => some (.undefined, [])

/-- All processes. -/
abbrev Machine := List Process

/-- Task `i` of process `p` takes a step. -/
def Machine.step (kernel : Kernel) (m : Machine) (p i : Nat) : Option Machine :=
  match m[p]? with
  | some (.running tasks) =>
    match tasks[i]? with
    | some t => (t.step kernel tasks i).map fun (process, created) => m.set p process ++ created
    | none => none
  | _ => none

/-- A program is started, without permissions. -/
def Machine.start (main : Prog) : Machine := [.running [⟨.empty, main⟩]]

/-- A run of `main`, given by the process and the task that take each step. -/
def Run (kernel : Kernel) (main : Prog) (schedule : List (Nat × Nat)) (m : Machine) : Prop :=
  Path (fun m (who : Nat × Nat) m' => m.step kernel who.1 who.2 = some m') (.start main) schedule m

/-! ## What is safe -/

/-- It changes no permissions of its process. -/
def Prog.Quiet : Prog → Prop
  | .ret _ => True
  | .iopl _ _ => False
  | .ioperm _ _ _ _ => False
  | .access _ next => next.Quiet
  | .thread func next => func.Quiet ∧ next.Quiet
  | .process _ _ next => next.Quiet
  | .execve _ => True
  | .join _ next => next.Quiet
  | .undefined => True

/--
Every access is permitted, whichever task makes it. A process with several tasks asks for nothing,
so it does not matter what the others would have of it.
-/
def Prog.Safe (kernel : Kernel) : Permissions → Prog → Prop
  | _, .ret _ => True
  | p, .iopl level next => next.Safe kernel (p.iopl level)
  | p, .ioperm start num turnOn next => next.Safe kernel (p.ioperm start num turnOn)
  | p, .access port next => p.Allow port ∧ next.Safe kernel p
  | p, .thread func next =>
    func.Safe kernel (kernel.inherit .pthread p) ∧ next.Safe kernel p ∧ func.Quiet ∧ next.Quiet
  | p, .process how child next =>
    child.Safe kernel (kernel.inherit how p) ∧ next.Safe kernel p
  | p, .execve target => target.Safe kernel (kernel.inherit .execve p)
  | p, .join _ next => next.Safe kernel p
  | _, .undefined => True

/-- No task has an unpermitted access before it, and none was killed for one. -/
def Process.Safe (kernel : Kernel) : Process → Prop
  | .running tasks => (∀ t ∈ tasks, t.prog.Safe kernel t.permissions) ∧
      (tasks.length = 1 ∨ ∀ t ∈ tasks, t.prog.Quiet)
  | .exited _ => True
  | .killed _ => False
  | .undefined => True

section Safe

variable {kernel : Kernel} {tasks : List Task} {i : Nat} {t : Task} {next : Prog}

theorem forall_set {Q : Task → Prop} (h : ∀ t ∈ tasks, Q t) (i : Nat) (t' : Task) (ht' : Q t') :
    ∀ t ∈ tasks.set i t', Q t := by
  intro t ht
  rcases List.mem_or_eq_of_mem_set ht with ht | rfl
  · exact h t ht
  · exact ht'

theorem Process.Safe.one {p : Permissions} (h : next.Safe kernel p) :
    (running [⟨p, next⟩]).Safe kernel := by
  refine ⟨?_, .inl rfl⟩
  intro t ht
  rw [List.mem_singleton.mp ht]
  exact h

/-- A task goes on with its permissions. -/
theorem Process.Safe.set (h : (running tasks).Safe kernel) (ht : tasks[i]? = some t)
    (hsafe : next.Safe kernel t.permissions) (hquiet : t.prog.Quiet → next.Quiet) :
    (running (tasks.set i ⟨t.permissions, next⟩)).Safe kernel := by
  refine ⟨forall_set h.1 i _ hsafe, ?_⟩
  rcases h.2 with hone | hall
  · rw [List.length_set]
    exact .inl hone
  · exact .inr (forall_set hall i _ (hquiet (hall t (List.mem_of_getElem? ht))))

/-- A task that is not quiet is alone in its process. -/
theorem Process.Safe.regrant (h : (running tasks).Safe kernel) (ht : tasks[i]? = some t)
    (hloud : ¬ t.prog.Quiet) {effect : Permissions → Permissions}
    (hsafe : next.Safe kernel (effect t.permissions)) :
    (running (regrant kernel tasks i t effect next)).Safe kernel := by
  rcases h.2 with hone | hall
  · obtain ⟨t', rfl⟩ := List.length_eq_one_iff.mp hone
    cases i with
    | zero => exact .one hsafe
    | succ i => cases ht
  · exact absurd (hall t (List.mem_of_getElem? ht)) hloud

/-- A thread is added. -/
theorem Process.Safe.thread {func : Prog} (h : (running tasks).Safe kernel)
    (ht : tasks[i]? = some t)
    (hsafe : (Prog.thread func next).Safe kernel t.permissions) :
    (running (tasks.set i ⟨t.permissions, next⟩
      ++ [⟨kernel.inherit .pthread t.permissions, func⟩])).Safe kernel := by
  obtain ⟨hfunc, hnext, hqfunc, hqnext⟩ := hsafe
  have hset : ∀ t' ∈ tasks.set i ⟨t.permissions, next⟩, t'.prog.Quiet := by
    rcases h.2 with hone | hall
    · obtain ⟨t', rfl⟩ := List.length_eq_one_iff.mp hone
      cases i with
      | zero =>
        intro t' ht'
        rw [List.mem_singleton.mp ht']
        exact hqnext
      | succ i => cases ht
    · exact forall_set hall i _ hqnext
  refine ⟨?_, .inr ?_⟩
  · intro t' ht'
    rcases List.mem_append.mp ht' with ht' | ht'
    · exact forall_set h.1 i ⟨t.permissions, next⟩ hnext t' ht'
    · rw [List.mem_singleton.mp ht']
      exact hfunc
  · intro t' ht'
    rcases List.mem_append.mp ht' with ht' | ht'
    · exact hset t' ht'
    · rw [List.mem_singleton.mp ht']
      exact hqfunc

/-- A step of a safe task leads to safe processes. -/
theorem Task.step_safe {process : Process} {created : List Process}
    (h : (Process.running tasks).Safe kernel) (ht : tasks[i]? = some t)
    (hstep : t.step kernel tasks i = some (process, created)) :
    process.Safe kernel ∧ ∀ p ∈ created, p.Safe kernel := by
  have hsafe := h.1 t (List.mem_of_getElem? ht)
  obtain ⟨permissions, prog⟩ := t
  cases prog with
  | ret retval =>
    simp only [Task.step] at hstep
    split at hstep
    · cases hstep
      exact ⟨trivial, by simp⟩
    · cases hstep
  | iopl level next =>
    cases hstep
    exact ⟨h.regrant ht not_false hsafe, by simp⟩
  | ioperm start num turnOn next =>
    cases hstep
    exact ⟨h.regrant ht not_false hsafe, by simp⟩
  | access port next =>
    simp only [Task.step, if_pos hsafe.1] at hstep
    cases hstep
    exact ⟨h.set ht hsafe.2 id, by simp⟩
  | thread func next =>
    cases hstep
    exact ⟨h.thread ht hsafe, by simp⟩
  | process how child next =>
    cases hstep
    refine ⟨h.set ht hsafe.2 id, ?_⟩
    intro p hp
    rw [List.mem_singleton.mp hp]
    exact .one hsafe.1
  | execve target =>
    cases hstep
    exact ⟨.one hsafe, by simp⟩
  | join j next =>
    simp only [Task.step] at hstep
    split at hstep
    · cases hstep
      exact ⟨h.set ht hsafe id, by simp⟩
    · cases hstep
  | undefined =>
    cases hstep
    exact ⟨trivial, by simp⟩

/-- What a step of a machine is. -/
theorem Machine.step_cases {m m' : Machine} {p i : Nat} (h : m.step kernel p i = some m') :
    ∃ tasks t process created, m[p]? = some (.running tasks) ∧ tasks[i]? = some t ∧
      t.step kernel tasks i = some (process, created) ∧ m' = m.set p process ++ created := by
  unfold Machine.step at h
  split at h
  · next tasks hp =>
    split at h
    · next t ht =>
      obtain ⟨⟨process, created⟩, hstep, rfl⟩ := Option.map_eq_some_iff.mp h
      exact ⟨tasks, t, process, created, hp, ht, hstep, rfl⟩
    · cases h
  · cases h

theorem Machine.step_safe {m m' : Machine} {p i : Nat} (h : ∀ q ∈ m, Process.Safe kernel q)
    (hstep : m.step kernel p i = some m') : ∀ q ∈ m', Process.Safe kernel q := by
  obtain ⟨tasks, t, process, created, hp, ht, hone, rfl⟩ := Machine.step_cases hstep
  obtain ⟨hprocess, hcreated⟩ := Task.step_safe (h _ (List.mem_of_getElem? hp)) ht hone
  intro q hq
  rcases List.mem_append.mp hq with hq | hq
  · rcases List.mem_or_eq_of_mem_set hq with hq | rfl
    · exact h q hq
    · exact hprocess
  · exact hcreated q hq

/-- **A safe program is safe however it is scheduled.** -/
theorem run_safe {main : Prog} (hsafe : main.Safe kernel .empty) {schedule : List (Nat × Nat)}
    {m : Machine} (h : Run kernel main schedule m) : ∀ q ∈ m, Process.Safe kernel q := by
  refine h.invariant (fun hs hstep => Machine.step_safe hs hstep) ?_
  intro q hq
  rw [List.mem_singleton.mp hq]
  exact .one hsafe

end Safe

/-! ## Runs end -/

def Prog.size : Prog → Nat
  | .ret _ => 1
  | .iopl _ next => next.size + 1
  | .ioperm _ _ _ next => next.size + 1
  | .access _ next => next.size + 1
  | .thread func next => func.size + next.size + 1
  | .process _ child next => child.size + next.size + 1
  | .execve target => target.size + 1
  | .join _ next => next.size + 1
  | .undefined => 1

def Process.size : Process → Nat
  | .running tasks => (tasks.map fun t => t.prog.size).sum
  | _ => 0

def Machine.size (m : Machine) : Nat := (m.map Process.size).sum

/-- What replaces one element of a list with a sum. -/
theorem sum_map_set {α : Type} {f : α → Nat} {xs : List α} {i : Nat} {x : α} (h : xs[i]? = some x)
    (y : α) : ((xs.set i y).map f).sum + f x = (xs.map f).sum + f y := by
  induction xs generalizing i with
  | nil => cases h
  | cons z zs ih =>
    cases i with
    | zero =>
      obtain rfl : z = x := by simpa using h
      simp only [List.set_cons_zero, List.map_cons, List.sum_cons]
      omega
    | succ i =>
      have hrest := ih (i := i) (by simpa using h)
      simp only [List.set_cons_succ, List.map_cons, List.sum_cons]
      omega

/-- A task goes on with another program. -/
theorem Process.size_set {tasks : List Task} {i : Nat} {t : Task} (ht : tasks[i]? = some t)
    (t' : Task) : (running (tasks.set i t')).size + t.prog.size
      = (running tasks).size + t'.prog.size :=
  sum_map_set (f := fun t : Task => t.prog.size) ht t'

theorem Process.size_regrant (kernel : Kernel) {tasks : List Task} {i : Nat} {t : Task}
    (ht : tasks[i]? = some t) (effect : Permissions → Permissions) (next : Prog) :
    (running (regrant kernel tasks i t effect next)).size + t.prog.size
      = (running tasks).size + next.size := by
  have hmap : (tasks.map fun t' => (⟨kernel.share effect t'.permissions, t'.prog⟩ : Task))[i]?
      = some ⟨kernel.share effect t.permissions, t.prog⟩ := by
    rw [List.getElem?_map, ht]
    rfl
  have hsize : (running (tasks.map fun t' =>
      ⟨kernel.share effect t'.permissions, t'.prog⟩)).size = (running tasks).size := by
    simp only [size, List.map_map]
    rfl
  rw [← hsize]
  exact size_set hmap ⟨effect t.permissions, next⟩

theorem Process.size_append (tasks : List Task) (t : Task) :
    (running (tasks ++ [t])).size = (running tasks).size + t.prog.size := by
  simp [Process.size]

theorem Process.size_one (t : Task) : (running [t]).size = t.prog.size := Nat.add_zero _

theorem Machine.size_one (p : Process) : Machine.size [p] = p.size := Nat.add_zero _

theorem Machine.size_nil : Machine.size [] = 0 := rfl

/-- A step leaves less to do, in the process and in what it has created. -/
theorem Task.step_size {kernel : Kernel} {tasks : List Task} {i : Nat} {t : Task}
    {process : Process} {created : List Process} (ht : tasks[i]? = some t)
    (hstep : t.step kernel tasks i = some (process, created)) :
    process.size + Machine.size created < (Process.running tasks).size := by
  have hpos : t.prog.size ≤ (Process.running tasks).size :=
    List.le_sum_of_mem (List.mem_map.mpr ⟨t, List.mem_of_getElem? ht, rfl⟩)
  obtain ⟨permissions, prog⟩ := t
  cases prog with
  | ret retval =>
    simp only [Task.step] at hstep
    split at hstep
    · cases hstep
      exact hpos
    · cases hstep
  | iopl level next =>
    cases hstep
    have h := Process.size_regrant kernel ht (Permissions.iopl level) next
    simp only [Prog.size, Machine.size_nil] at h ⊢
    omega
  | ioperm start num turnOn next =>
    cases hstep
    have h := Process.size_regrant kernel ht (Permissions.ioperm start num turnOn) next
    simp only [Prog.size, Machine.size_nil] at h ⊢
    omega
  | access port next =>
    simp only [Task.step] at hstep
    split at hstep
    · cases hstep
      have h := Process.size_set ht ⟨permissions, next⟩
      simp only [Prog.size, Machine.size_nil] at h ⊢
      omega
    · cases hstep
      exact Nat.lt_of_lt_of_le (Nat.succ_pos _) hpos
  | thread func next =>
    cases hstep
    have h := Process.size_set ht ⟨permissions, next⟩
    rw [Process.size_append]
    simp only [Prog.size, Machine.size_nil] at h ⊢
    omega
  | process how child next =>
    cases hstep
    have h := Process.size_set ht ⟨permissions, next⟩
    rw [Machine.size_one, Process.size_one]
    simp only [Prog.size] at h ⊢
    omega
  | execve target =>
    cases hstep
    rw [Process.size_one]
    exact hpos
  | join j next =>
    simp only [Task.step] at hstep
    split at hstep
    · cases hstep
      have h := Process.size_set ht ⟨permissions, next⟩
      simp only [Prog.size, Machine.size_nil] at h ⊢
      omega
    · cases hstep
  | undefined =>
    cases hstep
    exact hpos

theorem Machine.step_size {kernel : Kernel} {m m' : Machine} {p i : Nat}
    (h : m.step kernel p i = some m') : m'.size < m.size := by
  obtain ⟨tasks, t, process, created, hp, ht, hone, rfl⟩ := Machine.step_cases h
  have hless := Task.step_size ht hone
  have hset := sum_map_set (f := Process.size) hp process
  unfold Machine.size at hless ⊢
  rw [List.map_append, List.sum_append]
  omega

/-- **No run goes on for ever.** -/
theorem run_length_le {kernel : Kernel} {main : Prog} {schedule : List (Nat × Nat)} {m : Machine}
    (h : Run kernel main schedule m) : schedule.length ≤ main.size := by
  have hle := h.length_le (f := Machine.size) fun hstep => Machine.step_size hstep
  have hstart : (Machine.start main).size = main.size := by
    simp [Machine.start, Machine.size, Process.size]
  omega

end LkmSandbox.IoPorts
