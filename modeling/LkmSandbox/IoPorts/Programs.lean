import LkmSandbox.IoPorts.Tasks

/-!
# The programs that test I/O permissions

Three programs ask for permissions and access the parallel port: from the task that has asked, from
tasks it creates afterwards, and from one it has created before.

* `permissions_safe_iff` — `permissions-revisited`: whichever way the other task is created, all is
  well iff the kernel passes the permissions on that way
* `comparing_ends` — `comparing-iopl-ioperm`: where permissions are a matter of the single thread,
  every run ends by `SIGSEGV` for the thread that was there first, unless they are refused
-/

namespace LkmSandbox.IoPorts

open Lib

/-- `PORT` -/
def port : Nat := 0x378

/-- What the calls answer. `pthread k` is whether `pthread_create` succeeds after `k` others. -/
structure Answers where
  iopl : Int
  ioperm : Int
  malloc : Bool
  clone : Bool
  fork : Bool
  execve : Bool
  pthread : Nat → Bool

/-- A call that takes effect where it returns 0. -/
def call (retval : Int) (effect : Prog → Prog) (next : Int → Prog) : Prog :=
  if retval = 0 then effect (next retval) else next retval

/-- `pthread_create`, where nobody looks at what it returns. -/
def pthreadCreate (succeeds : Bool) (func next : Prog) : Prog :=
  if succeeds then .thread func next else next

/-- `pthread_join` on what a `pthread_create` was to fill in. -/
def pthreadJoin (succeeded : Bool) (task : Nat) (next : Prog) : Prog :=
  if succeeded then .join task next else .undefined

/-! ## `io_ports.c` -/

/-- `main` of `io_ports`, given what its two `ioperm` return. -/
def ioPortsMain (on off : Int) : Prog :=
  call on (.ioperm port 3 true) fun retval =>
    if retval ≠ 0 then .ret retval
    else .access port <| .access (port + 1) <|
      call off (.ioperm port 3 false) fun retval => .ret retval

/-! ## `permissions-revisited.c` -/

/-- `get_permissions` -/
def getPermissions (answers : Answers) (method : String) (next : Int → Prog) : Prog :=
  if method = "iopl" then call answers.iopl (.iopl 3) next
  else if method = "ioperm" then call answers.ioperm (.ioperm 0 0xFFFF true) next
  else next (-1)

/-- `test_read` -/
def testRead (next : Prog) : Prog := .access port next

/-- `clone_func` -/
def cloneFunc : Prog := testRead (.ret 0)

/-- `permissions_with_clone` -/
def permissionsWithClone (answers : Answers) (next : Int → Prog) : Prog :=
  if answers.malloc = false then next (-1)
  else if answers.clone then .process .clone cloneFunc (testRead (next 0))
  -- the parent reads all the same
  else testRead (next (-1))

/-- `main` of `permissions-with-execve-target` -/
def execveTargetMain : Prog := testRead (.ret 0)

/-- `permissions_with_execve` -/
def permissionsWithExecve (answers : Answers) (next : Int → Prog) : Prog :=
  testRead (if answers.execve then .execve execveTargetMain else next (-1))

/-- `permissions_with_fork`: the child returns from it as well. -/
def permissionsWithFork (answers : Answers) (next : Int → Prog) : Prog :=
  if answers.fork then .process .fork (testRead (next 0)) (testRead (next 0)) else next (-1)

/-- `pthread_func` -/
def pthreadFunc : Prog := testRead (.ret 0)

/-- `permissions_with_pthread` -/
def permissionsWithPthread (answers : Answers) (next : Int → Prog) : Prog :=
  pthreadCreate (answers.pthread 0) pthreadFunc <|
    testRead (pthreadJoin (answers.pthread 0) 1 (next 0))

/-- `strncmp(s, name, strlen(name)) == 0` -/
def startsWith (s name : String) : Bool := name.toList.isPrefixOf s.toList

/-- `main` of `permissions-revisited` -/
def permissionsMain (argv : List String) (answers : Answers) : Prog :=
  if argv.length ≠ 3 then usage
  else getPermissions answers (argv.getD 1 "") fun permissionsGranted =>
    if permissionsGranted ≠ 0 then error else create (argv.getD 2 "")
where
  create (creation : String) : Prog :=
    if startsWith creation "clone" then permissionsWithClone answers finish
    else if startsWith creation "execve" then permissionsWithExecve answers finish
    else if startsWith creation "fork" then permissionsWithFork answers finish
    else if startsWith creation "pthread" then permissionsWithPthread answers finish
    else usage
  usage : Prog := .ret (-1)
  error : Prog := .ret (-2)
  finish (retval : Int) : Prog := if retval ≠ 0 then error else .ret 0

/-! ## `comparing-iopl-ioperm.c` -/

/-- `read_from_child` -/
def readFromChild : Prog := .access port (.ret 0)

/-- `read_from_sleepy_child`, less the sleep -/
def readFromSleepyChild : Prog := .access port (.ret 0)

/-- `main` of `comparing-iopl-ioperm` -/
def comparingMain (argv : List String) (answers : Answers) : Prog :=
  if argv.length ≠ 2 then .ret (-2)
  else pthreadCreate (answers.pthread 0) readFromSleepyChild <|
    if argv.getD 1 "" = "iopl" then call answers.iopl (.iopl 3) acquired
    else if argv.getD 1 "" = "ioperm" then call answers.ioperm (.ioperm 0 0xFFFF true) acquired
    else acquired 0
where
  -- the numbers of the threads are those they have where both are there
  acquired (retval : Int) : Prog :=
    if retval ≠ 0 then .ret retval
    else .access port <| pthreadCreate (answers.pthread 1) readFromChild <|
      pthreadJoin (answers.pthread 0) 1 <| pthreadJoin (answers.pthread 1) 2 <| .ret retval

/-! ## Permitted accesses -/

/-- What the call for permissions returns, if one is made. -/
def asked (method : String) (answers : Answers) : Option Int :=
  if method = "iopl" then some answers.iopl
  else if method = "ioperm" then some answers.ioperm
  else none

/-- The permissions it grants. -/
def granted (method : String) : Permissions :=
  if method = "iopl" then Permissions.empty.iopl 3 else Permissions.empty.ioperm 0 0xFFFF true

theorem granted_allow (method : String) : (granted method).Allow port := by
  unfold granted
  split
  · exact .inl rfl
  · exact .inr rfl

theorem ioPortsMain_safe (kernel : Kernel) (on off : Int) :
    (ioPortsMain on off).Safe kernel .empty := by
  unfold ioPortsMain call
  split
  · next hon =>
    subst hon
    refine ⟨.inr rfl, .inr rfl, ?_⟩
    split <;> trivial
  · next hon =>
    simp only [ne_eq, hon, not_false_eq_true, if_true]
    trivial

/-- No access without permission in `io_ports`. -/
theorem ioPorts_safe {kernel : Kernel} {on off : Int} {schedule : List (Nat × Nat)} {m : Machine}
    (h : Run kernel (ioPortsMain on off) schedule m) (i : Nat) : .killed i ∉ m := fun hm =>
  run_safe (ioPortsMain_safe kernel on off) h _ hm

/-! ## The other task -/

/-- How the other task is created, if the call for it succeeds. -/
def creates (creation : String) (answers : Answers) : Option Creation :=
  if startsWith creation "clone" then
    if answers.malloc ∧ answers.clone then some .clone else none
  else if startsWith creation "execve" then if answers.execve then some .execve else none
  else if startsWith creation "fork" then if answers.fork then some .fork else none
  else if startsWith creation "pthread" then if answers.pthread 0 then some .pthread else none
  else none

/-- How `permissions-revisited` comes to create another task, if it does. -/
def created (argv : List String) (answers : Answers) : Option Creation :=
  if argv.length = 3 ∧ asked (argv.getD 1 "") answers = some 0 then
    creates (argv.getD 2 "") answers
  else none

section Permissions

variable {kernel : Kernel} {answers : Answers} {p : Permissions}

theorem finish_safe (kernel : Kernel) (retval : Int) (p : Permissions) :
    (permissionsMain.finish retval).Safe kernel p := by
  unfold permissionsMain.finish
  split <;> trivial

theorem finish_quiet (retval : Int) : (permissionsMain.finish retval).Quiet := by
  unfold permissionsMain.finish
  split <;> trivial

/-- What comes after the grant: another task is created, or nothing in it needs the kernel. -/
theorem create_cases (answers : Answers) (creation : String) :
    (creates creation answers = some .clone ∧ permissionsMain.create answers creation
      = .process .clone cloneFunc (testRead (permissionsMain.finish 0))) ∨
    (creates creation answers = some .execve ∧ permissionsMain.create answers creation
      = testRead (.execve execveTargetMain)) ∨
    (creates creation answers = some .fork ∧ permissionsMain.create answers creation
      = .process .fork (testRead (permissionsMain.finish 0))
          (testRead (permissionsMain.finish 0))) ∨
    (creates creation answers = some .pthread ∧ permissionsMain.create answers creation
      = .thread pthreadFunc (testRead (.join 1 (permissionsMain.finish 0)))) ∨
    (creates creation answers = none ∧ ∀ kernel p, p.Allow port →
      (permissionsMain.create answers creation).Safe kernel p) := by
  unfold creates permissionsMain.create
  by_cases hclone : startsWith creation "clone" = true
  · simp only [if_pos hclone, permissionsWithClone]
    cases answers.malloc with
    | false =>
      refine .inr (.inr (.inr (.inr ⟨rfl, ?_⟩)))
      intro kernel p _
      rw [if_pos rfl]
      exact finish_safe ..
    | true =>
      cases answers.clone with
      | false =>
        exact .inr (.inr (.inr (.inr ⟨rfl, fun kernel p hp => ⟨hp, finish_safe kernel (-1) p⟩⟩)))
      | true => exact .inl ⟨rfl, rfl⟩
  by_cases hexecve : startsWith creation "execve" = true
  · simp only [if_neg hclone, if_pos hexecve, permissionsWithExecve]
    cases answers.execve with
    | false =>
      refine .inr (.inr (.inr (.inr ⟨rfl, ?_⟩)))
      intro kernel p hp
      rw [if_neg Bool.false_ne_true]
      exact ⟨hp, finish_safe ..⟩
    | true => exact .inr (.inl ⟨rfl, rfl⟩)
  by_cases hfork : startsWith creation "fork" = true
  · simp only [if_neg hclone, if_neg hexecve, if_pos hfork, permissionsWithFork]
    cases answers.fork with
    | false =>
      refine .inr (.inr (.inr (.inr ⟨rfl, ?_⟩)))
      intro kernel p _
      rw [if_neg Bool.false_ne_true]
      exact finish_safe ..
    | true => exact .inr (.inr (.inl ⟨rfl, rfl⟩))
  by_cases hpthread : startsWith creation "pthread" = true
  · simp only [if_neg hclone, if_neg hexecve, if_neg hfork, if_pos hpthread,
      permissionsWithPthread, pthreadCreate, pthreadJoin]
    cases answers.pthread 0 with
    | false => exact .inr (.inr (.inr (.inr ⟨rfl, fun _ _ hp => ⟨hp, trivial⟩⟩)))
    | true => exact .inr (.inr (.inr (.inl ⟨rfl, rfl⟩)))
  · simp only [if_neg hclone, if_neg hexecve, if_neg hfork, if_neg hpthread]
    exact .inr (.inr (.inr (.inr ⟨trivial, fun _ _ _ => trivial⟩)))

/-- What comes after the grant is safe if the other task is let through. -/
theorem create_safe (hp : p.Allow port) {creation : String}
    (h : ∀ how ∈ creates creation answers, (kernel.inherit how p).Allow port) :
    (permissionsMain.create answers creation).Safe kernel p := by
  rcases create_cases answers creation with
    ⟨heq, hprog⟩ | ⟨heq, hprog⟩ | ⟨heq, hprog⟩ | ⟨heq, hprog⟩ | ⟨-, hsafe⟩
  · rw [hprog]
    exact ⟨⟨h .clone heq, trivial⟩, hp, finish_safe ..⟩
  · rw [hprog]
    exact ⟨hp, h .execve heq, trivial⟩
  · rw [hprog]
    exact ⟨⟨h .fork heq, finish_safe ..⟩, hp, finish_safe ..⟩
  · rw [hprog]
    exact ⟨⟨h .pthread heq, trivial⟩, ⟨hp, finish_safe ..⟩, trivial, finish_quiet 0⟩
  · exact hsafe kernel p hp

/-- Steps of a machine. -/
abbrev Leads (kernel : Kernel) : Machine → List (Nat × Nat) → Machine → Prop :=
  Path fun m (who : Nat × Nat) m' => m.step kernel who.1 who.2 = some m'

/-- An access without permission. -/
theorem step_killed {m : Machine} {q i : Nat} {tasks : List Task} {next : Prog}
    (hq : m[q]? = some (.running tasks)) (hi : tasks[i]? = some ⟨p, .access port next⟩)
    (hno : ¬ p.Allow port) : m.step kernel q i = some (m.set q (.killed i)) := by
  unfold Machine.step
  simp only [hq, hi, Task.step, if_neg hno, Option.map_some, List.append_nil]

/-- If the other task is not let through, there is a way for it to be killed. -/
theorem create_killed (hp : p.Allow port) {creation : String} {how : Creation}
    (hhow : how ∈ creates creation answers) (hno : ¬ (kernel.inherit how p).Allow port) :
    ∃ schedule m i, Leads kernel [.running [⟨p, permissionsMain.create answers creation⟩]]
      schedule m ∧ .killed i ∈ m := by
  rw [Option.mem_def] at hhow
  rcases create_cases answers creation with
    ⟨heq, hprog⟩ | ⟨heq, hprog⟩ | ⟨heq, hprog⟩ | ⟨heq, hprog⟩ | ⟨heq, -⟩
  · obtain rfl := Option.some.inj (heq.symm.trans hhow)
    rw [hprog]
    exact ⟨_, _, 0, .cons (i := (0, 0)) rfl
      (.cons (i := (1, 0)) (step_killed rfl rfl hno) (.nil _)), by simp⟩
  -- the program reads once before it is replaced
  · obtain rfl := Option.some.inj (heq.symm.trans hhow)
    have hread : Machine.step kernel [.running [⟨p, testRead (.execve execveTargetMain)⟩]] 0 0
        = some [.running [⟨p, .execve execveTargetMain⟩]] := by
      simp [Machine.step, Task.step, testRead, hp]
    rw [hprog]
    exact ⟨_, _, 0, .cons (i := (0, 0)) hread (.cons (i := (0, 0)) rfl
      (.cons (i := (0, 0)) (step_killed rfl rfl hno) (.nil _))), by simp⟩
  · obtain rfl := Option.some.inj (heq.symm.trans hhow)
    rw [hprog]
    exact ⟨_, _, 0, .cons (i := (0, 0)) rfl
      (.cons (i := (1, 0)) (step_killed rfl rfl hno) (.nil _)), by simp⟩
  · obtain rfl := Option.some.inj (heq.symm.trans hhow)
    rw [hprog]
    exact ⟨_, _, 1, .cons (i := (0, 0)) rfl
      (.cons (i := (0, 1)) (step_killed rfl rfl hno) (.nil _)), by simp⟩
  · cases heq.symm.trans hhow

/-- The call for permissions: it has granted them, or the program goes on without. -/
theorem getPermissions_cases (answers : Answers) (method : String) (next : Int → Prog) :
    (asked method answers = some 0 ∧
      ∃ effect : Prog → Prog, getPermissions answers method next = effect (next 0) ∧
        (∀ kernel prog, prog.Safe kernel (granted method) → (effect prog).Safe kernel .empty) ∧
        ∀ kernel prog, Machine.step kernel (.start (effect prog)) 0 0
          = some [.running [⟨granted method, prog⟩]]) ∨
    (asked method answers ≠ some 0 ∧
      ∃ retval, retval ≠ 0 ∧ getPermissions answers method next = next retval) := by
  have hrefused (retval : Int) (h : ¬ retval = 0) : some retval ≠ some 0 := fun heq =>
    h (Option.some.inj heq)
  unfold asked getPermissions granted call
  by_cases hiopl : method = "iopl"
  · simp only [if_pos hiopl]
    by_cases h : answers.iopl = 0
    · rw [if_pos h, h]
      exact .inl ⟨rfl, .iopl 3, rfl, fun _ _ hsafe => hsafe, fun _ _ => rfl⟩
    · rw [if_neg h]
      exact .inr ⟨hrefused _ h, _, h, rfl⟩
  · simp only [if_neg hiopl]
    by_cases hioperm : method = "ioperm"
    · simp only [if_pos hioperm]
      by_cases h : answers.ioperm = 0
      · rw [if_pos h, h]
        exact .inl ⟨rfl, .ioperm 0 0xFFFF true, rfl, fun _ _ hsafe => hsafe, fun _ _ => rfl⟩
      · rw [if_neg h]
        exact .inr ⟨hrefused _ h, _, h, rfl⟩
    · simp only [if_neg hioperm]
      exact .inr ⟨(fun h => nomatch h), -1, by decide, rfl⟩

theorem permissionsMain_safe {argv : List String}
    (h : ∀ how ∈ created argv answers,
      (kernel.inherit how (granted (argv.getD 1 ""))).Allow port) :
    (permissionsMain argv answers).Safe kernel .empty := by
  unfold created at h
  unfold permissionsMain
  split
  · trivial
  · next hargc =>
    rcases getPermissions_cases answers (argv.getD 1 "") fun permissionsGranted =>
      if permissionsGranted ≠ 0 then permissionsMain.error
      else permissionsMain.create answers (argv.getD 2 "")
      with ⟨hasked, effect, heq, heffect, -⟩ | ⟨-, retval, hne, heq⟩
    · rw [heq, if_neg (not_not.mpr rfl)]
      rw [if_pos ⟨not_not.mp hargc, hasked⟩] at h
      exact heffect _ _ (create_safe (granted_allow _) h)
    · rw [heq, if_pos hne]
      trivial

end Permissions

/--
**The other task**, whichever way it is created. No process of `permissions-revisited` is ever
killed for an access without permission iff the kernel lets the task that it comes to create, or the
program it comes to put in its place, have those that were granted.
-/
theorem permissions_safe_iff (kernel : Kernel) (argv : List String) (answers : Answers) :
    (∀ schedule m, Run kernel (permissionsMain argv answers) schedule m → ∀ i, .killed i ∉ m) ↔
      ∀ how ∈ created argv answers,
        (kernel.inherit how (granted (argv.getD 1 ""))).Allow port := by
  constructor
  · intro hnever how hhow
    by_contra hno
    unfold created at hhow
    split at hhow
    · next hboth =>
      obtain ⟨hargc, hgranted⟩ := hboth
      obtain ⟨schedule, m, i, hleads, hkilled⟩ := create_killed (granted_allow _) hhow hno
      rcases getPermissions_cases answers (argv.getD 1 "") fun permissionsGranted =>
        if permissionsGranted ≠ 0 then permissionsMain.error
        else permissionsMain.create answers (argv.getD 2 "")
        with ⟨-, effect, heq, -, hstep⟩ | ⟨hrefused, -⟩
      · refine hnever ((0, 0) :: schedule) m ?_ i hkilled
        unfold permissionsMain
        rw [if_neg (not_not.mpr hargc), heq, if_neg (not_not.mpr rfl)]
        exact .cons (hstep _ _) hleads
      · exact absurd hgranted hrefused
    · cases hhow
  · intro h schedule m hrun i hm
    exact run_safe (permissionsMain_safe h) hrun _ hm

/-- All calls succeed. -/
def granting : Answers :=
  { iopl := 0, ioperm := 0, malloc := true, clone := true, fork := true, execve := true
    pthread := fun _ => true }

/-- Each thread has its own permissions, and whatever is created has those of its creator. -/
def inheriting : Kernel := { inherit := fun _ p => p, share := fun _ p => p }

example : created ["permissions", "iopl", "execve"] granting = some .execve := by decide

/-! ## The thread that was there first -/

/--
`main` cannot go past a task 1 that does not end: it returns before only what `R` says, and all
it creates is a thread that reads.
-/
def Prog.Waits (R : Int → Prop) : Prog → Prop
  | .ret retval => R retval
  | .iopl _ next => next.Waits R
  | .ioperm _ _ _ next => next.Waits R
  | .access _ next => next.Waits R
  | .thread func next => func = readFromChild ∧ next.Waits R
  | .process _ _ _ => False
  | .execve _ => False
  | .join j next => j = 1 ∨ next.Waits R
  | .undefined => False

/-- What becomes of the process: the thread that was there first is at its read, or it is over. -/
inductive Doomed (kernel : Kernel) (R : Int → Prop) (safe : Prop) : Process → Prop where
  | running {p : Permissions} {main : Prog} {others : List Task} (hwaits : main.Waits R)
      (hothers : ∀ t ∈ others, t.prog = readFromChild ∨ t.prog = .ret 0)
      (hsafe : safe → main.Safe kernel p ∧ ∀ t ∈ others, t.prog.Safe kernel t.permissions) :
      Doomed kernel R safe (.running
        (⟨p, main⟩ :: ⟨kernel.inherit .pthread .empty, readFromSleepyChild⟩ :: others))
  | exited {retval : Int} (h : R retval) : Doomed kernel R safe (.exited retval)
  | killed {i : Nat} (h : safe → i = 1) : Doomed kernel R safe (.killed i)

section

variable {kernel : Kernel} {R : Int → Prop} {safe : Prop} {process : Process}
  {created : List Process}

/-- Where permissions are a matter of the single thread, the others keep theirs. -/
theorem Kernel.PerThread.regrant (h : kernel.PerThread) (tasks : List Task) (i : Nat) (t : Task)
    (effect : Permissions → Permissions) (next : Prog) :
    regrant kernel tasks i t effect next = tasks.set i ⟨effect t.permissions, next⟩ := by
  have hid : (fun t' : Task => (⟨kernel.share effect t'.permissions, t'.prog⟩ : Task)) = id := by
    funext t'
    rw [h]
    rfl
  unfold IoPorts.regrant
  rw [hid, List.map_id]

theorem Doomed.step_main (hshare : kernel.PerThread) {p : Permissions} {main : Prog}
    {others : List Task} (hwaits : main.Waits R)
    (hothers : ∀ t ∈ others, t.prog = readFromChild ∨ t.prog = .ret 0)
    (hsafe : safe → main.Safe kernel p ∧ ∀ t ∈ others, t.prog.Safe kernel t.permissions)
    (hstep : Task.step kernel
      (⟨p, main⟩ :: ⟨kernel.inherit .pthread .empty, readFromSleepyChild⟩ :: others) 0 ⟨p, main⟩
      = some (process, created)) : Doomed kernel R safe process ∧ created = [] := by
  cases main with
  | ret retval =>
    cases hstep
    exact ⟨.exited hwaits, rfl⟩
  | iopl level next =>
    simp only [Task.step, hshare.regrant] at hstep
    cases hstep
    exact ⟨.running hwaits hothers hsafe, rfl⟩
  | ioperm start num turnOn next =>
    simp only [Task.step, hshare.regrant] at hstep
    cases hstep
    exact ⟨.running hwaits hothers hsafe, rfl⟩
  | access port next =>
    simp only [Task.step] at hstep
    split at hstep
    · cases hstep
      exact ⟨.running hwaits hothers fun h => ⟨(hsafe h).1.2, (hsafe h).2⟩, rfl⟩
    · next hno =>
      cases hstep
      exact ⟨.killed fun h => absurd (hsafe h).1.1 hno, rfl⟩
  | thread func next =>
    cases hstep
    obtain ⟨rfl, hnext⟩ := hwaits
    refine ⟨?_, rfl⟩
    show Doomed kernel R safe (.running (⟨p, next⟩ ::
      ⟨kernel.inherit .pthread .empty, readFromSleepyChild⟩ ::
        (others ++ [⟨kernel.inherit .pthread p, readFromChild⟩])))
    refine .running hnext ?_ fun h => ⟨(hsafe h).1.2.1, ?_⟩
    · intro t ht
      rcases List.mem_append.mp ht with ht | ht
      · exact hothers t ht
      · rw [List.mem_singleton.mp ht]
        exact .inl rfl
    · intro t ht
      rcases List.mem_append.mp ht with ht | ht
      · exact (hsafe h).2 t ht
      · rw [List.mem_singleton.mp ht]
        exact (hsafe h).1.1
  | process how child next => exact hwaits.elim
  | execve target => exact hwaits.elim
  | join j next =>
    rcases hwaits with rfl | hnext
    · cases hstep
    · simp only [Task.step] at hstep
      split at hstep
      · cases hstep
        exact ⟨.running hnext hothers hsafe, rfl⟩
      · cases hstep
  | undefined => exact hwaits.elim

/-- The other tasks read, if they may, and are done. -/
theorem Doomed.step_other {p : Permissions} {main : Prog} {others : List Task} {i : Nat} {t : Task}
    (hwaits : main.Waits R) (hothers : ∀ t ∈ others, t.prog = readFromChild ∨ t.prog = .ret 0)
    (hsafe : safe → main.Safe kernel p ∧ ∀ t ∈ others, t.prog.Safe kernel t.permissions)
    (ht : others[i]? = some t)
    (hstep : t.step kernel
      (⟨p, main⟩ :: ⟨kernel.inherit .pthread .empty, readFromSleepyChild⟩ :: others) (i + 2)
      = some (process, created)) : Doomed kernel R safe process ∧ created = [] := by
  have hmem := List.mem_of_getElem? ht
  obtain ⟨permissions, prog⟩ := t
  rcases hothers _ hmem with h | h
  · obtain rfl : prog = readFromChild := h
    simp only [Task.step, readFromChild] at hstep
    split at hstep
    · cases hstep
      refine ⟨?_, rfl⟩
      show Doomed kernel R safe (.running (⟨p, main⟩ ::
        ⟨kernel.inherit .pthread .empty, readFromSleepyChild⟩ ::
          others.set i ⟨permissions, .ret 0⟩))
      exact .running hwaits (forall_set hothers i _ (.inr rfl)) fun h =>
        ⟨(hsafe h).1, forall_set (hsafe h).2 i _ trivial⟩
    · next hno =>
      cases hstep
      exact ⟨.killed fun h => absurd ((hsafe h).2 _ hmem).1 hno, rfl⟩
  · obtain rfl : prog = .ret 0 := h
    simp only [Task.step, if_neg (Nat.succ_ne_zero _)] at hstep
    cases hstep

/-- The read of the thread that was there first. -/
theorem step_first (hnone : ¬ (kernel.inherit .pthread .empty).Allow port) (tasks : List Task) :
    Task.step kernel tasks 1 ⟨kernel.inherit .pthread .empty, readFromSleepyChild⟩
      = some (.killed 1, []) := by
  simp only [Task.step, readFromSleepyChild, if_neg hnone]

theorem Doomed.step (hshare : kernel.PerThread)
    (hnone : ¬ (kernel.inherit .pthread .empty).Allow port) {m : Machine} {q i : Nat}
    (h : Doomed kernel R safe process) (hstep : Machine.step kernel [process] q i = some m) :
    ∃ process', m = [process'] ∧ Doomed kernel R safe process' := by
  obtain ⟨tasks, t, process', created, hq, ht, hone, rfl⟩ := Machine.step_cases hstep
  obtain rfl : q = 0 := by
    cases q with
    | zero => rfl
    | succ q => cases hq
  obtain rfl : process = .running tasks := by simpa using hq
  have hdone : Doomed kernel R safe process' ∧ created = [] := by
    cases h with
    | running hwaits hothers hsafe =>
      match i with
      | 0 =>
        obtain rfl := Option.some.inj ht
        exact Doomed.step_main hshare hwaits hothers hsafe hone
      | 1 =>
        obtain rfl := Option.some.inj ht
        rw [step_first hnone] at hone
        cases hone
        exact ⟨.killed fun _ => rfl, rfl⟩
      | i + 2 => exact Doomed.step_other hwaits hothers hsafe ht hone
  obtain ⟨hdoomed, rfl⟩ := hdone
  exact ⟨process', rfl, hdoomed⟩

/-- While it runs, the thread that was there first can take its step. -/
theorem Doomed.over (hnone : ¬ (kernel.inherit .pthread .empty).Allow port)
    (h : Doomed kernel R safe process)
    (hend : ∀ q i, Machine.step kernel [process] q i = none) :
    (∃ retval, R retval ∧ process = .exited retval) ∨
      ∃ i, process = .killed i ∧ (safe → i = 1) := by
  cases h with
  | running =>
    have hfirst := hend 0 1
    unfold Machine.step at hfirst
    simp [step_first hnone] at hfirst
  | exited h => exact .inl ⟨_, h, rfl⟩
  | killed h => exact .inr ⟨_, rfl, h⟩

end

section Comparing

variable {kernel : Kernel} {R : Int → Prop} {answers : Answers} {p : Permissions}

/-- The thread that is created last may read. -/
def MayRead (kernel : Kernel) (answers : Answers) (p : Permissions) : Prop :=
  answers.pthread 1 = true → (kernel.inherit .pthread p).Allow port

theorem acquired_waits (hthread : answers.pthread 0 = true) (R : Int → Prop) :
    (comparingMain.acquired answers 0).Waits R := by
  unfold comparingMain.acquired pthreadCreate
  rw [hthread]
  by_cases h : answers.pthread 1 = true
  · rw [if_pos h]
    exact ⟨rfl, .inl rfl⟩
  · rw [if_neg h]
    exact .inl rfl

theorem acquired_safe (hp : p.Allow port) (hread : MayRead kernel answers p) :
    (comparingMain.acquired answers 0).Safe kernel p := by
  unfold comparingMain.acquired pthreadCreate pthreadJoin
  refine ⟨hp, ?_⟩
  by_cases h : answers.pthread 1 = true
  · rw [if_pos h, if_pos h]
    refine ⟨⟨hread h, trivial⟩, ?_, trivial, ?_⟩ <;> split <;> trivial
  · rw [if_neg h, if_neg h]
    split <;> trivial

/-- The call for permissions and what comes after it. -/
theorem call_acquired (hthread : answers.pthread 0 = true) {retval : Int} {effect : Prog → Prog}
    (hp : p.Allow port) (hwaits : ∀ prog : Prog, prog.Waits R → (effect prog).Waits R)
    (hsafe : ∀ prog : Prog, prog.Safe kernel p → (effect prog).Safe kernel .empty)
    (hR : retval ≠ 0 → R retval) :
    (call retval effect (comparingMain.acquired answers)).Waits R ∧
      (retval = 0 → MayRead kernel answers p →
        (call retval effect (comparingMain.acquired answers)).Safe kernel .empty) := by
  unfold call
  by_cases h : retval = 0
  · subst h
    exact ⟨hwaits _ (acquired_waits hthread R), fun _ hread => hsafe _ (acquired_safe hp hread)⟩
  · rw [if_neg h]
    refine ⟨?_, fun h0 => absurd h0 h⟩
    unfold comparingMain.acquired
    rw [if_pos h]
    exact hR h

/-- `main`, once its first thread is there. -/
theorem comparingMain_eq (kernel : Kernel) {argv : List String} (hargc : argv.length = 2)
    (hthread : answers.pthread 0 = true) :
    ∃ next, comparingMain argv answers = .thread readFromSleepyChild next ∧
      next.Waits (fun retval => retval ≠ 0 ∧ asked (argv.getD 1 "") answers = some retval) ∧
      (asked (argv.getD 1 "") answers = some 0 ∧
        MayRead kernel answers (granted (argv.getD 1 "")) → next.Safe kernel .empty) := by
  unfold comparingMain asked granted
  rw [if_neg (not_not.mpr hargc), pthreadCreate, if_pos hthread]
  refine ⟨_, rfl, ?_⟩
  by_cases hiopl : argv.getD 1 "" = "iopl"
  · simp only [if_pos hiopl, Option.some.injEq, and_imp]
    exact call_acquired hthread (.inl rfl) (fun _ h => h) (fun _ h => h) fun h => ⟨h, rfl⟩
  · by_cases hioperm : argv.getD 1 "" = "ioperm"
    · simp only [if_neg hiopl, if_pos hioperm, Option.some.injEq, and_imp]
      exact call_acquired hthread (.inr rfl) (fun _ h => h) (fun _ h => h) fun h => ⟨h, rfl⟩
    · simp only [if_neg hiopl, if_neg hioperm]
      exact ⟨acquired_waits hthread _, fun h => nomatch h.1⟩

/-- From the start: the first thread is made, and then it is doomed. -/
theorem Run.doomed (hshare : kernel.PerThread)
    (hnone : ¬ (kernel.inherit .pthread .empty).Allow port) {safe : Prop} {next : Prog}
    (hwaits : next.Waits R) (hsafe : safe → next.Safe kernel .empty)
    {schedule : List (Nat × Nat)} {m : Machine}
    (h : Run kernel (.thread readFromSleepyChild next) schedule m) :
    m = Machine.start (.thread readFromSleepyChild next) ∨
      ∃ process, m = [process] ∧ Doomed kernel R safe process := by
  refine h.invariant (I := fun m => m = Machine.start (.thread readFromSleepyChild next) ∨
    ∃ process, m = [process] ∧ Doomed kernel R safe process) ?_ (.inl rfl)
  intro m who m' hm hstep
  rcases hm with rfl | ⟨process, rfl, hdoomed⟩
  · obtain ⟨q, i⟩ := who
    match q, i with
    | 0, 0 =>
      obtain rfl := Option.some.inj hstep
      exact .inr ⟨_, rfl, .running hwaits (by simp) fun h => ⟨hsafe h, by simp⟩⟩
    | 0, i + 1 => cases hstep
    | q + 1, i => cases hstep
  · exact .inr (hdoomed.step hshare hnone hstep)

/--
**The thread that was there first has no permission**, where permissions are a matter of the single
thread and a thread gets none from a creator that has none. However the threads are scheduled, every
run ends. It was then ended by `SIGSEGV`: for that thread, where permissions were granted and the
thread that is created last has them too. Or they were refused, and it may also have returned with
what the call had returned.
-/
theorem comparing_ends (hshare : kernel.PerThread)
    (hnone : ¬ (kernel.inherit .pthread .empty).Allow port) {argv : List String}
    (hargc : argv.length = 2) (hthread : answers.pthread 0 = true) :
    (∃ n, ∀ schedule m, Run kernel (comparingMain argv answers) schedule m →
      schedule.length ≤ n) ∧
    ∀ schedule m, Run kernel (comparingMain argv answers) schedule m →
      (∀ q i, m.step kernel q i = none) →
        (∃ i, m = [.killed i] ∧ (asked (argv.getD 1 "") answers = some 0 ∧
          MayRead kernel answers (granted (argv.getD 1 "")) → i = 1)) ∨
        ∃ retval, retval ≠ 0 ∧ asked (argv.getD 1 "") answers = some retval ∧
          m = [.exited retval] := by
  refine ⟨⟨_, fun schedule m h => run_length_le h⟩, ?_⟩
  intro schedule m h hend
  obtain ⟨next, heq, hwaits, hsafe⟩ := comparingMain_eq kernel hargc hthread
  rw [heq] at h
  rcases h.doomed hshare hnone hwaits hsafe with rfl | ⟨process, rfl, hdoomed⟩
  · exact nomatch hend 0 0
  · rcases hdoomed.over hnone hend with ⟨retval, ⟨hne, hasked⟩, rfl⟩ | ⟨i, rfl, hi⟩
    · exact .inr ⟨retval, hne, hasked, rfl⟩
    · exact .inl ⟨i, rfl, hi⟩

end Comparing

/-- Permissions are granted by `ioperm`, and threads have those of their creator. -/
theorem comparing_ends_granted :
    let argv := ["comparing", "ioperm"]
    (∃ n, ∀ schedule m, Run inheriting (comparingMain argv granting) schedule m →
      schedule.length ≤ n) ∧
    ∀ schedule m, Run inheriting (comparingMain argv granting) schedule m →
      (∀ q i, m.step inheriting q i = none) →
        (∃ i, m = [.killed i] ∧ (asked (argv.getD 1 "") granting = some 0 ∧
          MayRead inheriting granting (granted (argv.getD 1 "")) → i = 1)) ∨
        ∃ retval, retval ≠ 0 ∧ asked (argv.getD 1 "") granting = some retval ∧
          m = [.exited retval] :=
  comparing_ends (fun _ _ => rfl) (by decide) rfl rfl

end LkmSandbox.IoPorts
