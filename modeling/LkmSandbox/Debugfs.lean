import LkmSandbox.Registry

/-!
# The debugfs module

`lkm_debugfs` makes a directory with two files. Loading it checks for `NULL`, while a debugfs call
may also fail with an error pointer, which is not `NULL`.

* `lkmDebugfsInit_undone_iff` — when a load that fails leaves nothing behind
-/

namespace LkmSandbox

/-- `LKM_DEBUGFS_DIR` -/
def lkmDebugfsDir : String := "lkm"

/-- `LKM_DEBUGFS_CONTENT_LEN` -/
def lkmDebugfsContentLen : Nat := 200

/-- The variables of the module. -/
structure Debugfs where
  content : List UInt8
  debugRoot : Registry.Dentry
  debugFileEntry : Registry.Dentry
  number : UInt64

/-- The variables at load. -/
def Debugfs.unloaded : Debugfs :=
  { content := List.replicate lkmDebugfsContentLen 0
    debugRoot := .null
    debugFileEntry := .null
    number := 0 }

/-- What the kernel calls of `lkm_debugfs_init` answer. -/
structure DebugfsAnswers where
  initialized : Bool
  dir : Registry.DebugfsAnswer
  number : Registry.DebugfsAnswer
  message : Registry.DebugfsAnswer

/-- `lkm_debugfs_init` -/
def lkmDebugfsInit (answers : DebugfsAnswers) (r : Registry) : Int × Debugfs × Registry :=
  let m := Debugfs.unloaded
  if answers.initialized = false then (-enodev, m, r)
  else
    let (debugRoot, r) := r.debugfsCreate answers.dir lkmDebugfsDir .null
    let m := { m with debugRoot }
    if debugRoot = .null then (-enodev, m, r)
    else
      let m := { m with number := 42 }
      -- what `debugfs_create_u64` returns is dropped
      let (_, r) := r.debugfsCreate answers.number "number" debugRoot
      let (debugFileEntry, r) := r.debugfsCreate answers.message "message" debugRoot
      let m := { m with debugFileEntry
                        content := strncpy (cString "Hello, debugfs!\n") lkmDebugfsContentLen }
      if debugFileEntry = .null then (-eio, m, r) else (0, m, r)

/-- `lkm_debugfs_exit` -/
def lkmDebugfsExit (m : Debugfs) (r : Registry) : Debugfs × Registry :=
  if m.debugRoot ≠ .null then
    ({ m with debugFileEntry := .null, debugRoot := .null }, r.debugfsRemoveRecursive m.debugRoot)
  else (m, r)

namespace DebugfsAnswers

/-- debugfs is there and gives the directory. -/
def GivesDir (answers : DebugfsAnswers) (r : Registry) : Prop :=
  answers.initialized = true ∧ answers.dir.ok = true ∧ [lkmDebugfsDir] ∉ r.debugfs

/-- The file `message` cannot be made, and the call says so by `NULL`. -/
def RefusesMessage (answers : DebugfsAnswers) (r : Registry) : Prop :=
  ¬ (answers.message.ok = true ∧ [lkmDebugfsDir, "message"] ∉ r.debugfs) ∧
    answers.message.nullOnFailure = true

end DebugfsAnswers

namespace Registry

variable {r : Registry}

theorem debugfsCreate_null (answer : DebugfsAnswer) (name : String) :
    r.debugfsCreate answer name .null
      = if answer.ok = true ∧ [name] ∉ r.debugfs then
          (.entry [name], { r with debugfs := [name] :: r.debugfs })
        else (answer.failure, r) := rfl

theorem debugfsCreate_entry (answer : DebugfsAnswer) (name : String) (path : Path) :
    r.debugfsCreate answer name (.entry path)
      = if answer.ok = true ∧ path ++ [name] ∉ r.debugfs then
          (.entry (path ++ [name]), { r with debugfs := (path ++ [name]) :: r.debugfs })
        else (answer.failure, r) := rfl

theorem DebugfsAnswer.failure_eq_null {answer : DebugfsAnswer} :
    answer.failure = .null ↔ answer.nullOnFailure = true := by
  unfold DebugfsAnswer.failure
  split <;> simp [*]

/-- Below a directory, a call returns `NULL` where it fails that way. -/
theorem debugfsCreate_eq_null (answer : DebugfsAnswer) (name : String) (path : Path) :
    (r.debugfsCreate answer name (.entry path)).1 = .null
      ↔ ¬ (answer.ok = true ∧ path ++ [name] ∉ r.debugfs) ∧ answer.nullOnFailure = true := by
  rw [debugfsCreate_entry]
  split
  · next h => simp [h]
  · next h => simp only [h, not_false_eq_true, true_and, DebugfsAnswer.failure_eq_null]

/-- Another name is as free as it was. -/
theorem debugfsCreate_mem {other : Path} (answer : DebugfsAnswer) (name : String) (path : Path)
    (h : other ≠ path ++ [name]) :
    other ∈ (r.debugfsCreate answer name (.entry path)).2.debugfs ↔ other ∈ r.debugfs := by
  rw [debugfsCreate_entry]
  split
  · simp [h]
  · rfl

theorem holdings_debugfsCreate (answer : DebugfsAnswer) (name : String) (parent : Dentry) :
    r.holdings ≤ (r.debugfsCreate answer name parent).2.holdings := by
  have hcreate : ∀ path, r.holdings ≤ (debugfsCreate.create answer name r path).2.holdings := by
    intro path
    unfold debugfsCreate.create
    split
    · unfold holdings
      simp only [List.length_cons]
      omega
    · exact Nat.le_refl _
  cases parent with
  | entry path => exact hcreate path
  | null => exact hcreate []
  | error => exact Nat.le_refl _

end Registry

theorem lkmDebugfsInit_without_dir {answers : DebugfsAnswers} {r : Registry}
    (h : ¬ answers.GivesDir r) : (lkmDebugfsInit answers r).2.2 = r := by
  unfold DebugfsAnswers.GivesDir at h
  unfold lkmDebugfsInit
  cases hinit : answers.initialized with
  | false => rfl
  | true =>
    rw [Registry.debugfsCreate_null, if_neg fun hdir => h ⟨hinit, hdir⟩]
    unfold Registry.DebugfsAnswer.failure
    cases answers.dir.nullOnFailure with
    | true => rfl
    | false => rfl

/-- With the directory, the load fails where the file is refused, and holds more than before. -/
theorem lkmDebugfsInit_with_dir {answers : DebugfsAnswers} {r : Registry}
    (h : answers.GivesDir r) :
    ((lkmDebugfsInit answers r).1 ≠ 0 ↔ answers.RefusesMessage r) ∧
      r.holdings < (lkmDebugfsInit answers r).2.2.holdings := by
  obtain ⟨hinit, hdir⟩ := h
  unfold lkmDebugfsInit
  rw [hinit, Registry.debugfsCreate_null, if_pos hdir]
  simp only
  set r₁ : Registry := { r with debugfs := [lkmDebugfsDir] :: r.debugfs } with hr₁
  set r₂ := (r₁.debugfsCreate answers.number "number" (.entry [lkmDebugfsDir])).2 with hr₂
  have hmem : [lkmDebugfsDir, "message"] ∈ r₂.debugfs
      ↔ [lkmDebugfsDir, "message"] ∈ r.debugfs := by
    rw [hr₂, Registry.debugfsCreate_mem _ _ _ (by decide), hr₁]
    simp
  have hnull : (r₂.debugfsCreate answers.message "message" (.entry [lkmDebugfsDir])).1 = .null
      ↔ answers.RefusesMessage r := by
    rw [Registry.debugfsCreate_eq_null]
    show ¬ (_ ∧ [lkmDebugfsDir, "message"] ∉ r₂.debugfs) ∧ _ ↔ _
    rw [hmem]
    rfl
  have hmore : r.holdings
      < (r₂.debugfsCreate answers.message "message" (.entry [lkmDebugfsDir])).2.holdings :=
    calc r.holdings < r₁.holdings := by
          unfold Registry.holdings
          simp only [hr₁, List.length_cons]
          omega
      _ ≤ r₂.holdings := Registry.holdings_debugfsCreate _ _ _
      _ ≤ _ := Registry.holdings_debugfsCreate _ _ _
  by_cases hrefuse : answers.RefusesMessage r
  · rw [if_pos (hnull.mpr hrefuse)]
    exact ⟨iff_of_true (by decide : -eio ≠ 0) hrefuse, hmore⟩
  · rw [if_neg fun hn => hrefuse (hnull.mp hn)]
    exact ⟨iff_of_false (fun hne => hne rfl) hrefuse, hmore⟩

/-- A load that fails leaves the directory where it is the file that was refused. -/
theorem lkmDebugfsInit_undone_iff (answers : DebugfsAnswers) (r : Registry) :
    Undone (lkmDebugfsInit answers r) r ↔ ¬ (answers.GivesDir r ∧ answers.RefusesMessage r) :=
  undone_iff lkmDebugfsInit_without_dir lkmDebugfsInit_with_dir

end LkmSandbox
