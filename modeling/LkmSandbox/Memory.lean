import LkmSandbox.Lib.DirTree

/-!
# The memory module

`lkm_mem` puts a directory with statistics of memory and swap into `/proc`. Its init goes on when
the kernel refuses an entry. A directory that could not be made leaves a `NULL` parent behind, which
stands for the root of `/proc`, so the entries meant for it are made there.

* `lkmMemInit_spec` — which entries there are after load
* `load_unload_restores` — unloading removes them all and nothing else
-/

namespace LkmSandbox.Memory

open Lib

/-! ## /proc -/

/-- The fields of `si` that files show. -/
inductive SysinfoField where
  | bufferram
  | freeram
  | sharedram
  | totalram
  | freeswap
  | totalswap
deriving DecidableEq

/-- What a file in `/proc` shows. Files of other code are told apart by a number. -/
inductive ProcFile where
  | value (field : SysinfoField)
  | foreign (id : Nat)
deriving DecidableEq

abbrev ProcTree := DirTree String ProcFile

abbrev Fault := DirTree.Fault String

/-- `struct proc_dir_entry *`: `NULL`, or where the entry is. -/
abbrev ProcDirEntry := Option (List String)

/-- The directory that a parent stands for: `NULL` is the root. -/
def dirOf (parent : ProcDirEntry) : List String := parent.getD []

/-- `/proc`, and which entries the module has made and removed so far. -/
structure Proc where
  tree : ProcTree
  created : List (List String)
  removed : List (List String)

namespace Proc

def create (fs : Proc) (granted : Bool) (name : String) (parent : ProcDirEntry)
    (x : DirNode ProcFile) : Except Fault (ProcDirEntry × Proc) :=
  match fs.tree.create granted (dirOf parent) name x with
  | .error e => .error e
  | .ok (tree, entry) => .ok (entry, { fs with tree, created := fs.created ++ entry.toList })

/-- `proc_mkdir` -/
def procMkdir (fs : Proc) (granted : Bool) (name : String) (parent : ProcDirEntry) :
    Except Fault (ProcDirEntry × Proc) := fs.create granted name parent .dir

/-- `proc_create_single_data` -/
def procCreateSingleData (fs : Proc) (granted : Bool) (name : String) (parent : ProcDirEntry)
    (value : SysinfoField) : Except Fault (ProcDirEntry × Proc) :=
  fs.create granted name parent (.file (.value value))

/-- `remove_proc_entry` -/
def removeProcEntry (fs : Proc) (name : String) (parent : ProcDirEntry) : Except Fault Proc :=
  match fs.tree.remove (name :: dirOf parent) with
  | .error e => .error e
  | .ok tree => .ok { fs with tree, removed := fs.removed ++ [name :: dirOf parent] }

end Proc

/-! ## The module -/

/-- `LKM_PROC_PARENT` -/
def lkmProcParentName : String := "lkm"

/-- `LKM_MEM_PROC_PARENT` -/
def memProcParentName : String := "mem"

/-- `LKM_MEM_PROC_BUFFER_ENTRY` -/
def memProcBufferEntryName : String := "buffer"

/-- `LKM_MEM_PROC_FREE_ENTRY` -/
def memProcFreeEntryName : String := "free"

/-- `LKM_MEM_PROC_SHARED_ENTRY` -/
def memProcSharedEntryName : String := "shared"

/-- `LKM_MEM_PROC_TOTAL_ENTRY` -/
def memProcTotalEntryName : String := "total"

/-- `LKM_SWAP_PROC_PARENT` -/
def swapProcParentName : String := "swap"

/-- `LKM_SWAP_PROC_FREE_ENTRY` -/
def swapProcFreeEntryName : String := "free"

/-- `LKM_SWAP_PROC_TOTAL_ENTRY` -/
def swapProcTotalEntryName : String := "total"

/-- The variables of the module. -/
structure LkmMem where
  lkmProcParent : ProcDirEntry
  memProcParent : ProcDirEntry
  memProcBufferEntry : ProcDirEntry
  memProcFreeEntry : ProcDirEntry
  memProcSharedEntry : ProcDirEntry
  memProcTotalEntry : ProcDirEntry
  swapProcParent : ProcDirEntry
  swapProcFreeEntry : ProcDirEntry
  swapProcTotalEntry : ProcDirEntry

/-- Which calls of `lkm_mem_init` the kernel grants, where the name is not taken. -/
structure Answers where
  lkm : Bool
  mem : Bool
  memBuffer : Bool
  memFree : Bool
  memShared : Bool
  memTotal : Bool
  swap : Bool
  swapFree : Bool
  swapTotal : Bool

/-- `lkm_proc_create_single_data`, which logs a refusal and returns it. -/
def lkmProcCreateSingleData (granted : Bool) (name : String) (value : SysinfoField)
    (parent : ProcDirEntry) (fs : Proc) : Except Fault (ProcDirEntry × Proc) :=
  fs.procCreateSingleData granted name parent value

/-- `lkm_proc_mkdir`, which logs a refusal and returns it. -/
def lkmProcMkdir (granted : Bool) (name : String) (parent : ProcDirEntry) (fs : Proc) :
    Except Fault (ProcDirEntry × Proc) := fs.procMkdir granted name parent

/-- `lkm_remove_proc_entry` -/
def lkmRemoveProcEntry (entry : ProcDirEntry) (name : String) (parent : ProcDirEntry)
    (fs : Proc) : Except Fault Proc :=
  if entry ≠ none then fs.removeProcEntry name parent else .ok fs

/-- `lkm_mem_init` -/
def lkmMemInit (answers : Answers) (fs : Proc) : Except Fault (Int × LkmMem × Proc) := do
  let (lkmProcParent, fs) ← lkmProcMkdir answers.lkm lkmProcParentName none fs
  let (memProcParent, fs) ← lkmProcMkdir answers.mem memProcParentName lkmProcParent fs
  let (memProcBufferEntry, fs) ← lkmProcCreateSingleData answers.memBuffer
    memProcBufferEntryName .bufferram memProcParent fs
  let (memProcFreeEntry, fs) ← lkmProcCreateSingleData answers.memFree
    memProcFreeEntryName .freeram memProcParent fs
  let (memProcSharedEntry, fs) ← lkmProcCreateSingleData answers.memShared
    memProcSharedEntryName .sharedram memProcParent fs
  let (memProcTotalEntry, fs) ← lkmProcCreateSingleData answers.memTotal
    memProcTotalEntryName .totalram memProcParent fs
  let (swapProcParent, fs) ← lkmProcMkdir answers.swap swapProcParentName lkmProcParent fs
  let (swapProcFreeEntry, fs) ← lkmProcCreateSingleData answers.swapFree
    swapProcFreeEntryName .freeswap swapProcParent fs
  let (swapProcTotalEntry, fs) ← lkmProcCreateSingleData answers.swapTotal
    swapProcTotalEntryName .totalswap swapProcParent fs
  .ok (0, { lkmProcParent, memProcParent, memProcBufferEntry, memProcFreeEntry,
            memProcSharedEntry, memProcTotalEntry, swapProcParent, swapProcFreeEntry,
            swapProcTotalEntry }, fs)

/-- `lkm_mem_exit` -/
def lkmMemExit (m : LkmMem) (fs : Proc) : Except Fault Proc := do
  let fs ← lkmRemoveProcEntry m.memProcBufferEntry memProcBufferEntryName m.memProcParent fs
  let fs ← lkmRemoveProcEntry m.memProcFreeEntry memProcFreeEntryName m.memProcParent fs
  let fs ← lkmRemoveProcEntry m.memProcSharedEntry memProcSharedEntryName m.memProcParent fs
  let fs ← lkmRemoveProcEntry m.memProcTotalEntry memProcTotalEntryName m.memProcParent fs
  let fs ← lkmRemoveProcEntry m.memProcParent memProcParentName m.lkmProcParent fs
  let fs ← lkmRemoveProcEntry m.swapProcFreeEntry swapProcFreeEntryName m.swapProcParent fs
  let fs ← lkmRemoveProcEntry m.swapProcTotalEntry swapProcTotalEntryName m.swapProcParent fs
  let fs ← lkmRemoveProcEntry m.swapProcParent swapProcParentName m.lkmProcParent fs
  lkmRemoveProcEntry m.lkmProcParent lkmProcParentName none fs

/-! ## What a load makes -/

/-- Where there is an entry, it is `name` in the directory of `parent`. -/
def Names (entry : ProcDirEntry) (name : String) (parent : ProcDirEntry) : Prop :=
  entry = none ∨ entry = some (name :: dirOf parent)

/-- What is put into an entry's directory goes to the root where there is no entry. -/
theorem Names.dirOf_cases {entry parent : ProcDirEntry} {name : String}
    (h : Names entry name parent) : dirOf entry = [] ∨ dirOf entry = name :: dirOf parent := by
  rcases h with hnone | hsome
  · exact Or.inl (by rw [hnone]; rfl)
  · exact Or.inr (by rw [hsome]; rfl)

/-- The module has added the entries `os` to the tree `t₀`, the latest first, and removed none. -/
structure Grown (t₀ : ProcTree) (os : List ProcDirEntry) (fs : Proc) : Prop where
  adds : t₀.Adds fs.tree os.reduceOption
  created : fs.created = os.reverse.reduceOption
  removed : fs.removed = []

variable {t₀ : ProcTree} {os : List ProcDirEntry} {fs : Proc}

/-- **A call** that is to make an entry in a directory that is there. -/
theorem Grown.create (h : Grown t₀ os fs) {parent : ProcDirEntry}
    (hdir : fs.tree.IsDir (dirOf parent)) (granted : Bool) (name : String) (x : DirNode ProcFile) :
    ∃ entry fs', fs.create granted name parent x = .ok (entry, fs') ∧
      Grown t₀ (entry :: os) fs' ∧ (∀ p, fs.tree.IsDir p → fs'.tree.IsDir p) ∧
      Names entry name parent ∧ (x = .dir → fs'.tree.IsDir (dirOf entry)) := by
  obtain ⟨tree, entry, hcreate, hadds, hkeep, hname, hmade⟩ :=
    DirTree.create_spec h.adds hdir granted name x
  refine ⟨entry, { fs with tree, created := fs.created ++ entry.toList }, ?_,
    ⟨hadds, ?_, h.removed⟩, hkeep, ?_, hmade⟩
  · rw [Proc.create, hcreate]
  · show fs.created ++ entry.toList = _
    rw [h.created, List.reverse_cons, List.reduceOption_append, List.reduceOption_singleton]
  · cases entry with
    | none => exact Or.inl rfl
    | some p => exact Or.inr (congrArg some (hname p rfl))

/-- The variables after a load name the entries they were made for. -/
structure Named (m : LkmMem) : Prop where
  lkmProcParent : Names m.lkmProcParent lkmProcParentName none
  memProcParent : Names m.memProcParent memProcParentName m.lkmProcParent
  memProcBufferEntry : Names m.memProcBufferEntry memProcBufferEntryName m.memProcParent
  memProcFreeEntry : Names m.memProcFreeEntry memProcFreeEntryName m.memProcParent
  memProcSharedEntry : Names m.memProcSharedEntry memProcSharedEntryName m.memProcParent
  memProcTotalEntry : Names m.memProcTotalEntry memProcTotalEntryName m.memProcParent
  swapProcParent : Names m.swapProcParent swapProcParentName m.lkmProcParent
  swapProcFreeEntry : Names m.swapProcFreeEntry swapProcFreeEntryName m.swapProcParent
  swapProcTotalEntry : Names m.swapProcTotalEntry swapProcTotalEntryName m.swapProcParent

/-- The entries in the order in which a load makes them, the latest first. -/
def LkmMem.made (m : LkmMem) : List ProcDirEntry :=
  [m.swapProcTotalEntry, m.swapProcFreeEntry, m.swapProcParent, m.memProcTotalEntry,
    m.memProcSharedEntry, m.memProcFreeEntry, m.memProcBufferEntry, m.memProcParent,
    m.lkmProcParent]

/-- **A load** is never stopped, and adds the entries that its variables are not `NULL` for. -/
theorem lkmMemInit_spec (h : Grown t₀ [] fs) (answers : Answers) :
    ∃ m fs', lkmMemInit answers fs = .ok (0, m, fs') ∧ Grown t₀ m.made fs' ∧ Named m := by
  obtain ⟨lkm, fs₁, h₁, g₁, -, n₁, d₁⟩ :=
    Grown.create h (show fs.tree.IsDir (dirOf none) from Or.inl rfl) answers.lkm lkmProcParentName
      .dir
  have hlkm := d₁ rfl
  obtain ⟨mem, fs₂, h₂, g₂, k₂, n₂, d₂⟩ := g₁.create hlkm answers.mem memProcParentName .dir
  have hmem := d₂ rfl
  obtain ⟨buffer, fs₃, h₃, g₃, k₃, n₃, -⟩ :=
    g₂.create hmem answers.memBuffer memProcBufferEntryName (.file (.value .bufferram))
  obtain ⟨free, fs₄, h₄, g₄, k₄, n₄, -⟩ :=
    g₃.create (k₃ _ hmem) answers.memFree memProcFreeEntryName (.file (.value .freeram))
  obtain ⟨shared, fs₅, h₅, g₅, k₅, n₅, -⟩ :=
    g₄.create (k₄ _ (k₃ _ hmem)) answers.memShared memProcSharedEntryName
      (.file (.value .sharedram))
  obtain ⟨total, fs₆, h₆, g₆, k₆, n₆, -⟩ :=
    g₅.create (k₅ _ (k₄ _ (k₃ _ hmem))) answers.memTotal memProcTotalEntryName
      (.file (.value .totalram))
  obtain ⟨swap, fs₇, h₇, g₇, -, n₇, d₇⟩ :=
    g₆.create (k₆ _ (k₅ _ (k₄ _ (k₃ _ (k₂ _ hlkm))))) answers.swap swapProcParentName .dir
  have hswap := d₇ rfl
  obtain ⟨swapFree, fs₈, h₈, g₈, k₈, n₈, -⟩ :=
    g₇.create hswap answers.swapFree swapProcFreeEntryName (.file (.value .freeswap))
  obtain ⟨swapTotal, fs₉, h₉, g₉, -, n₉, -⟩ :=
    g₈.create (k₈ _ hswap) answers.swapTotal swapProcTotalEntryName (.file (.value .totalswap))
  refine ⟨⟨lkm, mem, buffer, free, shared, total, swap, swapFree, swapTotal⟩, fs₉, ?_, g₉,
    ⟨n₁, n₂, n₃, n₄, n₅, n₆, n₇, n₈, n₉⟩⟩
  simp only [lkmMemInit, lkmProcMkdir, lkmProcCreateSingleData, Proc.procMkdir,
    Proc.procCreateSingleData, bind, Except.bind, h₁, h₂, h₃, h₄, h₅, h₆, h₇, h₈, h₉]

/-! ## What an unload removes -/

/-- A call of `lkm_remove_proc_entry`: the entry, its name and its parent. -/
abbrev Removal := ProcDirEntry × String × ProcDirEntry

/-- The calls of `lkm_mem_exit`. -/
def LkmMem.removals (m : LkmMem) : List Removal :=
  [(m.memProcBufferEntry, memProcBufferEntryName, m.memProcParent),
    (m.memProcFreeEntry, memProcFreeEntryName, m.memProcParent),
    (m.memProcSharedEntry, memProcSharedEntryName, m.memProcParent),
    (m.memProcTotalEntry, memProcTotalEntryName, m.memProcParent),
    (m.memProcParent, memProcParentName, m.lkmProcParent),
    (m.swapProcFreeEntry, swapProcFreeEntryName, m.swapProcParent),
    (m.swapProcTotalEntry, swapProcTotalEntryName, m.swapProcParent),
    (m.swapProcParent, swapProcParentName, m.lkmProcParent),
    (m.lkmProcParent, lkmProcParentName, none)]

/-- The calls one after another. -/
def Proc.removeEach (fs : Proc) : List Removal → Except Fault Proc
  | [] => .ok fs
  | (entry, name, parent) :: rest => do
    let fs ← lkmRemoveProcEntry entry name parent fs
    fs.removeEach rest

theorem lkmMemExit_eq (m : LkmMem) (fs : Proc) : lkmMemExit m fs = fs.removeEach m.removals := by
  have hlast : ∀ x : Except Fault Proc, (x >>= fun fs => .ok fs) = x := by
    intro x
    cases x <;> rfl
  simp only [lkmMemExit, LkmMem.removals, Proc.removeEach, hlast]

/-- The entries that a list of calls is about. -/
def entriesOf (removals : List Removal) : List (List String) :=
  (removals.map Prod.fst).reduceOption

/-- The calls remove from the tree the entries that are not `NULL`. -/
theorem removeEach_eq : ∀ (removals : List Removal) (fs : Proc),
    (∀ c ∈ removals, Names c.1 c.2.1 c.2.2) → {t : ProcTree} →
    fs.tree.removeAll (entriesOf removals) = .ok t →
    fs.removeEach removals
      = .ok { fs with tree := t, removed := fs.removed ++ entriesOf removals }
  | [], fs, _, t, h => by
    cases h
    simp [Proc.removeEach, entriesOf]
  | (entry, name, parent) :: rest, fs, hnames, t, h => by
    have hrest := fun c hc => hnames c (List.mem_cons_of_mem _ hc)
    rcases hnames _ List.mem_cons_self with hnone | hsome
    · obtain rfl : entry = none := hnone
      exact removeEach_eq rest fs hrest h
    · obtain rfl : entry = some (name :: dirOf parent) := hsome
      have hcons : entriesOf ((some (name :: dirOf parent), name, parent) :: rest)
          = (name :: dirOf parent) :: entriesOf rest := List.reduceOption_cons_of_some _ _
      rw [hcons, DirTree.removeAll] at h
      rw [hcons, Proc.removeEach, lkmRemoveProcEntry, if_pos (Option.some_ne_none _),
        Proc.removeProcEntry]
      cases htree : fs.tree.remove (name :: dirOf parent) with
      | error e =>
        rw [htree] at h
        cases h
      | ok tree =>
        rw [htree] at h
        show Proc.removeEach _ rest = _
        rw [removeEach_eq rest _ hrest h, List.append_assoc, List.singleton_append]

/-- What the calls are about is in the order of the calls. -/
theorem entriesOf_sublist : ∀ (removals : List Removal), (∀ c ∈ removals, Names c.1 c.2.1 c.2.2) →
    (entriesOf removals).Sublist (removals.map fun c => c.2.1 :: dirOf c.2.2)
  | [], _ => List.Sublist.slnil
  | (entry, name, parent) :: rest, hnames => by
    have hrest := entriesOf_sublist rest fun c hc => hnames c (List.mem_cons_of_mem _ hc)
    rcases hnames _ List.mem_cons_self with hnone | hsome
    · obtain rfl : entry = none := hnone
      exact hrest.cons _
    · obtain rfl : entry = some (name :: dirOf parent) := hsome
      exact hrest.cons_cons _

namespace Named

variable {m : LkmMem}

theorem removals (h : Named m) : ∀ c ∈ m.removals, Names c.1 c.2.1 c.2.2 := by
  simp only [LkmMem.removals, List.forall_mem_cons]
  exact ⟨h.memProcBufferEntry, h.memProcFreeEntry, h.memProcSharedEntry, h.memProcTotalEntry,
    h.memProcParent, h.swapProcFreeEntry, h.swapProcTotalEntry, h.swapProcParent,
    h.lkmProcParent, fun _ hc => absurd hc List.not_mem_nil⟩

/-- No call is about the directory that a later one is about an entry of. -/
theorem children_first (h : Named m) :
    (entriesOf m.removals).Pairwise fun p q => q.tail ≠ p := by
  refine List.Pairwise.sublist (entriesOf_sublist _ h.removals) ?_
  have hl := h.lkmProcParent.dirOf_cases
  have hm := h.memProcParent.dirOf_cases
  have hs := h.swapProcParent.dirOf_cases
  -- each parent is the root or where it was made: eight ways for the entries to lie
  simp only [LkmMem.removals, List.map_cons, List.map_nil, dirOf, Option.getD_none] at hl hm hs ⊢
  rcases hl with hl | hl <;> rcases hm with hm | hm <;> rcases hs with hs | hs <;>
    rw [hm, hs, hl] <;> decide

end Named

theorem made_perm (m : LkmMem) : m.made.Perm (m.removals.map Prod.fst) := by
  refine List.perm_iff_count.mpr ?_
  intro o
  simp only [LkmMem.made, LkmMem.removals, List.map_cons, List.map_nil, List.count_cons,
    List.count_nil]
  ac_rfl

/-- **Unloading** removes every entry that the load has made, and gives back the tree. -/
theorem lkmMemExit_spec {m : LkmMem} (h : Grown t₀ m.made fs) (hnamed : Named m) :
    lkmMemExit m fs
      = .ok { fs with tree := t₀, removed := fs.removed ++ entriesOf m.removals } := by
  rw [lkmMemExit_eq]
  refine removeEach_eq _ _ hnamed.removals ?_
  refine DirTree.removeAll_restores (h.adds.perm ?_) hnamed.children_first
  exact (made_perm m).filterMap id

/--
**Loading and unloading.** Whatever is in `/proc` and whatever the kernel grants: neither load nor
unload asks for anything that is not there, no directory is removed before it is empty, every entry
made is removed once and no other, and `/proc` is as it was.
-/
theorem load_unload_restores (tree : ProcTree) (answers : Answers) :
    ∃ m fs fs', lkmMemInit answers { tree, created := [], removed := [] } = .ok (0, m, fs) ∧
      lkmMemExit m fs = .ok fs' ∧ fs'.tree = tree ∧ fs'.created = fs.created ∧
      fs.created.Nodup ∧ fs'.removed.Perm fs.created ∧ ∀ p ∈ fs'.removed, p ∉ tree.paths := by
  have hstart : Grown tree [] { tree, created := [], removed := [] } :=
    ⟨DirTree.Adds.refl tree, rfl, rfl⟩
  obtain ⟨m, fs, hinit, hgrown, hnamed⟩ := lkmMemInit_spec hstart answers
  have hcreated : fs.created.Perm m.made.reduceOption := by
    rw [hgrown.created]
    exact (List.reverse_perm _).filterMap id
  have hremoved : (fs.removed ++ entriesOf m.removals).Perm fs.created := by
    rw [hgrown.removed, List.nil_append]
    exact ((made_perm m).symm.filterMap id).trans hcreated.symm
  obtain ⟨hnodup, hnew⟩ := hgrown.adds.nodup_disjoint
  refine ⟨m, fs, _, hinit, lkmMemExit_spec hgrown hnamed, rfl, rfl, hcreated.nodup_iff.mpr hnodup,
    hremoved, ?_⟩
  intro p hp
  exact (hnew p ((hremoved.trans hcreated).mem_iff.mp hp)).2

end LkmSandbox.Memory
