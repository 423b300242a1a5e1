import LkmSandbox.Registry
import Mathlib.Data.Multiset.AddSub
import Mathlib.Data.Multiset.Filter

/-!
# What is taken, as a whole

The registries keep what is taken in the order in which it was, and modules come and go in any
order. What counts is the multiset of things taken.

* `Registry.things_eq_iff` — the same things are taken iff the registries agree up to the order
* `things_cons_region` and so on, `things_unregisterChrdevRegion` and so on — calls that take
  something, and releases
-/

namespace LkmSandbox

/-- A thing that a registry holds. -/
inductive Thing where
  | region (region : Region)
  | cdev (region : Region)
  | block (block : Nat)
  | proc (path : Path)
  | debugfs (path : Path)
deriving DecidableEq

/-- An entry of debugfs that is `root` or below it. -/
def Thing.below (root : Path) : Thing → Bool
  | .debugfs path => decide (root <+: path)
  | _ => false

namespace Registry

/-- What is taken. -/
def things (r : Registry) : Multiset Thing :=
  (r.regions.map Thing.region ++ r.cdevs.map Thing.cdev ++ r.blocks.map Thing.block
    ++ r.proc.map Thing.proc ++ r.debugfs.map Thing.debugfs : List Thing)

variable {r : Registry}

section

open List (count_map_of_injective count_eq_zero_of_not_mem)

@[simp] theorem count_region (region : Region) :
    r.things.count (.region region) = r.regions.count region := by
  unfold things
  rw [← count_map_of_injective r.regions Thing.region (fun _ _ => Thing.region.inj) region]
  simp [count_eq_zero_of_not_mem]

@[simp] theorem count_cdev (region : Region) :
    r.things.count (.cdev region) = r.cdevs.count region := by
  unfold things
  rw [← count_map_of_injective r.cdevs Thing.cdev (fun _ _ => Thing.cdev.inj) region]
  simp [count_eq_zero_of_not_mem]

@[simp] theorem count_block (block : Nat) :
    r.things.count (.block block) = r.blocks.count block := by
  unfold things
  rw [← count_map_of_injective r.blocks Thing.block (fun _ _ => Thing.block.inj) block]
  simp [count_eq_zero_of_not_mem]

@[simp] theorem count_proc (path : Path) : r.things.count (.proc path) = r.proc.count path := by
  unfold things
  rw [← count_map_of_injective r.proc Thing.proc (fun _ _ => Thing.proc.inj) path]
  simp [count_eq_zero_of_not_mem]

@[simp] theorem count_debugfs (path : Path) :
    r.things.count (.debugfs path) = r.debugfs.count path := by
  unfold things
  rw [← count_map_of_injective r.debugfs Thing.debugfs (fun _ _ => Thing.debugfs.inj) path]
  simp [count_eq_zero_of_not_mem]

end

theorem region_mem_things {region : Region} :
    Thing.region region ∈ r.things ↔ region ∈ r.regions := by
  rw [← Multiset.one_le_count_iff_mem, count_region, List.one_le_count_iff]

theorem cdev_mem_things {region : Region} : Thing.cdev region ∈ r.things ↔ region ∈ r.cdevs := by
  rw [← Multiset.one_le_count_iff_mem, count_cdev, List.one_le_count_iff]

theorem debugfs_mem_things {path : Path} : Thing.debugfs path ∈ r.things ↔ path ∈ r.debugfs := by
  rw [← Multiset.one_le_count_iff_mem, count_debugfs, List.one_le_count_iff]

/-- The registries are the same up to the order. -/
structure Perm (r r' : Registry) : Prop where
  regions : r.regions.Perm r'.regions
  cdevs : r.cdevs.Perm r'.cdevs
  blocks : r.blocks.Perm r'.blocks
  proc : r.proc.Perm r'.proc
  debugfs : r.debugfs.Perm r'.debugfs

theorem things_eq_iff {r' : Registry} : r.things = r'.things ↔ r.Perm r' := by
  rw [Multiset.ext]
  constructor
  · intro h
    exact ⟨List.perm_iff_count.mpr fun x => by simpa using h (.region x),
      List.perm_iff_count.mpr fun x => by simpa using h (.cdev x),
      List.perm_iff_count.mpr fun x => by simpa using h (.block x),
      List.perm_iff_count.mpr fun x => by simpa using h (.proc x),
      List.perm_iff_count.mpr fun x => by simpa using h (.debugfs x)⟩
  · intro h x
    cases x with
    | region region => simpa using h.regions.count_eq region
    | cdev region => simpa using h.cdevs.count_eq region
    | block block => simpa using h.blocks.count_eq block
    | proc path => simpa using h.proc.count_eq path
    | debugfs path => simpa using h.debugfs.count_eq path

/-! ### What is taken in addition -/

theorem count_cons {α : Type} [BEq α] [LawfulBEq α] [DecidableEq α] (a x : α) (l : List α) :
    (a :: l).count x = l.count x + if x = a then 1 else 0 := by
  rw [List.count_cons]
  by_cases h : x = a
  · simp [h]
  · simp [h, Ne.symm h]

variable {regions cdevs : List Region} {blocks : List Nat} {proc debugfs : List Path}

@[simp] theorem things_cons_region (region : Region) :
    (mk (region :: regions) cdevs blocks proc debugfs).things
      = {.region region} + (mk regions cdevs blocks proc debugfs).things := by
  ext x
  cases x <;> simp [count_cons, Multiset.count_cons]

@[simp] theorem things_cons_cdev (region : Region) :
    (mk regions (region :: cdevs) blocks proc debugfs).things
      = {.cdev region} + (mk regions cdevs blocks proc debugfs).things := by
  ext x
  cases x <;> simp [count_cons, Multiset.count_cons]

@[simp] theorem things_cons_block (block : Nat) :
    (mk regions cdevs (block :: blocks) proc debugfs).things
      = {.block block} + (mk regions cdevs blocks proc debugfs).things := by
  ext x
  cases x <;> simp [count_cons, Multiset.count_cons]

@[simp] theorem things_cons_proc (path : Path) :
    (mk regions cdevs blocks (path :: proc) debugfs).things
      = {.proc path} + (mk regions cdevs blocks proc debugfs).things := by
  ext x
  cases x <;> simp [count_cons, Multiset.count_cons]

@[simp] theorem things_cons_debugfs (path : Path) :
    (mk regions cdevs blocks proc (path :: debugfs)).things
      = {.debugfs path} + (mk regions cdevs blocks proc debugfs).things := by
  ext x
  cases x <;> simp [count_cons, Multiset.count_cons]

/-! ### What releases leave -/

theorem count_erase {α : Type} [BEq α] [LawfulBEq α] [DecidableEq α] (a x : α) (l : List α) :
    (l.erase a).count x = l.count x - if x = a then 1 else 0 := by
  rw [List.count_erase]
  by_cases h : x = a
  · simp [h]
  · simp [h, Ne.symm h]

theorem things_unregisterChrdevRegion (dev : DevT) (count : Nat) :
    (r.unregisterChrdevRegion dev count).things = r.things - {.region ⟨dev, count⟩} := by
  ext x
  cases x <;>
    simp [unregisterChrdevRegion, Multiset.count_singleton, count_erase, -Multiset.sub_singleton]

theorem things_cdevDel (dev : DevT) (count : Nat) :
    (r.cdevDel dev count).things = r.things - {.cdev ⟨dev, count⟩} := by
  ext x
  cases x <;> simp [cdevDel, Multiset.count_singleton, count_erase, -Multiset.sub_singleton]

theorem things_kfree (block : Nat) : (r.kfree block).things = r.things - {.block block} := by
  ext x
  cases x <;> simp [kfree, Multiset.count_singleton, count_erase, -Multiset.sub_singleton]

theorem things_removeProcEntry (name : String) :
    (r.removeProcEntry name).things = r.things - {.proc [name]} := by
  ext x
  cases x <;> simp [removeProcEntry, Multiset.count_singleton, count_erase, -Multiset.sub_singleton]

theorem things_unregisterChrdev {major : Int} (h : ⟨⟨major, 0⟩, chrdevMinors⟩ ∈ r.regions) :
    (r.unregisterChrdev major).things
      = r.things - {.region ⟨⟨major, 0⟩, chrdevMinors⟩} - {.cdev ⟨⟨major, 0⟩, chrdevMinors⟩} := by
  unfold unregisterChrdev
  simp only [if_pos h]
  ext x
  cases x <;> simp [Multiset.count_singleton, count_erase, -Multiset.sub_singleton]

theorem things_debugfsRemoveRecursive (root : Path) :
    (r.debugfsRemoveRecursive (.entry root)).things
      = r.things.filter fun x => ¬ x.below root := by
  ext x
  cases x with
  | debugfs path =>
    by_cases h : root <+: path
    · simp [debugfsRemoveRecursive, Thing.below, h, List.count_eq_zero_of_not_mem]
    · rw [Multiset.count_filter_of_pos (by simpa [Thing.below] using h)]
      simp [debugfsRemoveRecursive, h, List.count_filter]
  | _ => simp [debugfsRemoveRecursive, Thing.below]

end Registry

end LkmSandbox
