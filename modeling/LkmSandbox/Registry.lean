import LkmSandbox.Kernel
import Mathlib.Data.List.Basic

/-!
# Kernel registries

What a module takes from the kernel when it is loaded: device numbers, character devices, memory,
entries in `/proc` and in debugfs. Each call either fails, leaving the registries alone, or takes
one thing more. Whether it fails is answered from outside, except that a number or name already
taken always makes it fail.

* `Registry.Attempt` — what there is to know of a call that may fail. One lemma for each call
  (`allocChrdevRegion_attempt` and so on) says when it succeeds.
* `Registry.holdings` — how much is taken. Every success adds to it, so nothing but a release undoes
  one (`ne_of_holdings_lt`).
* `undone_iff` — when an init that fails leaves the registries as they were
-/

namespace LkmSandbox

/-- An error code as kernel calls return it. -/
structure ErrCode where
  val : Int
  neg : val < 0

/-- `dev_t`, made by `MKDEV`. -/
structure DevT where
  major : Int
  minor : Nat
deriving DecidableEq

/-- `count` consecutive device numbers of one major. -/
structure Region where
  dev : DevT
  count : Nat
deriving DecidableEq

/-- Two regions have a device number in common. -/
def Region.overlaps (a b : Region) : Bool :=
  a.dev.major == b.dev.major && a.dev.minor < b.dev.minor + b.count &&
    b.dev.minor < a.dev.minor + a.count

/-- The names from the root down to an entry. -/
abbrev Path := List String

/-- What is taken, the latest first. -/
structure Registry where
  regions : List Region
  cdevs : List Region
  blocks : List Nat
  proc : List Path
  debugfs : List Path
deriving DecidableEq

namespace Registry

/-- Nothing is taken. -/
def empty : Registry := { regions := [], cdevs := [], blocks := [], proc := [], debugfs := [] }

def holdings (r : Registry) : Nat :=
  r.regions.length + r.cdevs.length + r.blocks.length + r.proc.length + r.debugfs.length

theorem ne_of_holdings_lt {r r' : Registry} (h : r.holdings < r'.holdings) : r' ≠ r := by
  rintro rfl
  exact Nat.lt_irrefl _ h

/-! ## Device numbers -/

/-- No device number of `region` is taken. -/
def Fits (r : Registry) (region : Region) : Prop := ¬ r.regions.any region.overlaps

instance (r : Registry) (region : Region) : Decidable (r.Fits region) :=
  inferInstanceAs (Decidable (¬ _))

/-- Take a region where it fits. -/
def claim (r : Registry) (region : Region) : Int × Registry :=
  if r.Fits region then (0, { r with regions := region :: r.regions }) else (-ebusy, r)

/-- `alloc_chrdev_region`, which answers with an error or with the major it picks. -/
def allocChrdevRegion (answer : Except ErrCode Nat) (baseminor count : Nat) (r : Registry) :
    Int × DevT × Registry :=
  match answer with
  | .error e => (e.val, ⟨0, 0⟩, r)
  | .ok major =>
    let dev : DevT := ⟨major, baseminor⟩
    ((r.claim ⟨dev, count⟩).1, dev, (r.claim ⟨dev, count⟩).2)

/-- `register_chrdev_region` -/
def registerChrdevRegion (answer : Option ErrCode) (dev : DevT) (count : Nat) (r : Registry) :
    Int × Registry :=
  match answer with
  | some e => (e.val, r)
  | none => r.claim ⟨dev, count⟩

/-- The minors that `register_chrdev` takes of a major. -/
def chrdevMinors : Nat := 256

/--
`register_chrdev`: takes all minors of a major and adds a character device for them. Major 0 stands
for one that the kernel picks, and only then is it what is returned.
-/
def registerChrdev (answer : Except ErrCode Nat) (major : Int) (r : Registry) : Int × Registry :=
  match answer with
  | .error e => (e.val, r)
  | .ok picked =>
    let region : Region := ⟨⟨if major = 0 then picked else major, 0⟩, chrdevMinors⟩
    if r.Fits region then
      (if major = 0 then picked else 0,
        { r with regions := region :: r.regions, cdevs := region :: r.cdevs })
    else (-ebusy, r)

/-- `cdev_add` -/
def cdevAdd (answer : Option ErrCode) (dev : DevT) (count : Nat) (r : Registry) : Int × Registry :=
  match answer with
  | some e => (e.val, r)
  | none => (0, { r with cdevs := ⟨dev, count⟩ :: r.cdevs })

/-! ## Memory -/

/-- `kmalloc`: a block that is not in use, or `NULL`. -/
def kmalloc (answer : Bool) (r : Registry) : Option Nat × Registry :=
  if answer then
    (some (r.blocks.foldr max 0 + 1), { r with blocks := (r.blocks.foldr max 0 + 1) :: r.blocks })
  else (none, r)

/-! ## Entries in file systems -/

/-- `proc_create_single` below the root: whether it gave an entry, not `NULL`. -/
def procCreateSingle (answer : Bool) (name : String) (r : Registry) : Bool × Registry :=
  if answer ∧ [name] ∉ r.proc then (true, { r with proc := [name] :: r.proc }) else (false, r)

/-- What a debugfs call returns: an entry, `NULL`, or an error pointer. -/
inductive Dentry where
  | entry (path : Path)
  | null
  | error
deriving DecidableEq

/--
How a debugfs call turns out: whether it may succeed, and whether it returns `NULL` where it fails
(it is an error pointer otherwise).
-/
structure DebugfsAnswer where
  ok : Bool
  nullOnFailure : Bool

def DebugfsAnswer.failure (answer : DebugfsAnswer) : Dentry :=
  if answer.nullOnFailure then .null else .error

/--
`debugfs_create_dir`, `debugfs_create_u64` and `debugfs_create_file`: make `name` in a directory,
the root for `NULL`. An error pointer is passed on.
-/
def debugfsCreate (answer : DebugfsAnswer) (name : String) (parent : Dentry) (r : Registry) :
    Dentry × Registry :=
  match parent with
  | .error => (.error, r)
  | .null => create []
  | .entry path => create path
where
  create (path : Path) : Dentry × Registry :=
    if answer.ok ∧ path ++ [name] ∉ r.debugfs then
      (.entry (path ++ [name]), { r with debugfs := (path ++ [name]) :: r.debugfs })
    else (answer.failure, r)

/-! ## Releases -/

/-- `unregister_chrdev_region` -/
def unregisterChrdevRegion (dev : DevT) (count : Nat) (r : Registry) : Registry :=
  { r with regions := r.regions.erase ⟨dev, count⟩ }

/-- `unregister_chrdev`: the region of all minors, and its character device. -/
def unregisterChrdev (major : Int) (r : Registry) : Registry :=
  let region : Region := ⟨⟨major, 0⟩, chrdevMinors⟩
  if region ∈ r.regions then
    { r with regions := r.regions.erase region, cdevs := r.cdevs.erase region }
  else r

/-- `cdev_del` -/
def cdevDel (dev : DevT) (count : Nat) (r : Registry) : Registry :=
  { r with cdevs := r.cdevs.erase ⟨dev, count⟩ }

/-- `kfree` -/
def kfree (block : Nat) (r : Registry) : Registry := { r with blocks := r.blocks.erase block }

/-- `remove_proc_entry` below the root -/
def removeProcEntry (name : String) (r : Registry) : Registry :=
  { r with proc := r.proc.erase [name] }

/-- `debugfs_remove_recursive` -/
def debugfsRemoveRecursive (dentry : Dentry) (r : Registry) : Registry :=
  match dentry with
  | .entry path => { r with debugfs := r.debugfs.filter fun p => ¬ path <+: p }
  | _ => r

/-! ## When calls succeed -/

/-- A call that may fail: it takes something, or the registries stay as they are. -/
structure Attempt (ok : Prop) (failed : Prop) (r r' : Registry) : Prop where
  taken : ok → ¬ failed ∧ r.holdings < r'.holdings
  kept : ¬ ok → failed ∧ r' = r

theorem Attempt.kept_of_failed {ok failed : Prop} {r r' : Registry} (h : Attempt ok failed r r')
    (hf : failed) : r' = r :=
  (h.kept fun hok => (h.taken hok).1 hf).2

variable {r : Registry}

theorem fits_cons {region other : Region} {cdevs : List Region} :
    ({ r with regions := other :: r.regions, cdevs := cdevs } : Registry).Fits region
      ↔ region.overlaps other = false ∧ r.Fits region := by
  simp [Fits]

theorem claim_attempt (region : Region) :
    Attempt (r.Fits region) ((r.claim region).1 < 0) r (r.claim region).2 := by
  unfold claim
  constructor
  · intro h
    rw [if_pos h]
    refine ⟨(by decide : ¬ (0 : Int) < 0), ?_⟩
    unfold holdings
    simp only [List.length_cons]
    omega
  · intro h
    rw [if_neg h]
    exact ⟨(by decide : -ebusy < 0), rfl⟩

/-- `alloc_chrdev_region` succeeds: the major it answers with is free. -/
def Allocates (r : Registry) (answer : Except ErrCode Nat) (baseminor count : Nat) : Prop :=
  ∃ major, answer = .ok major ∧ r.Fits ⟨⟨major, baseminor⟩, count⟩

theorem allocChrdevRegion_attempt (answer : Except ErrCode Nat) (baseminor count : Nat) :
    Attempt (r.Allocates answer baseminor count)
      ((r.allocChrdevRegion answer baseminor count).1 < 0) r
      (r.allocChrdevRegion answer baseminor count).2.2 := by
  cases answer with
  | error e => exact ⟨fun ⟨_, h, _⟩ => (nomatch h), fun _ => ⟨e.neg, rfl⟩⟩
  | ok major =>
    have h := claim_attempt (r := r) ⟨⟨major, baseminor⟩, count⟩
    exact ⟨fun ⟨_, hm, hfits⟩ => h.taken (by cases hm; exact hfits),
      fun hno => h.kept fun hfits => hno ⟨major, rfl, hfits⟩⟩

theorem registerChrdevRegion_attempt (answer : Option ErrCode) (dev : DevT) (count : Nat) :
    Attempt (answer = none ∧ r.Fits ⟨dev, count⟩)
      ((r.registerChrdevRegion answer dev count).1 < 0) r
      (r.registerChrdevRegion answer dev count).2 := by
  cases answer with
  | some e => exact ⟨fun h => (nomatch h.1), fun _ => ⟨e.neg, rfl⟩⟩
  | none =>
    have h := claim_attempt (r := r) ⟨dev, count⟩
    exact ⟨fun hok => h.taken hok.2, fun hno => h.kept fun hfits => hno ⟨rfl, hfits⟩⟩

/-- `register_chrdev` succeeds: all minors of the major are free. -/
def RegistersChrdev (r : Registry) (answer : Except ErrCode Nat) (major : Int) : Prop :=
  ∃ picked : Nat, answer = .ok picked ∧
    r.Fits ⟨⟨if major = 0 then picked else major, 0⟩, chrdevMinors⟩

theorem registerChrdev_attempt (answer : Except ErrCode Nat) (major : Int) :
    Attempt (r.RegistersChrdev answer major) ((r.registerChrdev answer major).1 < 0) r
      (r.registerChrdev answer major).2 := by
  cases answer with
  | error e => exact ⟨fun ⟨_, h, _⟩ => (nomatch h), fun _ => ⟨e.neg, rfl⟩⟩
  | ok picked =>
    unfold registerChrdev
    simp only
    constructor
    · rintro ⟨_, hp, hfits⟩
      cases hp
      rw [if_pos hfits]
      refine ⟨by simp only; split <;> omega, ?_⟩
      unfold holdings
      simp only [List.length_cons]
      omega
    · intro hno
      rw [if_neg fun hfits => hno ⟨picked, rfl, hfits⟩]
      exact ⟨(by decide : -ebusy < 0), rfl⟩

theorem cdevAdd_attempt (answer : Option ErrCode) (dev : DevT) (count : Nat) :
    Attempt (answer = none) ((r.cdevAdd answer dev count).1 < 0) r
      (r.cdevAdd answer dev count).2 := by
  cases answer with
  | some e => exact ⟨fun h => (nomatch h), fun _ => ⟨e.neg, rfl⟩⟩
  | none =>
    refine ⟨fun _ => ⟨by simp [cdevAdd], ?_⟩, fun h => absurd rfl h⟩
    unfold holdings cdevAdd
    simp only [List.length_cons]
    omega

theorem kmalloc_attempt (answer : Bool) :
    Attempt (answer = true) ((r.kmalloc answer).1 = none) r (r.kmalloc answer).2 := by
  cases answer with
  | false => exact ⟨fun h => absurd h Bool.false_ne_true, fun _ => ⟨rfl, rfl⟩⟩
  | true =>
    refine ⟨fun _ => ⟨by simp [kmalloc], ?_⟩, fun h => absurd rfl h⟩
    unfold holdings kmalloc
    simp only [if_true, List.length_cons]
    omega

theorem procCreateSingle_attempt (answer : Bool) (name : String) :
    Attempt (answer = true ∧ [name] ∉ r.proc) ((r.procCreateSingle answer name).1 = false) r
      (r.procCreateSingle answer name).2 := by
  unfold procCreateSingle
  constructor
  · intro h
    rw [if_pos h]
    refine ⟨by simp, ?_⟩
    unfold holdings
    simp only [List.length_cons]
    omega
  · intro h
    rw [if_neg h]
    exact ⟨rfl, rfl⟩

end Registry

/-! ## Loading -/

/-- An init that fails leaves the registries as they were. -/
def Undone {σ : Type} (out : Int × σ × Registry) (r : Registry) : Prop := out.1 ≠ 0 → out.2.2 = r

/--
An init that leaves the registries alone unless its first step succeeds, and has more than it found
once it does, is undone where it is not a later step that fails.
-/
theorem undone_iff {σ : Type} {out : Int × σ × Registry} {r : Registry} {first later : Prop}
    (hnone : ¬ first → out.2.2 = r)
    (hsome : first → (out.1 ≠ 0 ↔ later) ∧ r.holdings < out.2.2.holdings) :
    Undone out r ↔ ¬ (first ∧ later) := by
  unfold Undone
  by_cases h : first
  · obtain ⟨hfail, hmore⟩ := hsome h
    rw [hfail]
    constructor
    · rintro hkept ⟨-, hlater⟩
      exact Registry.ne_of_holdings_lt hmore (hkept hlater)
    · intro hno hlater
      exact absurd ⟨h, hlater⟩ hno
  · exact iff_of_true (fun _ => hnone h) fun hboth => h hboth.1

end LkmSandbox
