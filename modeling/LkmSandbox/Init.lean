import LkmSandbox.Debugfs
import LkmSandbox.Device.Driver

/-!
# Loading and unloading

The init functions of the modules that take something from the kernel in more than one step. Each
returns as soon as a step fails, and none gives back what the steps before it took; the exit
functions do, but are not run after a load that failed.

* `failed_init_undone_iff` — for each module, when a failing init leaves the registries as they were
* `lkmMev_unload`, `lkmDeviceNumbers_unload`, `lkmDebugfs_unload` — a load that succeeds is undone
  by the exit function
* `lkmDevice_unload_iff` — for `lkm_device` this is so iff the kernel has picked the major
-/

namespace LkmSandbox

/-! ## `lkm_mev` -/

/-- `LKM_MEV_DEVICE_COUNT` -/
def lkmMevDeviceCount : Nat := 1

/-- `LKM_MEV_DEVICE_MINOR` -/
def lkmMevDeviceMinor : Nat := 0

/-- The variables of the module that say what it has taken. -/
structure MevModule where
  mevDevice : DevT
  devContainer : Option Nat

/-- What the kernel calls of `lkm_mev_init` answer. -/
structure MevAnswers where
  region : Except ErrCode Nat
  container : Bool
  cdev : Option ErrCode

/-- `lkm_mev_setup_cdev`, less the container's own fields -/
def lkmMevSetupCdev (answer : Option ErrCode) (mevDevice : DevT) (index : Nat) (r : Registry) :
    Int × Registry :=
  let devNo : DevT := ⟨mevDevice.major, mevDevice.minor + index⟩
  let (rc, r) := r.cdevAdd answer devNo 1
  if rc < 0 then (rc, r) else (0, r)

/-- `lkm_mev_init` -/
def lkmMevInit (answers : MevAnswers) (r : Registry) : Int × MevModule × Registry :=
  let (rc, mevDevice, r) := r.allocChrdevRegion answers.region lkmMevDeviceMinor lkmMevDeviceCount
  if rc < 0 then (rc, ⟨mevDevice, none⟩, r)
  else
    let (devContainer, r) := r.kmalloc answers.container
    if devContainer = none then (-enomem, ⟨mevDevice, devContainer⟩, r)
    else
      let (rc, r) := lkmMevSetupCdev answers.cdev mevDevice 0 r
      if rc < 0 then (rc, ⟨mevDevice, devContainer⟩, r) else (0, ⟨mevDevice, devContainer⟩, r)

/-- `lkm_mev_exit`, less the trimming of the container -/
def lkmMevExit (m : MevModule) (r : Registry) : Registry :=
  let r := match m.devContainer with
    | some block => (r.cdevDel m.mevDevice 1).kfree block
    | none => r
  if m.mevDevice ≠ ⟨0, 0⟩ then r.unregisterChrdevRegion m.mevDevice lkmMevDeviceCount else r

/-! ## `lkm_device_numbers` -/

/-- `LKM_DYNAMIC_DEV_MINOR`, `LKM_DYNAMIC_DEV_COUNT` and `LKM_STATIC_DEV_COUNT` -/
def lkmDynamicDevMinor : Nat := 0
def lkmDynamicDevCount : Nat := 1
def lkmStaticDevCount : Nat := 1

/-- `MKDEV(LKM_STATIC_DEV_MAJOR, LKM_STATIC_DEV_MINOR)` -/
def lkmStaticDev : DevT := ⟨300, 0⟩

/-- The variables of the module. -/
structure NumbersModule where
  ddev : DevT
  sdev : DevT

/-- What the kernel calls of `lkm_device_numbers_init` answer. -/
structure NumbersAnswers where
  dynamicDev : Except ErrCode Nat
  staticDev : Option ErrCode

/-- `lkm_device_numbers_init` -/
def lkmDeviceNumbersInit (answers : NumbersAnswers) (r : Registry) :
    Int × NumbersModule × Registry :=
  let (rc, ddev, r) := r.allocChrdevRegion answers.dynamicDev lkmDynamicDevMinor lkmDynamicDevCount
  if rc < 0 then (rc, ⟨ddev, ⟨0, 0⟩⟩, r)
  else
    let sdev := lkmStaticDev
    let (rc, r) := r.registerChrdevRegion answers.staticDev sdev lkmStaticDevCount
    if rc < 0 then (rc, ⟨ddev, sdev⟩, r) else (0, ⟨ddev, sdev⟩, r)

/-- `lkm_device_numbers_exit` -/
def lkmDeviceNumbersExit (m : NumbersModule) (r : Registry) : Registry :=
  let r := if m.ddev ≠ ⟨0, 0⟩ then r.unregisterChrdevRegion m.ddev lkmDynamicDevCount else r
  if m.sdev ≠ ⟨0, 0⟩ then r.unregisterChrdevRegion m.sdev lkmStaticDevCount else r

/-! ## Failing loads -/

section

variable {r : Registry}

open Registry

/-- With the region taken, `lkm_mev_init` fails where one of the later steps does. -/
theorem lkmMevInit_of_allocates {answers : MevAnswers}
    (h : r.Allocates answers.region lkmMevDeviceMinor lkmMevDeviceCount) :
    ((lkmMevInit answers r).1 ≠ 0 ↔ ¬ (answers.container = true ∧ answers.cdev = none)) ∧
      r.holdings < (lkmMevInit answers r).2.2.holdings := by
  have hregion := (allocChrdevRegion_attempt _ _ _).taken h
  rcases hcall : r.allocChrdevRegion answers.region lkmMevDeviceMinor lkmMevDeviceCount
    with ⟨rc, mevDevice, r₁⟩
  rw [hcall] at hregion
  obtain ⟨hrc, hmore₁⟩ : ¬ rc < 0 ∧ r.holdings < r₁.holdings := hregion
  have hmem := kmalloc_attempt (r := r₁) answers.container
  rcases hkm : r₁.kmalloc answers.container with ⟨devContainer, r₂⟩
  rw [hkm] at hmem
  unfold lkmMevInit
  simp only [hcall, if_neg hrc, hkm]
  by_cases hc : answers.container = true
  · obtain ⟨hblock, hmore₂⟩ : ¬ devContainer = none ∧ r₁.holdings < r₂.holdings := hmem.taken hc
    have hadd := cdevAdd_attempt (r := r₂) answers.cdev ⟨mevDevice.major, mevDevice.minor + 0⟩ 1
    rcases hcdev : r₂.cdevAdd answers.cdev ⟨mevDevice.major, mevDevice.minor + 0⟩ 1 with ⟨rc', r₃⟩
    rw [hcdev] at hadd
    simp only [if_neg hblock, lkmMevSetupCdev, hcdev]
    by_cases hcd : answers.cdev = none
    · obtain ⟨hrc', hmore₃⟩ : ¬ rc' < 0 ∧ r₂.holdings < r₃.holdings := hadd.taken hcd
      simp only [if_neg hrc', if_neg (Int.lt_irrefl 0)]
      exact ⟨iff_of_false (fun hne => hne rfl) fun hno => hno ⟨hc, hcd⟩, by omega⟩
    · obtain ⟨hrc', rfl⟩ : rc' < 0 ∧ r₃ = r₂ := hadd.kept hcd
      simp only [if_pos hrc']
      exact ⟨iff_of_true (by omega) fun hok => hcd hok.2, by omega⟩
  · obtain ⟨hnull, rfl⟩ : devContainer = none ∧ r₂ = r₁ := hmem.kept hc
    rw [if_pos hnull]
    exact ⟨iff_of_true (by decide : -enomem ≠ 0) fun hok => hc hok.1, hmore₁⟩

/-- With `register_chrdev` done, `lkm_device_init` fails where the `/proc` entry does. -/
theorem lkmDeviceInit_of_registers {paramMajorNum : Int} {chrdev : Except ErrCode Nat} {proc : Bool}
    (h : r.RegistersChrdev chrdev paramMajorNum) :
    ((Device.lkmDeviceInit paramMajorNum chrdev proc r).1 ≠ 0
      ↔ ¬ (proc = true ∧ [procFileName] ∉ r.proc)) ∧
      r.holdings < (Device.lkmDeviceInit paramMajorNum chrdev proc r).2.2.holdings := by
  have hreg := (registerChrdev_attempt chrdev paramMajorNum).taken h
  have hproc : (r.registerChrdev chrdev paramMajorNum).2.proc = r.proc := by
    obtain ⟨picked, rfl, hfits⟩ := h
    unfold registerChrdev
    simp only [if_pos hfits]
  rcases hcall : r.registerChrdev chrdev paramMajorNum with ⟨majorNum, r₁⟩
  rw [hcall] at hreg hproc
  obtain ⟨hmajor, hmore₁⟩ : ¬ majorNum < 0 ∧ r.holdings < r₁.holdings := hreg
  have hentry := procCreateSingle_attempt (r := r₁) proc procFileName
  rcases hcreate : r₁.procCreateSingle proc procFileName with ⟨entry, r₂⟩
  rw [hcreate, hproc] at hentry
  unfold Device.lkmDeviceInit Device.deviceInitSub Device.procInitSub
  simp only [hcall, if_neg hmajor, if_neg (Int.lt_irrefl 0), hcreate]
  by_cases hok : proc = true ∧ [procFileName] ∉ r.proc
  · obtain ⟨hgiven, hmore₂⟩ : ¬ entry = false ∧ r₁.holdings < r₂.holdings := hentry.taken hok
    simp only [if_neg hgiven, if_neg (Int.lt_irrefl 0)]
    exact ⟨iff_of_false (fun hne => hne rfl) fun hno => hno hok, by omega⟩
  · obtain ⟨hnull, rfl⟩ : entry = false ∧ r₂ = r₁ := hentry.kept hok
    simp only [if_pos hnull, if_pos (by decide : (-1 : Int) < 0)]
    exact ⟨iff_of_true (by decide : (-2 : Int) ≠ 0) hok, hmore₁⟩

/-- With the dynamic number taken, the init fails where the static one cannot be had. -/
theorem lkmDeviceNumbersInit_of_allocates {answers : NumbersAnswers}
    (h : r.Allocates answers.dynamicDev lkmDynamicDevMinor lkmDynamicDevCount) :
    ((lkmDeviceNumbersInit answers r).1 ≠ 0
      ↔ ¬ (answers.staticDev = none ∧ answers.dynamicDev ≠ .ok 300 ∧
        r.Fits ⟨lkmStaticDev, lkmStaticDevCount⟩)) ∧
      r.holdings < (lkmDeviceNumbersInit answers r).2.2.holdings := by
  have hregion := (allocChrdevRegion_attempt answers.dynamicDev _ _).taken h
  have hfits : (r.allocChrdevRegion answers.dynamicDev lkmDynamicDevMinor
      lkmDynamicDevCount).2.2.Fits ⟨lkmStaticDev, lkmStaticDevCount⟩
        ↔ answers.dynamicDev ≠ .ok 300 ∧ r.Fits ⟨lkmStaticDev, lkmStaticDevCount⟩ := by
    obtain ⟨major, hmajor, hfits⟩ := h
    rw [hmajor]
    unfold allocChrdevRegion claim
    simp only [if_pos hfits, fits_cons]
    refine and_congr_left ?_
    intro _
    simp only [Region.overlaps, lkmStaticDev, lkmStaticDevCount, lkmDynamicDevMinor,
      lkmDynamicDevCount, ne_eq, Except.ok.injEq]
    simp
    omega
  rcases hcall : r.allocChrdevRegion answers.dynamicDev lkmDynamicDevMinor lkmDynamicDevCount
    with ⟨rc, ddev, r₁⟩
  rw [hcall] at hregion hfits
  obtain ⟨hrc, hmore₁⟩ : ¬ rc < 0 ∧ r.holdings < r₁.holdings := hregion
  have hstatic := registerChrdevRegion_attempt (r := r₁) answers.staticDev lkmStaticDev
    lkmStaticDevCount
  rcases hreg : r₁.registerChrdevRegion answers.staticDev lkmStaticDev lkmStaticDevCount
    with ⟨rc', r₂⟩
  rw [hreg, hfits] at hstatic
  unfold lkmDeviceNumbersInit
  simp only [hcall, if_neg hrc, hreg]
  by_cases hok : answers.staticDev = none ∧ answers.dynamicDev ≠ .ok 300 ∧
      r.Fits ⟨lkmStaticDev, lkmStaticDevCount⟩
  · obtain ⟨hrc', hmore₂⟩ : ¬ rc' < 0 ∧ r₁.holdings < r₂.holdings := hstatic.taken hok
    simp only [if_neg hrc']
    exact ⟨iff_of_false (fun hne => hne rfl) fun hno => hno hok, by omega⟩
  · obtain ⟨hrc', rfl⟩ : rc' < 0 ∧ r₂ = r₁ := hstatic.kept hok
    simp only [if_pos hrc']
    exact ⟨iff_of_true (by omega) hok, hmore₁⟩

theorem lkmMevInit_of_not_allocates {answers : MevAnswers}
    (h : ¬ r.Allocates answers.region lkmMevDeviceMinor lkmMevDeviceCount) :
    (lkmMevInit answers r).2.2 = r := by
  obtain ⟨hrc, hr⟩ := (allocChrdevRegion_attempt _ _ _).kept h
  unfold lkmMevInit
  simp only [if_pos hrc, hr]

theorem lkmDeviceInit_of_not_registers {paramMajorNum : Int} {chrdev : Except ErrCode Nat}
    {proc : Bool} (h : ¬ r.RegistersChrdev chrdev paramMajorNum) :
    (Device.lkmDeviceInit paramMajorNum chrdev proc r).2.2 = r := by
  obtain ⟨hrc, hr⟩ := (registerChrdev_attempt chrdev paramMajorNum).kept h
  unfold Device.lkmDeviceInit Device.deviceInitSub
  simp only [if_pos hrc, if_pos (by decide : (-1 : Int) < 0), hr]

theorem lkmDeviceNumbersInit_of_not_allocates {answers : NumbersAnswers}
    (h : ¬ r.Allocates answers.dynamicDev lkmDynamicDevMinor lkmDynamicDevCount) :
    (lkmDeviceNumbersInit answers r).2.2 = r := by
  obtain ⟨hrc, hr⟩ := (allocChrdevRegion_attempt _ _ _).kept h
  unfold lkmDeviceNumbersInit
  simp only [if_pos hrc, hr]

end

/--
**When a failing init is undone.** For each module and any registries: iff it is not the case that
its first step succeeds and a later one fails.
-/
theorem failed_init_undone_iff (r : Registry) :
    (∀ answers, Undone (lkmMevInit answers r) r
      ↔ ¬ (r.Allocates answers.region lkmMevDeviceMinor lkmMevDeviceCount ∧
        ¬ (answers.container = true ∧ answers.cdev = none))) ∧
    (∀ paramMajorNum chrdev proc, Undone (Device.lkmDeviceInit paramMajorNum chrdev proc r) r
      ↔ ¬ (r.RegistersChrdev chrdev paramMajorNum ∧
        ¬ (proc = true ∧ [procFileName] ∉ r.proc))) ∧
    (∀ answers, Undone (lkmDeviceNumbersInit answers r) r
      ↔ ¬ (r.Allocates answers.dynamicDev lkmDynamicDevMinor lkmDynamicDevCount ∧
        ¬ (answers.staticDev = none ∧ answers.dynamicDev ≠ .ok 300 ∧
          r.Fits ⟨lkmStaticDev, lkmStaticDevCount⟩))) ∧
    ∀ answers, Undone (lkmDebugfsInit answers r) r
      ↔ ¬ (answers.GivesDir r ∧ answers.RefusesMessage r) :=
  ⟨fun _ => undone_iff lkmMevInit_of_not_allocates lkmMevInit_of_allocates,
    fun _ _ _ => undone_iff lkmDeviceInit_of_not_registers lkmDeviceInit_of_registers,
    fun _ => undone_iff lkmDeviceNumbersInit_of_not_allocates lkmDeviceNumbersInit_of_allocates,
    fun answers => lkmDebugfsInit_undone_iff answers r⟩

/-- Registries in which another module has taken major 300 and the name `lkm_device_major`. -/
def othersLoaded : Registry :=
  { Registry.empty with regions := [⟨⟨300, 0⟩, 1⟩], proc := [["lkm_device_major"]] }

/--
Memory runs out when `lkm_mev` is loaded; the `/proc` name and the static number of the others are
taken; debugfs refuses a file. Each init fails, and leaves what its first step took.
-/
theorem failed_init_leaks :
    ¬ Undone (lkmMevInit { region := .ok 240, container := false, cdev := none } othersLoaded)
        othersLoaded ∧
    ¬ Undone (Device.lkmDeviceInit 0 (.ok 240) true othersLoaded) othersLoaded ∧
    ¬ Undone (lkmDeviceNumbersInit { dynamicDev := .ok 240, staticDev := none } othersLoaded)
        othersLoaded ∧
    ¬ Undone (lkmDebugfsInit { initialized := true, dir := ⟨true, true⟩, number := ⟨true, true⟩
                               message := ⟨false, true⟩ } othersLoaded) othersLoaded := by
  unfold Undone
  decide

/-! ## Unloading -/

section

variable {r : Registry}

open Registry

/-- A load that succeeds, and what it has taken. -/
theorem lkmMevInit_eq {answers : MevAnswers} (h : (lkmMevInit answers r).1 = 0) :
    ∃ major block, answers.region = .ok major ∧ lkmMevInit answers r
      = (0, ⟨⟨major, 0⟩, some block⟩, { r with regions := ⟨⟨major, 0⟩, 1⟩ :: r.regions
                                               cdevs := ⟨⟨major, 0⟩, 1⟩ :: r.cdevs
                                               blocks := block :: r.blocks }) := by
  by_cases hreg : r.Allocates answers.region lkmMevDeviceMinor lkmMevDeviceCount
  · obtain ⟨hc, hcd⟩ := (lkmMevInit_of_allocates hreg).1.not_left.mp (not_not.mpr h)
    obtain ⟨major, hmajor, hfits⟩ := hreg
    refine ⟨major, r.blocks.foldr max 0 + 1, hmajor, ?_⟩
    unfold lkmMevInit allocChrdevRegion claim
    simp only [hmajor, if_pos hfits, hc, hcd, kmalloc, lkmMevSetupCdev, cdevAdd]
    rfl
  · obtain ⟨hrc, -⟩ := (allocChrdevRegion_attempt answers.region _ _).kept hreg
    unfold lkmMevInit at h
    simp only [if_pos hrc] at h
    omega

/-- The kernel does not pick major 0. -/
theorem lkmMev_unload {answers : MevAnswers} (hpick : answers.region ≠ .ok 0)
    (h : (lkmMevInit answers r).1 = 0) :
    lkmMevExit (lkmMevInit answers r).2.1 (lkmMevInit answers r).2.2 = r := by
  obtain ⟨major, block, hmajor, heq⟩ := lkmMevInit_eq h
  have hne : (⟨(major : Int), 0⟩ : DevT) ≠ ⟨0, 0⟩ := by
    intro h0
    injection h0 with h0 _
    exact hpick (by rw [hmajor, Int.ofNat_eq_zero.mp h0])
  rw [heq]
  unfold lkmMevExit
  simp only [if_pos hne, cdevDel, kfree, unregisterChrdevRegion, lkmMevDeviceCount,
    List.erase_cons_head]

theorem lkmDeviceNumbersInit_eq {answers : NumbersAnswers}
    (h : (lkmDeviceNumbersInit answers r).1 = 0) :
    ∃ major : Nat, answers.dynamicDev = .ok major ∧ major ≠ 300 ∧ lkmDeviceNumbersInit answers r
      = (0, ⟨⟨major, 0⟩, lkmStaticDev⟩,
          { r with regions := ⟨lkmStaticDev, 1⟩ :: ⟨⟨major, 0⟩, 1⟩ :: r.regions }) := by
  by_cases hreg : r.Allocates answers.dynamicDev lkmDynamicDevMinor lkmDynamicDevCount
  · obtain ⟨hs, hne, hfits'⟩ :=
      (lkmDeviceNumbersInit_of_allocates hreg).1.not_left.mp (not_not.mpr h)
    obtain ⟨major, hmajor, hfits⟩ := hreg
    rw [hmajor] at hne
    have hne : major ≠ 300 := fun he => hne (by rw [he])
    refine ⟨major, hmajor, hne, ?_⟩
    have hfits₂ : ({ r with regions := ⟨⟨major, lkmDynamicDevMinor⟩, lkmDynamicDevCount⟩ ::
        r.regions } : Registry).Fits ⟨lkmStaticDev, lkmStaticDevCount⟩ := by
      refine fits_cons.mpr ⟨?_, hfits'⟩
      simp [Region.overlaps, lkmStaticDev]
      omega
    unfold lkmDeviceNumbersInit allocChrdevRegion registerChrdevRegion claim
    simp only [hmajor, if_pos hfits, hs, if_pos hfits₂, if_neg (Int.lt_irrefl 0)]
    rfl
  · obtain ⟨hrc, -⟩ := (allocChrdevRegion_attempt answers.dynamicDev _ _).kept hreg
    unfold lkmDeviceNumbersInit at h
    simp only [if_pos hrc] at h
    omega

theorem lkmDeviceNumbers_unload {answers : NumbersAnswers} (hpick : answers.dynamicDev ≠ .ok 0)
    (h : (lkmDeviceNumbersInit answers r).1 = 0) :
    lkmDeviceNumbersExit (lkmDeviceNumbersInit answers r).2.1 (lkmDeviceNumbersInit answers r).2.2
      = r := by
  obtain ⟨major, hmajor, h300, heq⟩ := lkmDeviceNumbersInit_eq h
  have hne : (⟨(major : Int), 0⟩ : DevT) ≠ ⟨0, 0⟩ := by
    intro h0
    injection h0 with h0 _
    exact hpick (by rw [hmajor, Int.ofNat_eq_zero.mp h0])
  have hother : ¬ ((⟨lkmStaticDev, 1⟩ : Region) == ⟨⟨major, 0⟩, 1⟩) = true := by
    simp [lkmStaticDev]
    omega
  rw [heq]
  unfold lkmDeviceNumbersExit
  simp only [if_pos hne, if_pos (by decide : lkmStaticDev ≠ ⟨0, 0⟩), unregisterChrdevRegion,
    lkmDynamicDevCount, lkmStaticDevCount, List.erase_cons_tail hother, List.erase_cons_head]

/-- The region that a successful load of `lkm_device` has taken. -/
def deviceRegion (paramMajorNum : Int) (picked : Nat) : Region :=
  ⟨⟨if paramMajorNum = 0 then picked else paramMajorNum, 0⟩, chrdevMinors⟩

theorem lkmDeviceInit_eq {paramMajorNum : Int} {chrdev : Except ErrCode Nat} {proc : Bool}
    (h : (Device.lkmDeviceInit paramMajorNum chrdev proc r).1 = 0) :
    ∃ picked : Nat, r.Fits (deviceRegion paramMajorNum picked) ∧
      (Device.lkmDeviceInit paramMajorNum chrdev proc r).2.1.majorNum
        = (if paramMajorNum = 0 then (picked : Int) else 0) ∧
      (Device.lkmDeviceInit paramMajorNum chrdev proc r).2.2
        = { r with regions := deviceRegion paramMajorNum picked :: r.regions
                   cdevs := deviceRegion paramMajorNum picked :: r.cdevs
                   proc := [procFileName] :: r.proc } := by
  by_cases hreg : r.RegistersChrdev chrdev paramMajorNum
  · obtain ⟨hproc, hfree⟩ := (lkmDeviceInit_of_registers hreg).1.not_left.mp (not_not.mpr h)
    obtain ⟨picked, rfl, hfits⟩ := hreg
    have hrc : ¬ (if paramMajorNum = 0 then (picked : Int) else 0) < 0 := by
      split <;> omega
    refine ⟨picked, hfits, ?_⟩
    unfold Device.lkmDeviceInit Device.deviceInitSub Device.procInitSub registerChrdev
      procCreateSingle
    simp only [if_pos hfits, if_neg hrc, if_neg (Int.lt_irrefl 0),
      if_pos (And.intro hproc hfree), Bool.true_eq_false, if_false]
    exact ⟨trivial, rfl⟩
  · obtain ⟨hrc, -⟩ := (registerChrdev_attempt chrdev paramMajorNum).kept hreg
    unfold Device.lkmDeviceInit Device.deviceInitSub at h
    simp only [if_pos hrc, if_pos (by decide : (-1 : Int) < 0)] at h
    omega

/-- `major_num` is what `register_chrdev` returned, and that is not the major where it was given. -/
theorem lkmDevice_unload_iff {paramMajorNum : Int} {chrdev : Except ErrCode Nat} {proc : Bool}
    (h : (Device.lkmDeviceInit paramMajorNum chrdev proc r).1 = 0) :
    Device.lkmDeviceExit (Device.lkmDeviceInit paramMajorNum chrdev proc r).2.1
        (Device.lkmDeviceInit paramMajorNum chrdev proc r).2.2 = r
      ↔ paramMajorNum = 0 := by
  obtain ⟨picked, hfits, hmajor, hr⟩ := lkmDeviceInit_eq h
  rw [hr]
  unfold Device.lkmDeviceExit
  rw [hmajor]
  by_cases hparam : paramMajorNum = 0
  · refine iff_of_true ?_ hparam
    unfold unregisterChrdev removeProcEntry deviceRegion
    simp only [if_pos hparam, List.mem_cons, true_or, if_true, List.erase_cons_head]
  · refine iff_of_false ?_ hparam
    intro heq
    have hmem : deviceRegion paramMajorNum picked ∈ r.regions := by
      rw [← heq, if_neg hparam]
      have hne : deviceRegion paramMajorNum picked ≠ ⟨⟨0, 0⟩, chrdevMinors⟩ := by
        unfold deviceRegion
        simp [hparam]
      unfold unregisterChrdev removeProcEntry
      simp only
      split
      · exact (List.mem_erase_of_ne hne).mpr List.mem_cons_self
      · exact List.mem_cons_self
    -- the region is still registered, but it was free before: a region overlaps itself
    refine hfits (List.any_eq_true.mpr ⟨_, hmem, ?_⟩)
    simp [Region.overlaps, deviceRegion, chrdevMinors]

/-- What is made below a directory goes with it. -/
theorem remove_debugfsCreate (answer : DebugfsAnswer) (name : String) (path : Path) :
    ((r.debugfsCreate answer name (.entry path)).2).debugfsRemoveRecursive (.entry path)
      = r.debugfsRemoveRecursive (.entry path) := by
  rw [debugfsCreate_entry]
  split
  · unfold debugfsRemoveRecursive
    simp
  · rfl

/-- In a file system every entry has its directory. -/
theorem lkmDebugfs_unload {answers : DebugfsAnswers} (hdirs : ∀ path ∈ r.debugfs,
    [lkmDebugfsDir] <+: path → [lkmDebugfsDir] ∈ r.debugfs)
    (h : (lkmDebugfsInit answers r).1 = 0) :
    (lkmDebugfsExit (lkmDebugfsInit answers r).2.1 (lkmDebugfsInit answers r).2.2).2 = r := by
  by_cases hdir : answers.GivesDir r
  · obtain ⟨hinit, hgives⟩ := hdir
    have hkept : r.debugfs.filter (fun path => ¬ [lkmDebugfsDir] <+: path) = r.debugfs := by
      refine List.filter_eq_self.mpr ?_
      intro path hpath
      simpa using fun hpre => hgives.2 (hdirs path hpath hpre)
    have hremoved : debugfsRemoveRecursive (.entry [lkmDebugfsDir])
        { r with debugfs := [lkmDebugfsDir] :: r.debugfs } = r := by
      unfold debugfsRemoveRecursive
      simp only [List.filter_cons, List.prefix_refl, not_true_eq_false, decide_false,
        Bool.false_eq_true, if_false, hkept]
    unfold lkmDebugfsInit at h ⊢
    rw [hinit, debugfsCreate_null, if_pos hgives] at h ⊢
    simp only [Bool.true_eq_false, if_false, reduceCtorEq] at h ⊢
    split at h
    · exact absurd (show -eio = 0 from h) (by decide)
    · next hmessage =>
      rw [if_neg hmessage]
      unfold lkmDebugfsExit
      simp only [ne_eq, reduceCtorEq, not_false_eq_true, if_true, remove_debugfsCreate, hremoved]
  · unfold lkmDebugfsInit at h ⊢
    by_cases hinit : answers.initialized = true
    · rw [hinit, debugfsCreate_null, if_neg fun hgives => hdir ⟨hinit, hgives⟩] at h ⊢
      unfold DebugfsAnswer.failure at h ⊢
      -- only a directory that is an error pointer is let through
      cases hnull : answers.dir.nullOnFailure with
      | true =>
        rw [hnull] at h
        exact absurd (show -enodev = 0 from h) (by decide)
      | false => rfl
    · rw [if_pos (Bool.of_not_eq_true hinit)] at h
      exact absurd (show -enodev = 0 from h) (by decide)

end

end LkmSandbox
