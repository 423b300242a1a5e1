import LkmSandbox.Init
import LkmSandbox.Things
import Mathlib.Data.Fintype.Basic
import Mathlib.Data.Multiset.OrderedMonoid

/-!
# What a load takes and what unloading gives back

The five modules that take something from the kernel, as one family. A load takes things; some of
them the module will give back when it is unloaded, and some it has lost by then.

* `Leaks` — when a load loses something
* `load_spec` — what a load takes, and whether it will be given back
* `exit_spec` — unloading gives back just what was held, whatever else is taken by then
-/

namespace LkmSandbox

/-! ## `lkm_proc` -/

/-- `LKM_PROC_FILE_NAME` -/
def lkmProcFileName : String := "lkm_proc"

/-- `lkm_proc_init`, which logs that the entry could not be made and returns 0 all the same. -/
def lkmProcInit (granted : Bool) (r : Registry) : Int × Registry :=
  (0, (r.procCreateSingle granted lkmProcFileName).2)

/-- `lkm_proc_exit` -/
def lkmProcExit (r : Registry) : Registry := r.removeProcEntry lkmProcFileName

namespace Modules

open Registry

/-! ## What the modules do -/

/-- The modules. -/
inductive Kind where
  | mev
  | device
  | deviceNumbers
  | debugfs
  | proc
deriving DecidableEq

instance : Fintype Kind := ⟨{.mev, .device, .deviceNumbers, .debugfs, .proc}, by
  intro k
  cases k <;> decide⟩

/-- The variables of a module. -/
def Vars : Kind → Type
  | .mev => MevModule
  | .device => Device
  | .deviceNumbers => NumbersModule
  | .debugfs => Debugfs
  | .proc => Unit

/-- The parameter of `lkm_device`, and what the kernel calls of its init answer. -/
structure DeviceAnswers where
  paramMajorNum : Int
  chrdev : Except ErrCode Nat
  proc : Bool

/-- What the kernel calls of an init answer. -/
def Answers : Kind → Type
  | .mev => MevAnswers
  | .device => DeviceAnswers
  | .deviceNumbers => NumbersAnswers
  | .debugfs => DebugfsAnswers
  | .proc => Bool

/-- `module_init` -/
def init : (k : Kind) → Answers k → Registry → Int × Vars k × Registry
  | .mev, answers, r => lkmMevInit answers r
  | .device, answers, r =>
    Device.lkmDeviceInit answers.paramMajorNum answers.chrdev answers.proc r
  | .deviceNumbers, answers, r => lkmDeviceNumbersInit answers r
  | .debugfs, answers, r => lkmDebugfsInit answers r
  | .proc, granted, r => ((lkmProcInit granted r).1, (), (lkmProcInit granted r).2)

/-- `module_exit` -/
def exit : (k : Kind) → Vars k → Registry → Registry
  | .mev, m, r => lkmMevExit m r
  | .device, d, r => Device.lkmDeviceExit d r
  | .deviceNumbers, m, r => lkmDeviceNumbersExit m r
  | .debugfs, m, r => (lkmDebugfsExit m r).2
  | .proc, _, r => lkmProcExit r

/-! ## What a module takes -/

/-- The things that a module takes are of these kinds. -/
def Takes : Kind → Thing → Prop
  | .mev, .region region => region.dev.major ≠ 0
  | .mev, .cdev region => region.dev.major ≠ 0
  | .mev, .block _ => True
  | .device, .region region => region.dev.major ≠ 0
  | .device, .cdev region => region.dev.major ≠ 0
  | .device, .proc path => path = [procFileName]
  | .deviceNumbers, .region region => region.dev.major ≠ 0
  | .debugfs, x => x.below [lkmDebugfsDir]
  | .proc, x => x = .proc [lkmProcFileName]
  | _, _ => False

/-- What a loaded module will give back, as far as its variables say. -/
def Holds : (k : Kind) → Vars k → Multiset Thing → Prop
  | .mev, m, held => ∃ block, m.devContainer = some block ∧ m.mevDevice ≠ ⟨0, 0⟩ ∧
      held = {.cdev ⟨m.mevDevice, 1⟩} + {.block block} + {.region ⟨m.mevDevice, 1⟩}
  | .device, d, held =>
      (d.majorNum = 0 ∧ held = {.proc [procFileName]}) ∨
      (d.majorNum ≠ 0 ∧ held = {.region ⟨⟨d.majorNum, 0⟩, chrdevMinors⟩}
        + {.cdev ⟨⟨d.majorNum, 0⟩, chrdevMinors⟩} + {.proc [procFileName]})
  | .deviceNumbers, m, held => m.ddev ≠ ⟨0, 0⟩ ∧ m.sdev ≠ ⟨0, 0⟩ ∧
      held = {.region ⟨m.ddev, 1⟩} + {.region ⟨m.sdev, 1⟩}
  | .debugfs, m, held => (m.debugRoot = .error ∧ held = 0) ∨
      (m.debugRoot = .entry [lkmDebugfsDir] ∧ ∀ x ∈ held, x.below [lkmDebugfsDir])
  | .proc, _, held => held = 0 ∨ held = {.proc [lkmProcFileName]}

/-- What the exit function of a module removes by number, directory or name, held or not. -/
def Sweeps : (k : Kind) → Vars k → Thing → Prop
  | .device, d, x => d.majorNum = 0 ∧ x = .region ⟨⟨0, 0⟩, chrdevMinors⟩
  | .debugfs, m, x => m.debugRoot = .entry [lkmDebugfsDir] ∧ x.below [lkmDebugfsDir]
  | .proc, _, x => x = .proc [lkmProcFileName]
  | _, _, _ => False

/-- A load that takes something that is never given back. -/
def Leaks (r : Registry) : (k : Kind) → Answers k → Prop
  | .mev, answers => r.Allocates answers.region lkmMevDeviceMinor lkmMevDeviceCount ∧
      ¬ (answers.container = true ∧ answers.cdev = none)
  -- where the major was given, `major_num` does not say which
  | .device, answers => r.RegistersChrdev answers.chrdev answers.paramMajorNum ∧
      ¬ (answers.paramMajorNum = 0 ∧ answers.proc = true ∧ [procFileName] ∉ r.proc)
  | .deviceNumbers, answers =>
      r.Allocates answers.dynamicDev lkmDynamicDevMinor lkmDynamicDevCount ∧
      ¬ (answers.staticDev = none ∧ answers.dynamicDev ≠ .ok 300 ∧
        r.Fits ⟨lkmStaticDev, lkmStaticDevCount⟩)
  | .debugfs, answers => answers.GivesDir r ∧ answers.RefusesMessage r
  | .proc, _ => False

/-- The kernel does not pick major 0. -/
def Picked : (k : Kind) → Answers k → Prop
  | .mev, answers => answers.region ≠ .ok 0
  | .device, answers => answers.chrdev ≠ .ok 0
  | .deviceNumbers, answers => answers.dynamicDev ≠ .ok 0
  | .debugfs, _ => True
  | .proc, _ => True

/-- The entry that only one exit function sweeps is not taken by another module. -/
theorem Takes.unswept {j k : Kind} {vars : Vars k} {x : Thing} (htakes : Takes j x)
    (hjk : j ≠ k) : ¬ Sweeps k vars x := by
  intro hsweeps
  cases k with
  | mev => exact hsweeps
  | deviceNumbers => exact hsweeps
  | device =>
    obtain ⟨-, rfl⟩ := hsweeps
    cases j <;> simp [Takes, Thing.below] at htakes
  | debugfs =>
    obtain ⟨-, hbelow⟩ := hsweeps
    cases x with
    | debugfs path => cases j <;> first | exact hjk rfl | simp [Takes] at htakes
    | _ => simp [Thing.below] at hbelow
  | proc =>
    obtain rfl := hsweeps
    cases j <;> first | exact hjk rfl | simp [Takes, Thing.below] at htakes
    exact absurd htakes (by decide)

/-! ## Loading -/

variable {r : Registry}

/--
What a load does to the books: `held` is taken and will be given back, `lost` is taken for good.
-/
structure Outcome (k : Kind) (answers : Answers k) (r : Registry) (held lost : Multiset Thing) :
    Prop where
  things : (init k answers r).2.2.things = held + (lost + r.things)
  takes : ∀ x ∈ held + lost, Takes k x
  holds : (init k answers r).1 = 0 → Holds k (init k answers r).2.1 held
  failed : (init k answers r).1 ≠ 0 → held = 0
  unswept : (init k answers r).1 = 0 → ∀ x ∈ lost, ¬ Sweeps k (init k answers r).2.1 x
  dir : ∀ x ∈ lost, x.below [lkmDebugfsDir] → .debugfs [lkmDebugfsDir] ∈ lost
  leaks : lost = 0 ↔ ¬ Leaks r k answers

/-- A load that fails and leaves everything as it was. -/
theorem Outcome.of_refused {k : Kind} {answers : Answers k} (hrc : (init k answers r).1 ≠ 0)
    (hr : (init k answers r).2.2 = r) (hno : ¬ Leaks r k answers) : Outcome k answers r 0 0 where
  things := by rw [hr, zero_add, zero_add]
  takes x hx := absurd hx (by simp)
  holds h := absurd h hrc
  failed _ := rfl
  unswept h := absurd h hrc
  dir x hx := absurd hx (Multiset.notMem_zero x)
  leaks := iff_of_true rfl hno

/-- A load that succeeds, and whose things will all be given back. -/
theorem Outcome.of_loaded {k : Kind} {answers : Answers k} {held : Multiset Thing}
    (hrc : (init k answers r).1 = 0) (hr : (init k answers r).2.2.things = held + r.things)
    (htakes : ∀ x ∈ held, Takes k x) (hholds : Holds k (init k answers r).2.1 held)
    (hno : ¬ Leaks r k answers) : Outcome k answers r held 0 where
  things := by rw [hr, zero_add]
  takes x hx := htakes x (by simpa using hx)
  holds _ := hholds
  failed h := absurd hrc h
  unswept _ x hx := absurd hx (Multiset.notMem_zero x)
  dir x hx := absurd hx (Multiset.notMem_zero x)
  leaks := iff_of_true rfl hno

/-- A load that fails with something taken. -/
theorem Outcome.of_lost {k : Kind} {answers : Answers k} {lost : Multiset Thing}
    (hrc : (init k answers r).1 ≠ 0) (hr : (init k answers r).2.2.things = lost + r.things)
    (htakes : ∀ x ∈ lost, Takes k x)
    (hdir : ∀ x ∈ lost, x.below [lkmDebugfsDir] → .debugfs [lkmDebugfsDir] ∈ lost)
    (hlost : lost ≠ 0) (hleaks : Leaks r k answers) : Outcome k answers r 0 lost where
  things := by rw [hr, zero_add]
  takes x hx := htakes x (by simpa using hx)
  holds h := absurd h hrc
  failed _ := rfl
  unswept h := absurd h hrc
  dir := hdir
  leaks := iff_of_false hlost (not_not.mpr hleaks)

theorem major_ne_zero {answer : Except ErrCode Nat} {major : Nat} (hpick : answer ≠ .ok 0)
    (h : answer = .ok major) : (major : Int) ≠ 0 :=
  fun h0 => hpick (by rw [h, Int.ofNat_eq_zero.mp h0])

theorem allocChrdevRegion_eq {answer : Except ErrCode Nat} {major baseminor count : Nat}
    (h : answer = .ok major) (hfits : r.Fits ⟨⟨major, baseminor⟩, count⟩) :
    r.allocChrdevRegion answer baseminor count = (0, ⟨major, baseminor⟩,
      { r with regions := ⟨⟨major, baseminor⟩, count⟩ :: r.regions }) := by
  unfold allocChrdevRegion claim
  rw [h]
  simp only [if_pos hfits]

/-! ### `lkm_mev` -/

/-- The region stays, and the container where it is the device that could not be added. -/
theorem lkmMevInit_lost {answers : MevAnswers} {major : Nat} (hmajor : answers.region = .ok major)
    (hfits : r.Fits ⟨⟨major, lkmMevDeviceMinor⟩, lkmMevDeviceCount⟩)
    (hfails : ¬ (answers.container = true ∧ answers.cdev = none)) :
    ∃ lost, (lkmMevInit answers r).2.2.things = {.region ⟨⟨major, 0⟩, 1⟩} + lost + r.things ∧
      ∀ x ∈ lost, ∃ block, x = .block block := by
  unfold lkmMevInit
  simp only [allocChrdevRegion_eq hmajor hfits, if_neg (Int.lt_irrefl 0)]
  cases hc : answers.container with
  | false => exact ⟨0, by simp [kmalloc, lkmMevDeviceMinor, lkmMevDeviceCount], by simp⟩
  | true =>
    cases hcd : answers.cdev with
    | none => exact absurd ⟨hc, hcd⟩ hfails
    | some e =>
      refine ⟨{.block (r.blocks.foldr max 0 + 1)}, ?_, by simp⟩
      simp [kmalloc, lkmMevSetupCdev, cdevAdd, e.neg, lkmMevDeviceMinor, lkmMevDeviceCount]

theorem lkmMevInit_outcome {answers : MevAnswers} (hpick : Picked .mev answers) :
    ∃ held lost, Outcome .mev answers r held lost := by
  by_cases hreg : r.Allocates answers.region lkmMevDeviceMinor lkmMevDeviceCount
  · obtain ⟨hfails, -⟩ := lkmMevInit_of_allocates hreg
    by_cases hrc : (lkmMevInit answers r).1 = 0
    · obtain ⟨major, block, hmajor, heq⟩ := lkmMevInit_eq hrc
      have hne := major_ne_zero hpick hmajor
      refine ⟨{.cdev ⟨⟨major, 0⟩, 1⟩} + {.block block} + {.region ⟨⟨major, 0⟩, 1⟩}, 0,
        .of_loaded hrc ?_ ?_ ?_ fun hleaks => hfails.mpr hleaks.2 hrc⟩
      · show (lkmMevInit answers r).2.2.things = _
        rw [heq]
        simp only [things_cons_region, things_cons_cdev, things_cons_block]
        ac_rfl
      · simpa [Takes] using hne
      · show Holds .mev (lkmMevInit answers r).2.1 _
        rw [heq]
        exact ⟨block, rfl, fun h0 => hne (congrArg DevT.major h0), rfl⟩
    · obtain ⟨major, hmajor, hfits⟩ := id hreg
      obtain ⟨lost, hr, hblocks⟩ := lkmMevInit_lost hmajor hfits (hfails.mp hrc)
      refine ⟨0, _, .of_lost hrc hr ?_ ?_ (by simp) ⟨hreg, hfails.mp hrc⟩⟩
      · simp only [Multiset.mem_add, Multiset.mem_singleton]
        rintro x (rfl | hx)
        · exact major_ne_zero hpick hmajor
        · obtain ⟨block, rfl⟩ := hblocks x hx
          trivial
      · simp only [Multiset.mem_add, Multiset.mem_singleton]
        rintro x (rfl | hx) hbelow
        · cases hbelow
        · obtain ⟨block, rfl⟩ := hblocks x hx
          cases hbelow
  · refine ⟨0, 0, .of_refused ?_ (lkmMevInit_of_not_allocates hreg) fun hleaks => hreg hleaks.1⟩
    obtain ⟨hrc, -⟩ := (allocChrdevRegion_attempt answers.region _ _).kept hreg
    show (lkmMevInit answers r).1 ≠ 0
    unfold lkmMevInit
    simp only [if_pos hrc]
    omega

/-! ### `lkm_device_numbers` -/

theorem lkmDeviceNumbersInit_lost {answers : NumbersAnswers} {major : Nat}
    (hmajor : answers.dynamicDev = .ok major)
    (hfits : r.Fits ⟨⟨major, lkmDynamicDevMinor⟩, lkmDynamicDevCount⟩)
    (hrc : (lkmDeviceNumbersInit answers r).1 ≠ 0) :
    (lkmDeviceNumbersInit answers r).2.2.things = {.region ⟨⟨major, 0⟩, 1⟩} + r.things := by
  unfold lkmDeviceNumbersInit at hrc ⊢
  simp only [allocChrdevRegion_eq hmajor hfits, if_neg (Int.lt_irrefl 0)] at hrc ⊢
  split
  · next hfailed =>
    have hkept := (registerChrdevRegion_attempt answers.staticDev lkmStaticDev
      lkmStaticDevCount).kept_of_failed hfailed
    simp only [hkept, things_cons_region]
    rfl
  · next hok =>
    rw [if_neg hok] at hrc
    exact absurd rfl hrc

theorem lkmDeviceNumbersInit_outcome {answers : NumbersAnswers}
    (hpick : Picked .deviceNumbers answers) :
    ∃ held lost, Outcome .deviceNumbers answers r held lost := by
  by_cases hreg : r.Allocates answers.dynamicDev lkmDynamicDevMinor lkmDynamicDevCount
  · obtain ⟨hfails, -⟩ := lkmDeviceNumbersInit_of_allocates hreg
    by_cases hrc : (lkmDeviceNumbersInit answers r).1 = 0
    · obtain ⟨major, hmajor, -, heq⟩ := lkmDeviceNumbersInit_eq hrc
      have hne := major_ne_zero hpick hmajor
      refine ⟨{.region ⟨⟨major, 0⟩, 1⟩} + {.region ⟨lkmStaticDev, 1⟩}, 0,
        .of_loaded hrc ?_ ?_ ?_ fun hleaks => hfails.mpr hleaks.2 hrc⟩
      · show (lkmDeviceNumbersInit answers r).2.2.things = _
        rw [heq]
        simp only [things_cons_region]
        ac_rfl
      · simpa [Takes, lkmStaticDev] using hne
      · show Holds .deviceNumbers (lkmDeviceNumbersInit answers r).2.1 _
        rw [heq]
        exact ⟨fun h0 => hne (congrArg DevT.major h0), (by decide : lkmStaticDev ≠ ⟨0, 0⟩), rfl⟩
    · obtain ⟨major, hmajor, hfits⟩ := id hreg
      refine ⟨0, _, .of_lost hrc (lkmDeviceNumbersInit_lost hmajor hfits hrc) ?_ ?_ (by simp)
        ⟨hreg, hfails.mp hrc⟩⟩
      · simpa [Takes] using major_ne_zero hpick hmajor
      · simp [Thing.below]
  · refine ⟨0, 0, .of_refused ?_ (lkmDeviceNumbersInit_of_not_allocates hreg)
      fun hleaks => hreg hleaks.1⟩
    obtain ⟨hrc, -⟩ := (allocChrdevRegion_attempt answers.dynamicDev _ _).kept hreg
    show (lkmDeviceNumbersInit answers r).1 ≠ 0
    unfold lkmDeviceNumbersInit
    simp only [if_pos hrc]
    omega

/-! ### `lkm_device` -/

/-- With `register_chrdev` done: `major_num`, and what is taken whether or not the entry is made. -/
theorem lkmDeviceInit_registered {paramMajorNum : Int} {chrdev : Except ErrCode Nat} (proc : Bool)
    {picked : Nat} (h : chrdev = .ok picked) (hfits : r.Fits (deviceRegion paramMajorNum picked)) :
    (Device.lkmDeviceInit paramMajorNum chrdev proc r).2.1.majorNum
        = (if paramMajorNum = 0 then (picked : Int) else 0) ∧
      (Device.lkmDeviceInit paramMajorNum chrdev proc r).2.2.things
        = (if (Device.lkmDeviceInit paramMajorNum chrdev proc r).1 = 0
            then {.proc [procFileName]} else 0)
          + ({.region (deviceRegion paramMajorNum picked)}
            + {.cdev (deviceRegion paramMajorNum picked)} + r.things) := by
  have hrc : ¬ (if paramMajorNum = 0 then (picked : Int) else 0) < 0 := by
    split <;> omega
  unfold deviceRegion at hfits
  unfold Device.lkmDeviceInit Device.deviceInitSub Device.procInitSub registerChrdev
    procCreateSingle
  simp only [h, if_pos hfits, if_neg hrc, if_neg (Int.lt_irrefl 0)]
  by_cases hproc : proc = true ∧ [procFileName] ∉ r.proc
  · simp only [if_pos hproc, Bool.true_eq_false, if_false, if_neg (Int.lt_irrefl 0), if_true,
      things_cons_region, things_cons_cdev, things_cons_proc]
    refine ⟨trivial, ?_⟩
    unfold deviceRegion
    ac_rfl
  · simp only [if_neg hproc, if_true, if_pos (by decide : (-1 : Int) < 0),
      if_neg (by decide : ¬ (-2 : Int) = 0), things_cons_region, things_cons_cdev]
    refine ⟨trivial, ?_⟩
    unfold deviceRegion
    rw [zero_add]
    ac_rfl

theorem deviceRegion_major_ne_zero (paramMajorNum : Int) {chrdev : Except ErrCode Nat}
    {picked : Nat} (hpick : chrdev ≠ .ok 0) (h : chrdev = .ok picked) :
    (deviceRegion paramMajorNum picked).dev.major ≠ 0 := by
  unfold deviceRegion
  by_cases hparam : paramMajorNum = 0
  · simpa [hparam] using major_ne_zero hpick h
  · simp [hparam]

theorem lkmDeviceInit_registers {paramMajorNum : Int} {chrdev : Except ErrCode Nat} {proc : Bool}
    (h : (Device.lkmDeviceInit paramMajorNum chrdev proc r).1 = 0) :
    r.RegistersChrdev chrdev paramMajorNum := by
  by_contra hreg
  obtain ⟨hrc, -⟩ := (registerChrdev_attempt chrdev paramMajorNum).kept hreg
  unfold Device.lkmDeviceInit Device.deviceInitSub at h
  simp only [if_pos hrc, if_pos (by decide : (-1 : Int) < 0)] at h
  exact absurd h (by decide)

theorem lkmDeviceInit_outcome {answers : DeviceAnswers} (hpick : Picked .device answers) :
    ∃ held lost, Outcome .device answers r held lost := by
  obtain ⟨param, chrdev, proc⟩ := answers
  by_cases hreg : r.RegistersChrdev chrdev param
  · have hfails : (Device.lkmDeviceInit param chrdev proc r).1 ≠ 0 ↔ _ :=
      (lkmDeviceInit_of_registers hreg).1
    obtain ⟨picked, hok, hfits⟩ := id hreg
    obtain ⟨hmajor, hr⟩ := lkmDeviceInit_registered proc hok hfits
    have hne := deviceRegion_major_ne_zero param hpick hok
    by_cases hrc : (Device.lkmDeviceInit param chrdev proc r).1 = 0
    · rw [if_pos hrc] at hr
      by_cases hparam : param = 0
      · subst hparam
        refine ⟨{.region (deviceRegion 0 picked)} + {.cdev (deviceRegion 0 picked)}
          + {.proc [procFileName]}, 0, .of_loaded hrc ?_ ?_ (.inr ⟨?_, ?_⟩) ?_⟩
        · exact hr.trans (by ac_rfl)
        · simpa [Takes] using hne
        · exact hmajor ▸ hne
        · show _ = ({.region ⟨⟨(Device.lkmDeviceInit 0 chrdev proc r).2.1.majorNum, 0⟩, _⟩} +
            {.cdev ⟨⟨(Device.lkmDeviceInit 0 chrdev proc r).2.1.majorNum, 0⟩, _⟩} + _
              : Multiset Thing)
          rw [hmajor]
          rfl
        · intro hleaks
          exact hfails.mpr (fun hproc => hleaks.2 ⟨rfl, hproc⟩) hrc
      · rw [if_neg hparam] at hmajor
        refine ⟨_, _, hr, ?_, fun _ => .inl ⟨hmajor, rfl⟩, fun h => absurd hrc h, ?_, ?_, ?_⟩
        · simpa [Takes] using hne
        · rintro - x hx ⟨-, rfl⟩
          have hx : .region ⟨⟨0, 0⟩, chrdevMinors⟩ = Thing.region (deviceRegion param picked) := by
            simpa using hx
          rw [← Thing.region.inj hx] at hne
          exact hne rfl
        · simp [Thing.below]
        · exact iff_of_false (by simp) (not_not.mpr ⟨hreg, fun hall => hparam hall.1⟩)
    · rw [if_neg hrc, zero_add] at hr
      refine ⟨0, _, .of_lost hrc hr ?_ ?_ (by simp)
        ⟨hreg, fun hall => hfails.mp hrc hall.2⟩⟩
      · simpa [Takes] using hne
      · simp [Thing.below]
  · exact ⟨0, 0, .of_refused (fun hrc => hreg (lkmDeviceInit_registers hrc))
      (lkmDeviceInit_of_not_registers hreg) fun hleaks => hreg hleaks.1⟩

/-! ### `lkm_debugfs` and `lkm_proc` -/

/-- What is made in a directory is below it. -/
theorem things_debugfsCreate (answer : DebugfsAnswer) (name : String) (path : Path) :
    ∃ taken : Multiset Thing, (∀ x ∈ taken, x.below path) ∧
      (r.debugfsCreate answer name (.entry path)).2.things = taken + r.things := by
  rw [debugfsCreate_entry]
  split
  · refine ⟨{.debugfs (path ++ [name])}, ?_, things_cons_debugfs _⟩
    intro x hx
    rw [Multiset.mem_singleton.mp hx]
    simp [Thing.below]
  · exact ⟨0, by simp, (zero_add _).symm⟩

/-- With the directory: it is taken, and what there is in it. -/
theorem lkmDebugfsInit_given {answers : DebugfsAnswers} (h : answers.GivesDir r) :
    (lkmDebugfsInit answers r).2.1.debugRoot = .entry [lkmDebugfsDir] ∧
    ∃ taken, .debugfs [lkmDebugfsDir] ∈ taken ∧ (∀ x ∈ taken, x.below [lkmDebugfsDir]) ∧
      (lkmDebugfsInit answers r).2.2.things = taken + r.things := by
  obtain ⟨hinit, hgives⟩ := h
  set r₁ : Registry := { r with debugfs := [lkmDebugfsDir] :: r.debugfs } with hr₁
  obtain ⟨number, hnumber, hr₂⟩ :=
    things_debugfsCreate (r := r₁) answers.number "number" [lkmDebugfsDir]
  obtain ⟨message, hmessage, hr₃⟩ := things_debugfsCreate
    (r := (r₁.debugfsCreate answers.number "number" (.entry [lkmDebugfsDir])).2)
    answers.message "message" [lkmDebugfsDir]
  have htaken : (r₁.debugfsCreate answers.number "number" (.entry [lkmDebugfsDir])).2.debugfsCreate
      answers.message "message" (.entry [lkmDebugfsDir]) |>.2.things
        = message + number + {.debugfs [lkmDebugfsDir]} + r.things := by
    rw [hr₃, hr₂, hr₁, things_cons_debugfs]
    simp only [add_assoc]
  have hbelow : ∀ x ∈ message + number + {.debugfs [lkmDebugfsDir]}, x.below [lkmDebugfsDir] := by
    simp only [Multiset.mem_add, Multiset.mem_singleton]
    rintro x ((hx | hx) | rfl)
    · exact hmessage x hx
    · exact hnumber x hx
    · simp [Thing.below]
  unfold lkmDebugfsInit
  rw [hinit, debugfsCreate_null, if_pos hgives]
  simp only [Bool.true_eq_false, if_false, reduceCtorEq]
  split
  · exact ⟨rfl, _, by simp, hbelow, htaken⟩
  · exact ⟨rfl, _, by simp, hbelow, htaken⟩

/-- Without the directory, only an error pointer is let through. -/
theorem lkmDebugfsInit_not_given {answers : DebugfsAnswers} (h : ¬ answers.GivesDir r)
    (hrc : (lkmDebugfsInit answers r).1 = 0) :
    (lkmDebugfsInit answers r).2.1.debugRoot = .error := by
  unfold lkmDebugfsInit at hrc ⊢
  by_cases hinit : answers.initialized = true
  · rw [hinit, debugfsCreate_null, if_neg fun hgives => h ⟨hinit, hgives⟩] at hrc ⊢
    unfold DebugfsAnswer.failure at hrc ⊢
    cases hnull : answers.dir.nullOnFailure with
    | true =>
      rw [hnull] at hrc
      exact absurd (show -enodev = 0 from hrc) (by decide)
    | false => rfl
  · rw [if_pos (Bool.of_not_eq_true hinit)] at hrc
    exact absurd (show -enodev = 0 from hrc) (by decide)

theorem lkmDebugfsInit_outcome (answers : DebugfsAnswers) :
    ∃ held lost, Outcome .debugfs answers r held lost := by
  by_cases hdir : answers.GivesDir r
  · obtain ⟨hfails, -⟩ := lkmDebugfsInit_with_dir hdir
    obtain ⟨hroot, taken, hmem, hbelow, hr⟩ := lkmDebugfsInit_given hdir
    by_cases hrc : (lkmDebugfsInit answers r).1 = 0
    · exact ⟨taken, 0, .of_loaded hrc hr hbelow (.inr ⟨hroot, hbelow⟩)
        fun hleaks => hfails.mpr hleaks.2 hrc⟩
    · refine ⟨0, taken, .of_lost hrc hr hbelow (fun _ _ _ => hmem) ?_ ⟨hdir, hfails.mp hrc⟩⟩
      rintro rfl
      exact absurd hmem (Multiset.notMem_zero _)
  · have hr := lkmDebugfsInit_without_dir hdir
    by_cases hrc : (lkmDebugfsInit answers r).1 = 0
    · refine ⟨0, 0, .of_loaded hrc ?_ (by simp) (.inl ⟨lkmDebugfsInit_not_given hdir hrc, rfl⟩)
        fun hleaks => hdir hleaks.1⟩
      rw [zero_add]
      exact congrArg Registry.things hr
    · exact ⟨0, 0, .of_refused hrc hr fun hleaks => hdir hleaks.1⟩

theorem lkmProcInit_outcome (granted : Bool) : ∃ held lost, Outcome .proc granted r held lost := by
  by_cases hok : granted = true ∧ [lkmProcFileName] ∉ r.proc
  · refine ⟨{.proc [lkmProcFileName]}, 0, .of_loaded rfl ?_ (by simp [Takes]) (.inr rfl) id⟩
    show (r.procCreateSingle granted lkmProcFileName).2.things = _
    unfold procCreateSingle
    rw [if_pos hok]
    exact things_cons_proc _
  · refine ⟨0, 0, .of_loaded rfl ?_ (by simp) (.inl rfl) id⟩
    show (r.procCreateSingle granted lkmProcFileName).2.things = _
    unfold procCreateSingle
    rw [if_neg hok, zero_add]

/-- **What a load does to the books.** -/
theorem load_spec {k : Kind} {answers : Answers k} (hpick : Picked k answers) :
    ∃ held lost, Outcome k answers r held lost := by
  cases k with
  | mev => exact lkmMevInit_outcome hpick
  | device => exact lkmDeviceInit_outcome hpick
  | deviceNumbers => exact lkmDeviceNumbersInit_outcome hpick
  | debugfs => exact lkmDebugfsInit_outcome answers
  | proc => exact lkmProcInit_outcome answers

/-- The inits return 0 or an error. -/
theorem init_nonpos {k : Kind} (answers : Answers k) : (init k answers r).1 ≤ 0 := by
  cases k with
  | mev =>
    show (lkmMevInit answers r).1 ≤ 0
    unfold lkmMevInit
    grind [enomem]
  | device =>
    show (Device.lkmDeviceInit _ _ _ r).1 ≤ 0
    unfold Device.lkmDeviceInit
    grind
  | deviceNumbers =>
    show (lkmDeviceNumbersInit answers r).1 ≤ 0
    unfold lkmDeviceNumbersInit
    grind
  | debugfs =>
    show (lkmDebugfsInit answers r).1 ≤ 0
    unfold lkmDebugfsInit
    grind [enodev, eio]
  | proc => exact le_refl _

/-! ## Unloading -/

/-- **What unloading gives back** is what was held, whatever else is taken by then. -/
theorem exit_spec {k : Kind} {vars : Vars k} {held rest : Multiset Thing}
    (hholds : Holds k vars held) (hr : r.things = held + rest)
    (hrest : ∀ x ∈ rest, ¬ Sweeps k vars x) : (exit k vars r).things = rest := by
  cases k with
  | mev =>
    obtain ⟨block, hblock, hne, rfl⟩ := hholds
    show (lkmMevExit vars r).things = rest
    unfold lkmMevExit
    simp only [hblock, if_pos hne, things_unregisterChrdevRegion, things_kfree, things_cdevDel, hr,
      add_assoc, lkmMevDeviceCount, add_tsub_cancel_left]
  | device =>
    show (Device.lkmDeviceExit vars r).things = rest
    unfold Device.lkmDeviceExit
    rw [things_removeProcEntry]
    rcases hholds with ⟨hmajor, rfl⟩ | ⟨-, rfl⟩
    · have hfree : ⟨⟨0, 0⟩, chrdevMinors⟩ ∉ r.regions := by
        rw [← region_mem_things, hr]
        simpa using fun hmem => hrest _ hmem ⟨hmajor, rfl⟩
      rw [hmajor, unregisterChrdev, if_neg hfree, hr, add_tsub_cancel_left]
    · have hmem : ⟨⟨vars.majorNum, 0⟩, chrdevMinors⟩ ∈ r.regions := by
        rw [← region_mem_things, hr]
        simp
      simp only [things_unregisterChrdev hmem, hr, add_assoc, add_tsub_cancel_left]
  | deviceNumbers =>
    obtain ⟨hd, hs, rfl⟩ := hholds
    show (lkmDeviceNumbersExit vars r).things = rest
    unfold lkmDeviceNumbersExit
    simp only [if_pos hd, if_pos hs, things_unregisterChrdevRegion, hr, add_assoc,
      lkmDynamicDevCount, lkmStaticDevCount, add_tsub_cancel_left]
  | debugfs =>
    show (lkmDebugfsExit vars r).2.things = rest
    unfold lkmDebugfsExit
    rcases hholds with ⟨hroot, rfl⟩ | ⟨hroot, hbelow⟩
    · simp only [hroot, ne_eq, reduceCtorEq, not_false_eq_true, if_true, debugfsRemoveRecursive, hr,
        zero_add]
    · simp only [hroot, ne_eq, reduceCtorEq, not_false_eq_true, if_true,
        things_debugfsRemoveRecursive, hr, Multiset.filter_add]
      rw [Multiset.filter_eq_nil.mpr fun x hx hno => hno (hbelow x hx), zero_add]
      exact Multiset.filter_eq_self.mpr fun x hx hb => hrest x hx ⟨hroot, hb⟩
  | proc =>
    show (r.removeProcEntry lkmProcFileName).things = rest
    rw [things_removeProcEntry, hr]
    rcases hholds with rfl | rfl
    · have hfree : .proc [lkmProcFileName] ∉ rest := fun hx => hrest _ hx rfl
      rw [zero_add, Multiset.sub_singleton, Multiset.erase_of_notMem hfree]
    · exact add_tsub_cancel_left _ _

end Modules

end LkmSandbox
