import LkmSandbox.Lib.Decimal
import LkmSandbox.Modules.Runs

/-!
# The major that `/proc` shows

To use `lkm_device`, a node is made with the major that `/proc/lkm_device_major` shows.

* `node_leads_to_device_iff` — when this node leads to a device, whatever is loaded and unloaded
  besides
-/

namespace LkmSandbox

open Lib Registry

/-- `proc_show` of `lkm_device`, that is, its `seq_printf` -/
def Device.procShow (d : Device) : List UInt8 := signed d.majorNum

namespace Modules

/-- A character device has the device number `dev`. -/
def Reaches (r : Registry) (dev : DevT) : Prop := ∃ region ∈ r.cdevs, region.overlaps ⟨dev, 1⟩

variable {base : Multiset Thing} {held : Kind → Multiset Thing} {s : Sys}

/-- No device has major 0. -/
theorem Inv.cdev_major (h : Inv base held s) {region : Region} (hr : region ∈ s.registry.cdevs) :
    region.dev.major ≠ 0 := by
  have hx : Thing.cdev region ∈ base + ∑ k, held k := by
    rw [← show s.registry.things = _ from h.balanced]
    exact cdev_mem_things.mpr hr
  rcases Multiset.mem_add.mp hx with hx | hx
  · exact h.apart.cdev region hx
  · obtain ⟨k, -, hk⟩ := Multiset.mem_sum.mp hx
    have htakes := (h.entries k).takes _ hk
    cases k <;> simp_all [Takes, Thing.below]

/-- What a loaded module holds is there. -/
theorem Inv.mem_things (h : Inv base held s) {k : Kind} {x : Thing} (hx : x ∈ held k) :
    x ∈ s.registry.things := by
  rw [(balanced_iff k).mp h.balanced]
  exact Multiset.mem_add.mpr (.inl hx)

theorem loaded_insmod {k : Kind} {answers : Answers k} (hnone : s.loaded k = none)
    (hrc : (init k answers s.registry).1 = 0) :
    (s.insmod k answers).loaded k = some (init k answers s.registry).2.1 := by
  unfold Sys.insmod
  simp only [hnone, Option.isSome_none, Bool.false_eq_true, if_false, hrc,
    if_neg (Int.lt_irrefl 0), Function.update_self]

theorem loaded_step {k : Kind} {vars : Vars k} {act : Act} (hact : act ≠ .rmmod k)
    (h : s.loaded k = some vars) : (s.step act).loaded k = some vars := by
  cases act with
  | insmod j answers =>
    show (s.insmod j answers).loaded k = some vars
    unfold Sys.insmod
    split
    · exact h
    · next hnone =>
      have hjk : k ≠ j := by
        rintro rfl
        exact hnone (by rw [h]; rfl)
      simp only
      split
      · exact h
      · exact (Function.update_of_ne hjk _ _).trans h
  | rmmod j =>
    have hjk : k ≠ j := by
      rintro rfl
      exact hact rfl
    show (s.rmmod j).loaded k = some vars
    unfold Sys.rmmod
    split
    · exact h
    · exact (Function.update_of_ne hjk _ _).trans h

/-- A module stays loaded, with the variables it has, until it is unloaded. -/
theorem loaded_run {k : Kind} {vars : Vars k} {after : List Act} {s : Sys}
    (hstay : ∀ act ∈ after, act ≠ .rmmod k) (h : s.loaded k = some vars) :
    (s.run after).loaded k = some vars := by
  induction after generalizing s with
  | nil => exact h
  | cons act after ih =>
    obtain ⟨hact, hafter⟩ := List.forall_mem_cons.mp hstay
    exact ih hafter (loaded_step hact h)

/-- `proc_show` shows the major where the kernel picked it, and 0 otherwise. -/
theorem scan_procShow {r : Registry} {answers : DeviceAnswers}
    (h : (init .device answers r).1 = 0) :
    ∃ picked : Nat, answers.chrdev = .ok picked ∧
      (init .device answers r).2.1.majorNum
        = (if answers.paramMajorNum = 0 then (picked : Int) else 0) ∧
      scan (Device.procShow (init .device answers r).2.1)
        = some (if answers.paramMajorNum = 0 then picked else 0, []) := by
  obtain ⟨picked, hok, hfits⟩ := lkmDeviceInit_registers h
  have hmajor := (lkmDeviceInit_registered answers.proc hok hfits).1
  refine ⟨picked, hok, hmajor, ?_⟩
  have hshow : Device.procShow (init .device answers r).2.1
      = decimal (if answers.paramMajorNum = 0 then picked else 0) := by
    unfold Device.procShow
    show signed (Device.lkmDeviceInit _ _ _ r).2.1.majorNum = _
    rw [hmajor, ← signed_natCast]
    split <;> rfl
  rw [hshow, ← List.append_nil (decimal _)]
  exact scan_decimal _ (by simp)

/--
**Making the node.** `lkm_device` is loaded, and other modules come and go. The major that is shown
then leads to a device iff no major was given to `lkm_device`.
-/
theorem node_leads_to_device_iff {r₀ : Registry} {before after : List Act} {answers : DeviceAnswers}
    (hapart : Apart r₀.things)
    (hpicked : ∀ act ∈ before ++ .insmod .device answers :: after, act.Picked)
    (hnone : ((Sys.start r₀).run before).loaded .device = none)
    (hload : (init .device answers ((Sys.start r₀).run before).registry).1 = 0)
    (hstay : ∀ act ∈ after, act ≠ .rmmod .device) :
    ∃ d major, ((Sys.start r₀).run (before ++ .insmod .device answers :: after)).loaded .device
        = some d ∧ scan (Device.procShow d) = some (major, []) ∧
      (Reaches ((Sys.start r₀).run (before ++ .insmod .device answers :: after)).registry
          ⟨major, 0⟩ ↔ answers.paramMajorNum = 0) := by
  obtain ⟨lost, held, hinv, -⟩ := run_books hapart _ hpicked
  obtain ⟨picked, hok, hmajor, hscan⟩ := scan_procShow hload
  set s₁ := (Sys.start r₀).run before with hs₁
  have hrun : (Sys.start r₀).run (before ++ .insmod .device answers :: after)
      = (s₁.insmod .device answers).run after := by
    unfold Sys.run
    rw [List.foldl_append]
    rfl
  have hd := loaded_run hstay (loaded_insmod hnone hload)
  rw [← hrun] at hd
  refine ⟨_, _, hd, hscan, ?_⟩
  by_cases hparam : answers.paramMajorNum = 0
  · rw [if_pos hparam] at hmajor ⊢
    refine iff_of_true ?_ hparam
    have hentry := hinv.entries .device
    rw [hd] at hentry
    rcases hentry.1 with ⟨hzero, -⟩ | ⟨-, hheld⟩
    · have hpick : (Act.insmod .device answers).Picked := hpicked _ (by simp)
      exact absurd (hmajor.symm.trans hzero) (major_ne_zero hpick hok)
    · refine ⟨⟨⟨picked, 0⟩, chrdevMinors⟩, ?_, ?_⟩
      · refine cdev_mem_things.mp (hinv.mem_things (k := Kind.device) ?_)
        rw [hheld, hmajor]
        simp
      · simp [Region.overlaps, chrdevMinors]
  · rw [if_neg hparam]
    refine iff_of_false ?_ hparam
    rintro ⟨region, hregion, hover⟩
    have hmajor₀ : region.dev.major = 0 := by
      simp [Region.overlaps] at hover
      exact hover.1.1
    exact hinv.cdev_major hregion hmajor₀

/-- `lkm_mev` is loaded before `lkm_device`, and unloaded after it. -/
def mevBefore : List Act := [.insmod .mev { region := .ok 240, container := true, cdev := none }]

def majorGiven : DeviceAnswers := { paramMajorNum := 250, chrdev := .ok 241, proc := true }

theorem node_leads_to_device_iff_given : ∃ d major,
    ((Sys.start .empty).run (mevBefore ++ .insmod .device majorGiven :: [.rmmod .mev])).loaded
        .device = some d ∧
    scan (Device.procShow d) = some (major, []) ∧
    (Reaches ((Sys.start .empty).run
        (mevBefore ++ .insmod .device majorGiven :: [.rmmod .mev])).registry ⟨major, 0⟩
      ↔ majorGiven.paramMajorNum = 0) :=
  node_leads_to_device_iff
    { region := by simp [things, Registry.empty]
      cdev := by simp [things, Registry.empty]
      proc := by simp [things, Registry.empty]
      dir := by simp [things, Registry.empty] }
    (by simp [mevBefore, majorGiven, Act.Picked, Modules.Picked]) rfl rfl (by simp)

end Modules

end LkmSandbox
