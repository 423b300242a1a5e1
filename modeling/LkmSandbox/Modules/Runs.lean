import LkmSandbox.Lib.Ledger
import LkmSandbox.Modules.Outcome

/-!
# Modules side by side

Modules are loaded and unloaded in any order, and all take from and give back to the same
registries.

* `Inv` — the books: what there is was there before, is lost, or is held by one of the modules
* `run_books` — the books of a run, and when nothing is lost
* `restored_iff` — when the registries are as before, once nothing is loaded
-/

namespace LkmSandbox

namespace Modules

open Registry Lib

/-! ## The system -/

/-- A running kernel: what is taken, and the variables of the modules that are loaded. -/
structure Sys where
  registry : Registry
  loaded : (k : Kind) → Option (Vars k)

/-- Before any of the modules is loaded. -/
def Sys.start (r : Registry) : Sys := { registry := r, loaded := fun _ => none }

/-- What an administrator does. -/
inductive Act where
  | insmod (k : Kind) (answers : Answers k)
  | rmmod (k : Kind)

/-- `insmod`, which does not load a module twice, nor keep one whose init returns an error. -/
def Sys.insmod (s : Sys) (k : Kind) (answers : Answers k) : Sys :=
  if (s.loaded k).isSome then s
  else
    let (rc, vars, r) := init k answers s.registry
    if rc < 0 then { s with registry := r }
    else { registry := r, loaded := Function.update s.loaded k (some vars) }

/-- `rmmod` -/
def Sys.rmmod (s : Sys) (k : Kind) : Sys :=
  match s.loaded k with
  | none => s
  | some vars =>
    { registry := exit k vars s.registry, loaded := Function.update s.loaded k none }

def Sys.step (s : Sys) : Act → Sys
  | .insmod k answers => s.insmod k answers
  | .rmmod k => s.rmmod k

def Sys.run (s : Sys) (acts : List Act) : Sys := acts.foldl Sys.step s

/-- The kernel does not pick major 0. -/
def Act.Picked : Act → Prop
  | .insmod k answers => Modules.Picked k answers
  | .rmmod _ => True

/-- An `insmod` that loses something. -/
def Sys.Leaky (s : Sys) : Act → Prop
  | .insmod k answers => s.loaded k = none ∧ Leaks s.registry k answers
  | .rmmod _ => False

/-! ## The books -/

/--
What the modules go by does not get in the way: nobody has major 0 or `/proc/lkm_proc`, and in
debugfs every entry of `lkm` has its directory.
-/
structure Apart (base : Multiset Thing) : Prop where
  region : ∀ region, .region region ∈ base → region.dev.major ≠ 0
  cdev : ∀ region, .cdev region ∈ base → region.dev.major ≠ 0
  proc : .proc [lkmProcFileName] ∉ base
  dir : ∀ x ∈ base, x.below [lkmDebugfsDir] → .debugfs [lkmDebugfsDir] ∈ base

/-- What is lost to a load may as well have been there from the start. -/
theorem Apart.add {base held lost : Multiset Thing} {k : Kind} {answers : Answers k}
    (h : Apart base) (out : Outcome k answers r held lost) : Apart (lost + base) where
  region region hx := by
    rcases Multiset.mem_add.mp hx with hx | hx
    · have htakes := out.takes _ (Multiset.mem_add.mpr (.inr hx))
      cases k <;> simp_all [Takes, Thing.below]
    · exact h.region region hx
  cdev region hx := by
    rcases Multiset.mem_add.mp hx with hx | hx
    · have htakes := out.takes _ (Multiset.mem_add.mpr (.inr hx))
      cases k <;> simp_all [Takes, Thing.below]
    · exact h.cdev region hx
  proc hx := by
    rcases Multiset.mem_add.mp hx with hx | hx
    · by_cases hk : k = .proc
      · subst hk
        rw [out.leaks.mpr id] at hx
        exact Multiset.notMem_zero _ hx
      · have hno : ¬ Sweeps .proc () (.proc [lkmProcFileName]) :=
          (out.takes _ (Multiset.mem_add.mpr (.inr hx))).unswept hk
        exact hno rfl
    · exact h.proc hx
  dir x hx hbelow := by
    rcases Multiset.mem_add.mp hx with hx | hx
    · exact Multiset.mem_add.mpr (.inl (out.dir x hx hbelow))
    · exact Multiset.mem_add.mpr (.inr (h.dir x hx hbelow))

/-- A module that was just loaded does not sweep what was there before. -/
theorem Apart.unswept {base : Multiset Thing} {k : Kind} {answers : Answers k} (h : Apart base)
    (hsub : ∀ x ∈ base, x ∈ r.things) (hrc : (init k answers r).1 = 0) :
    ∀ x ∈ base, ¬ Sweeps k (init k answers r).2.1 x := by
  intro x hx hsweeps
  cases k with
  | mev => exact hsweeps
  | deviceNumbers => exact hsweeps
  | device =>
    obtain ⟨-, rfl⟩ := hsweeps
    exact h.region _ hx rfl
  | debugfs =>
    obtain ⟨hroot, hbelow⟩ := hsweeps
    have hdir := debugfs_mem_things.mp (hsub _ (h.dir x hx hbelow))
    have hno : ¬ answers.GivesDir r := fun hgives => hgives.2.2 hdir
    exact Dentry.noConfusion ((lkmDebugfsInit_not_given hno hrc).symm.trans hroot)
  | proc =>
    obtain rfl := hsweeps
    exact h.proc hx

/-- What there is to know of one module, loaded or not. -/
def Entry (base : Multiset Thing) (k : Kind) : Option (Vars k) → Multiset Thing → Prop
  | none, held => held = 0
  | some vars, held => Holds k vars held ∧ (∀ x ∈ held, Takes k x) ∧ ∀ x ∈ base, ¬ Sweeps k vars x

/-- The books: what was there or is lost, what each module holds, and nothing else. -/
structure Inv (base : Multiset Thing) (held : Kind → Multiset Thing) (s : Sys) : Prop where
  balanced : Balanced base held s.registry.things
  entries : ∀ k, Entry base k (s.loaded k) (held k)
  apart : Apart base

section

variable {base : Multiset Thing} {held : Kind → Multiset Thing} {s : Sys} {k : Kind}

/-- One module's entry is made anew. -/
theorem entries_update {loaded : (k : Kind) → Option (Vars k)} {vars : Option (Vars k)}
    {own : Multiset Thing} (hk : Entry base k vars own)
    (h : ∀ j, j ≠ k → Entry base j (loaded j) (held j)) (j : Kind) :
    Entry base j (Function.update loaded k vars j) (Function.update held k own j) := by
  by_cases hjk : j = k
  · subst hjk
    rw [Function.update_self, Function.update_self]
    exact hk
  · rw [Function.update_of_ne hjk, Function.update_of_ne hjk]
    exact h j hjk

theorem Entry.takes : ∀ {vars : Option (Vars k)} {own : Multiset Thing}, Entry base k vars own →
    ∀ x ∈ own, Takes k x
  | none, _, rfl => fun x hx => absurd hx (Multiset.notMem_zero x)
  | some _, _, h => h.2.1

/-- What another module loses does not matter. -/
theorem Entry.lose {j : Kind} {lost : Multiset Thing} (htakes : ∀ x ∈ lost, Takes j x)
    (hjk : j ≠ k) : ∀ {vars : Option (Vars k)} {own : Multiset Thing},
    Entry base k vars own → Entry (lost + base) k vars own
  | none, _, h => h
  | some _, _, ⟨hholds, hown, hbase⟩ => by
    refine ⟨hholds, hown, ?_⟩
    intro x hx
    rcases Multiset.mem_add.mp hx with hx | hx
    · exact (htakes x hx).unswept hjk
    · exact hbase x hx

theorem Inv.start {r₀ : Registry} (h : Apart r₀.things) :
    Inv r₀.things (fun _ => 0) (.start r₀) where
  balanced := .start _
  entries _ := rfl
  apart := h

/-- What is lost, if anything, is counted to what was there. -/
theorem Inv.insmod {answers : Answers k} (h : Inv base held s) (hpick : Picked k answers) :
    ∃ lost held', Inv (lost + base) held' (s.insmod k answers) ∧
      (lost = 0 ↔ ¬ s.Leaky (.insmod k answers)) := by
  unfold Sys.insmod
  cases hk : s.loaded k with
  | some vars =>
    refine ⟨0, held, by rwa [zero_add], iff_of_true rfl ?_⟩
    intro hleaky
    exact nomatch hk.symm.trans hleaky.1
  | none =>
    obtain ⟨own, lost, out⟩ := load_spec (r := s.registry) hpick
    have hleaks : lost = 0 ↔ ¬ s.Leaky (.insmod k answers) :=
      out.leaks.trans (not_congr (and_iff_right hk).symm)
    have htakes : ∀ x ∈ lost, Takes k x := fun x hx => out.takes x (Multiset.mem_add.mpr (.inr hx))
    have hothers : ∀ j, j ≠ k → Entry (lost + base) j (s.loaded j) (held j) :=
      fun j hjk => (h.entries j).lose htakes (Ne.symm hjk)
    simp only [Option.isSome_none, Bool.false_eq_true, if_false]
    by_cases hrc : (init k answers s.registry).1 = 0
    · rw [if_neg (by omega)]
      refine ⟨lost, Function.update held k own, ⟨?_, entries_update ?_ hothers, h.apart.add out⟩,
        hleaks⟩
      · show Balanced _ _ (init k answers s.registry).2.2.things
        rw [out.things]
        have hzero := h.entries k
        rw [hk] at hzero
        exact (h.balanced.lose lost).acquire hzero own
      · refine ⟨out.holds hrc, fun x hx => out.takes x (Multiset.mem_add.mpr (.inl hx)),
          ?_⟩
        intro x hx
        rcases Multiset.mem_add.mp hx with hx | hx
        · exact out.unswept hrc x hx
        · exact h.apart.unswept (fun x hx => h.balanced.mem_of_base hx) hrc x hx
    · have hneg : (init k answers s.registry).1 < 0 := lt_of_le_of_ne (init_nonpos answers) hrc
      rw [if_pos hneg]
      refine ⟨lost, held, ⟨?_, ?_, h.apart.add out⟩, hleaks⟩
      · show Balanced _ _ (init k answers s.registry).2.2.things
        rw [out.things, out.failed hrc, zero_add]
        exact h.balanced.lose lost
      · intro j
        by_cases hjk : j = k
        · subst hjk
          have hzero := h.entries j
          rw [hk] at hzero
          show Entry _ j (s.loaded j) _
          rw [hk]
          exact hzero
        · exact hothers j hjk

/-- Unloading a module leaves what the others hold. -/
theorem Inv.rmmod (h : Inv base held s) (k : Kind) : ∃ held', Inv base held' (s.rmmod k) := by
  unfold Sys.rmmod
  cases hk : s.loaded k with
  | none => exact ⟨held, h⟩
  | some vars =>
    have hentry := h.entries k
    rw [hk] at hentry
    obtain ⟨hholds, -, hbase⟩ := hentry
    refine ⟨Function.update held k 0, ?_, entries_update rfl fun j _ => h.entries j, h.apart⟩
    show Balanced _ _ (exit k vars s.registry).things
    rw [exit_spec hholds ((balanced_iff k).mp h.balanced) fun x hx => ?_]
    · exact .release base held k
    · rcases mem_besides.mp hx with hx | ⟨j, hjk, hx⟩
      · exact hbase x hx
      · exact ((h.entries j).takes x hx).unswept hjk

end

/-! ## Runs -/

/-- **The books of a run.** -/
theorem run_books {r₀ : Registry} (hapart : Apart r₀.things) (acts : List Act)
    (hpicked : ∀ act ∈ acts, act.Picked) :
    ∃ lost held, Inv (lost + r₀.things) held ((Sys.start r₀).run acts) ∧
      (lost = 0 ↔ ∀ before act, before ++ [act] <+: acts →
        ¬ ((Sys.start r₀).run before).Leaky act) := by
  induction acts using List.reverseRecOn with
  | nil =>
    refine ⟨0, fun _ => 0, ?_, iff_of_true rfl ?_⟩
    · rw [zero_add]
      exact .start hapart
    · intro before act hpre
      simp at hpre
  | append_singleton acts act ih =>
    obtain ⟨lost, held, hinv, hlost⟩ := ih fun act' hact =>
      hpicked act' (List.mem_append.mpr (.inl hact))
    have hpick := hpicked act (List.mem_append.mpr (.inr List.mem_cons_self))
    have hrun : (Sys.start r₀).run (acts ++ [act]) = ((Sys.start r₀).run acts).step act := by
      unfold Sys.run
      rw [List.foldl_append]
      rfl
    rw [hrun]
    obtain ⟨lost', held', hinv', hlost'⟩ : ∃ lost' held',
        Inv (lost' + (lost + r₀.things)) held' (((Sys.start r₀).run acts).step act) ∧
          (lost' = 0 ↔ ¬ ((Sys.start r₀).run acts).Leaky act) := by
      cases act with
      | insmod k answers => exact hinv.insmod hpick
      | rmmod k =>
        obtain ⟨held', hinv'⟩ := hinv.rmmod k
        exact ⟨0, held', by rwa [zero_add], iff_of_true rfl id⟩
    refine ⟨lost' + lost, held', by rwa [add_assoc], ?_⟩
    rw [add_eq_zero, hlost, hlost']
    constructor
    · rintro ⟨hno, hall⟩ before act' hpre
      rcases List.prefix_concat_iff.mp hpre with heq | hpre
      · obtain ⟨rfl, h1⟩ := List.append_inj' heq rfl
        obtain rfl := List.singleton_inj.mp h1
        exact hno
      · exact hall before act' hpre
    · intro hall
      exact ⟨hall acts act (List.prefix_refl _), fun before act' hpre =>
        hall before act' (hpre.trans (List.prefix_append _ _))⟩

/--
**Loading and unloading in any order.** Once nothing is loaded the registries are as they were, up
to the order, iff no load of the run has lost anything.
-/
theorem restored_iff {r₀ : Registry} {acts : List Act} (hapart : Apart r₀.things)
    (hpicked : ∀ act ∈ acts, act.Picked)
    (hnone : ∀ k, ((Sys.start r₀).run acts).loaded k = none) :
    ((Sys.start r₀).run acts).registry.Perm r₀
      ↔ ∀ before act, before ++ [act] <+: acts → ¬ ((Sys.start r₀).run before).Leaky act := by
  obtain ⟨lost, held, hinv, hlost⟩ := run_books hapart acts hpicked
  have hzero : ∀ k, held k = 0 := by
    intro k
    have hentry := hinv.entries k
    rwa [hnone k] at hentry
  rw [← hlost, ← things_eq_iff, hinv.balanced.settled hzero]
  exact add_eq_right

/-- Three modules come and go, and the static number of a fourth is taken already. -/
def comeAndGo : List Act :=
  [.insmod .mev { region := .ok 240, container := true, cdev := none },
    .insmod .debugfs { initialized := true, dir := ⟨true, true⟩, number := ⟨true, true⟩
                       message := ⟨true, true⟩ },
    .rmmod .mev,
    .insmod .deviceNumbers { dynamicDev := .ok 241, staticDev := none },
    .insmod .proc true,
    .rmmod .debugfs,
    .rmmod .proc]

theorem restored_iff_comeAndGo : ((Sys.start othersLoaded).run comeAndGo).registry.Perm othersLoaded
    ↔ ∀ before act, before ++ [act] <+: comeAndGo →
      ¬ ((Sys.start othersLoaded).run before).Leaky act :=
  restored_iff
    { region := by simp [things, othersLoaded, Registry.empty]
      cdev := by simp [things, othersLoaded, Registry.empty]
      proc := by simp [things, othersLoaded, Registry.empty, lkmProcFileName]
      dir := by simp [things, othersLoaded, Registry.empty, Thing.below] }
    (by simp [comeAndGo, Act.Picked, Modules.Picked])
    (by intro k; cases k <;> rfl)

end Modules

end LkmSandbox
