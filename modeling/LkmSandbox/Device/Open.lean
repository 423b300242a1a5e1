import LkmSandbox.Device.Sessions
import Mathlib.Logic.Function.Basic

/-!
# Clients that open the device at once

`device_open` looks at `device_open_count` and counts it up later, and nothing keeps another client
from looking in between. The calls are cut at each access to the count: a client looks, reads the
count to be counted up, stores it; and on releasing reads the count and stores it, counted down.

* `deviceOpen_steps`, `deviceRelease_steps` — with no other client in between, this is the call
* `open_exclusive_iff` — as long as no client looks while another one is between its look and its
  store, the device is open once at most and the sessions are those of clients that come one after
  another; and a look at such a time lets two of them in
-/

namespace LkmSandbox.Device

open Lib

/-! ## The step relation -/

/-- Where a client stands. -/
inductive Pc where
  | idle
  /-- it has found that the count is not above zero -/
  | checked
  /-- it has read the count, which it is to count up -/
  | loaded (count : Int)
  /-- its `device_open` has returned -/
  | opened
  /-- it has read the count, which it is to count down -/
  | releasing (count : Int)

/-- It is between its look at the count and its store. -/
def Pc.Entering : Pc → Prop
  | .checked => True
  | .loaded _ => True
  | _ => False

/-- It has the device open. -/
def Pc.HasOpen : Pc → Prop
  | .opened => True
  | .releasing _ => True
  | _ => False

/-- What a client does next. -/
inductive Act where
  | check
  | load
  | store
  | read (req : Request)
  | unload
  | unstore

/--
The variables and the clients. What has been asked for and answered is kept for each session that is
going on, and for those that are over in the order of their ends; no step looks at it.
-/
structure Sys where
  dev : Device
  pc : Nat → Pc
  asked : Nat → List Request
  answered : Nat → List Reply
  sessions : List (List Request × List Reply)

/-- Client `i` arrives at `pc`. -/
def Sys.move (s : Sys) (i : Nat) (pc : Pc) : Sys := { s with pc := Function.update s.pc i pc }

/-- `device_open_count = count` -/
def Sys.setCount (s : Sys) (count : Int) : Sys :=
  { s with dev := { s.dev with deviceOpenCount := count } }

/-- A session of client `i` starts. -/
def Sys.start (s : Sys) (i : Nat) : Sys :=
  { s with asked := Function.update s.asked i [], answered := Function.update s.answered i [] }

/-- Client `i` gets a reply. -/
def Sys.note (s : Sys) (i : Nat) (req : Request) (r : Reply) : Sys :=
  { s with asked := Function.update s.asked i (s.asked i ++ [req])
           answered := Function.update s.answered i (s.answered i ++ [r]) }

/-- The session of client `i` is over. -/
def Sys.finish (s : Sys) (i : Nat) : Sys :=
  { s with sessions := s.sessions ++ [(s.asked i, s.answered i)] }

/-- One step of client `i`. -/
inductive Step (s : Sys) (i : Nat) : Act → Sys → Prop where
  /-- `-EBUSY` -/
  | refused (hpc : s.pc i = .idle) (h : s.dev.deviceOpenCount > 0) : Step s i .check s
  | check (hpc : s.pc i = .idle) (h : ¬ s.dev.deviceOpenCount > 0) :
      Step s i .check (s.move i .checked)
  | load (hpc : s.pc i = .checked) : Step s i .load (s.move i (.loaded s.dev.deviceOpenCount))
  | store {count : Int} (hpc : s.pc i = .loaded count) :
      Step s i .store (((s.setCount (count + 1)).start i).move i .opened)
  | read {req : Request} {dev : Device} {r : Reply} (hpc : s.pc i = .opened)
      (h : Request.call s.dev req = .ok (dev, r)) :
      Step s i (.read req) ({ s with dev }.note i req r)
  | unload (hpc : s.pc i = .opened) :
      Step s i .unload (s.move i (.releasing s.dev.deviceOpenCount))
  | unstore {count : Int} (hpc : s.pc i = .releasing count) :
      Step s i .unstore (((s.setCount (count - 1)).finish i).move i .idle)

/-- No client has come yet. -/
def Sys.init (d : Device) : Sys :=
  { dev := d, pc := fun _ => .idle, asked := fun _ => [], answered := fun _ => [], sessions := [] }

/-- What is reached from `s` by steps that meet the guard. -/
def Sys.Reaches (G : Sys → Nat → Act → Prop) (s s' : Sys) : Prop :=
  Reachable s (fun s (l : Nat × Act) s' => Step s l.1 l.2 s') (fun s l => G s l.1 l.2) s'

/-- A look comes while no client is on its way in, or is in vain. -/
def Guarded (s : Sys) (_ : Nat) : Act → Prop
  | .check => s.dev.deviceOpenCount > 0 ∨ ∀ j, ¬ (s.pc j).Entering
  | _ => True

/-! ## One client alone -/

section

variable {s : Sys} {i : Nat}

theorem Sys.move_pc_self (s : Sys) (i : Nat) (pc : Pc) : (s.move i pc).pc i = pc :=
  Function.update_self ..

theorem Sys.move_pc_ne (s : Sys) {i j : Nat} (h : j ≠ i) (pc : Pc) : (s.move i pc).pc j = s.pc j :=
  Function.update_of_ne h ..

/-- Client `i` goes on without looking at the count. -/
def goesOn (i : Nat) : Sys → Nat → Act → Prop := fun _ j act => j = i ∧ act ≠ .check

theorem Sys.Reaches.guarded {s' : Sys} (h : s.Reaches (goesOn i) s') : s.Reaches Guarded s' := by
  refine Reachable.mono ?_ h
  intro s l hl
  obtain ⟨j, act⟩ := l
  cases act with
  | check => exact absurd rfl hl.2
  | _ => trivial

/-- The state after a client that was at `s` has opened the device, counting up from `count`. -/
structure OpenedAt (s : Sys) (i : Nat) (count : Int) (s' : Sys) : Prop where
  dev : s'.dev = { s.dev with deviceOpenCount := count + 1 }
  pc : s'.pc i = .opened
  others : ∀ j, j ≠ i → s'.pc j = s.pc j

theorem open_of_loaded {count : Int} (hpc : s.pc i = .loaded count) :
    ∃ s', s.Reaches (goesOn i) s' ∧ OpenedAt s i count s' :=
  ⟨_, .step (i := (i, .store)) .init ⟨rfl, Act.noConfusion⟩ (.store hpc),
    rfl, Sys.move_pc_self .., fun _ hj => Sys.move_pc_ne _ hj _⟩

theorem open_of_checked (hpc : s.pc i = .checked) :
    ∃ s', s.Reaches (goesOn i) s' ∧ OpenedAt s i s.dev.deviceOpenCount s' := by
  have hload : s.Reaches (goesOn i) (s.move i (.loaded s.dev.deviceOpenCount)) :=
    .step (i := (i, .load)) .init ⟨rfl, Act.noConfusion⟩ (.load hpc)
  obtain ⟨s', hreach, hdev, hopened, hothers⟩ := open_of_loaded (Sys.move_pc_self s i _)
  exact ⟨s', hload.trans hreach, hdev, hopened, fun j hj =>
    (hothers j hj).trans (Sys.move_pc_ne s hj _)⟩

/-- A client on its way in gets in. -/
theorem open_of_entering (hpc : (s.pc i).Entering) : ∃ s', s.Reaches (goesOn i) s' ∧
    s'.pc i = .opened ∧ ∀ j, j ≠ i → s'.pc j = s.pc j := by
  cases hi : s.pc i with
  | checked =>
    obtain ⟨s', hreach, hopened⟩ := open_of_checked hi
    exact ⟨s', hreach, hopened.pc, hopened.others⟩
  | loaded count =>
    obtain ⟨s', hreach, hopened⟩ := open_of_loaded hi
    exact ⟨s', hreach, hopened.pc, hopened.others⟩
  | _ =>
    rw [hi] at hpc
    exact hpc.elim

/-- **An open** in which no other client takes a step is `device_open`. -/
theorem deviceOpen_steps (hpc : s.pc i = .idle) : ∃ s', s.Reaches (fun _ j _ => j = i) s' ∧
    s'.dev = s.dev.deviceOpen.2 ∧ (s'.pc i = .opened ↔ s.dev.deviceOpen.1 = 0) ∧
    ∀ j, j ≠ i → s'.pc j = s.pc j := by
  unfold deviceOpen
  by_cases hbusy : s.dev.deviceOpenCount > 0
  · rw [if_pos hbusy]
    refine ⟨s, .step (i := (i, .check)) .init rfl (.refused hpc hbusy), rfl, ?_, fun _ _ => rfl⟩
    rw [hpc]
    exact iff_of_false (fun h => nomatch h) (show ¬ -ebusy = 0 by decide)
  · rw [if_neg hbusy]
    have hcheck : s.Reaches (fun _ j _ => j = i) (s.move i .checked) :=
      .step (i := (i, .check)) .init rfl (.check hpc hbusy)
    obtain ⟨s', hreach, hdev, hopened, hothers⟩ := open_of_checked (Sys.move_pc_self s i .checked)
    exact ⟨s', hcheck.trans (hreach.mono fun _ _ h => h.1), hdev, iff_of_true hopened rfl,
      fun j hj => (hothers j hj).trans (Sys.move_pc_ne s hj _)⟩

/-- **A release** in which no other client takes a step is `device_release`. -/
theorem deviceRelease_steps (hpc : s.pc i = .opened) : ∃ s', s.Reaches (fun _ j _ => j = i) s' ∧
    s'.dev = s.dev.deviceRelease.2 ∧ s'.pc i = .idle ∧ ∀ j, j ≠ i → s'.pc j = s.pc j := by
  have hunload : s.Reaches (fun _ j _ => j = i) (s.move i (.releasing s.dev.deviceOpenCount)) :=
    .step (i := (i, .unload)) .init rfl (.unload hpc)
  refine ⟨_, .step (i := (i, .unstore)) hunload rfl (.unstore (Sys.move_pc_self s i _)), rfl,
    Sys.move_pc_self .., ?_⟩
  intro j hj
  exact (Sys.move_pc_ne _ hj _).trans (Sys.move_pc_ne s hj _)

end

/-! ## One client at a time -/

/-- Client `i` has been served what it had been served had it come to the device `d` alone. -/
def InSession (d : Device) (s : Sys) (i : Nat) : Prop :=
  runE Request.call d.deviceOpen.2 (s.asked i) = .ok (s.dev, s.answered i)

/-- What is so at each place of a client that has found the device `d`. -/
def Holds (d : Device) (s : Sys) (i : Nat) : Pc → Prop
  | .idle => False
  | .checked => s.dev = d
  | .loaded count => s.dev = d ∧ count = 0
  | .opened => InSession d s i
  | .releasing count => InSession d s i ∧ count = 1

/-- `d` is the device after the sessions that are over, from `d₀` on. -/
def After (d₀ : Device) (s : Sys) (d : Device) : Prop :=
  runE session d₀ (s.sessions.map Prod.fst) = .ok (d, s.sessions.map fun x => some x.2)

/-- The invariant: one client at most is not idle. -/
structure Inv (d₀ d : Device) (s : Sys) : Prop where
  ready : d.Ready
  after : After d₀ s d
  clients : ((∀ j, s.pc j = .idle) ∧ s.dev = d) ∨
    ∃ i, Holds d s i (s.pc i) ∧ ∀ j, j ≠ i → s.pc j = .idle

variable {d₀ d : Device} {s s' : Sys} {i : Nat}

theorem Ready.deviceOpen_eq (h : d.Ready) :
    d.deviceOpen = (0, { d with deviceOpenCount := d.deviceOpenCount + 1 }) := by
  unfold deviceOpen
  rw [if_neg (by rw [h.closed]; omega)]

/-- Reads do not touch the count. -/
theorem InSession.loaded (h : InSession d s i) (hd : d.Ready) :
    s.dev.Loaded ∧ s.dev.deviceOpenCount = 1 := by
  unfold InSession at h
  rw [hd.deviceOpen_eq] at h
  have hopened : ({ d with deviceOpenCount := d.deviceOpenCount + 1 } : Device).Loaded :=
    ⟨hd.buffer, hd.ptr_le⟩
  obtain ⟨d', rs, hrun, hloaded, -, hcount⟩ := reads_spec (s.asked i) hopened
  cases h.symm.trans hrun
  refine ⟨hloaded, hcount.trans ?_⟩
  show d.deviceOpenCount + 1 = 1
  rw [hd.closed]
  rfl

/-- A client that is not idle is the one. -/
theorem Inv.holds (h : Inv d₀ d s) {pc : Pc} (hpc : s.pc i = pc) (hne : pc ≠ .idle) :
    Holds d s i pc ∧ ∀ j, j ≠ i → s.pc j = .idle := by
  rw [← hpc] at hne ⊢
  rcases h.clients with ⟨hidle, -⟩ | ⟨k, hk, hothers⟩
  · exact absurd (hidle i) hne
  · obtain rfl : i = k := by
      by_contra hik
      exact hne (hothers i hik)
    exact ⟨hk, hothers⟩

/-- Where nobody is on the way in, a count of zero says that nobody is inside. -/
theorem Inv.free (h : Inv d₀ d s) (hzero : ¬ s.dev.deviceOpenCount > 0)
    (hguard : ∀ j, ¬ (s.pc j).Entering) : (∀ j, s.pc j = .idle) ∧ s.dev = d := by
  rcases h.clients with hidle | ⟨k, hk, -⟩
  · exact hidle
  · have hnot := hguard k
    have hopen : ¬ InSession d s k := by
      intro hsession
      have hone := (hsession.loaded h.ready).2
      omega
    cases hpc : s.pc k with
    | idle =>
      rw [hpc] at hk
      exact hk.elim
    | opened =>
      rw [hpc] at hk
      exact absurd hk hopen
    | releasing count =>
      rw [hpc] at hk
      exact absurd hk.1 hopen
    | _ =>
      rw [hpc] at hnot
      exact absurd trivial hnot

/-- The client that is not idle goes on to `pc`, or one comes where all are idle. -/
theorem Inv.arrive (h : Inv d₀ d s) (hothers : ∀ j, j ≠ i → s.pc j = .idle) {pc : Pc}
    (hsessions : s'.sessions = s.sessions) (hpcs : s'.pc = Function.update s.pc i pc)
    (hholds : Holds d s' i pc) : Inv d₀ d s' where
  ready := h.ready
  after := by
    unfold After
    rw [hsessions]
    exact h.after
  clients := by
    refine Or.inr ⟨i, ?_, ?_⟩
    · rw [hpcs, Function.update_self]
      exact hholds
    · intro j hj
      rw [hpcs, Function.update_of_ne hj]
      exact hothers j hj

/-- **The last step of a session** puts it behind those that are over. -/
theorem Inv.over (h : Inv d₀ d s) (hsession : InSession d s i)
    (hothers : ∀ j, j ≠ i → s.pc j = .idle) {count : Int} (hcount : s.dev.deviceOpenCount = count) :
    Inv d₀ s.dev.deviceRelease.2 (((s.setCount (count - 1)).finish i).move i .idle) := by
  subst hcount
  have hrun : runE Request.call { d with deviceOpenCount := d.deviceOpenCount + 1 } (s.asked i)
      = .ok (s.dev, s.answered i) := by
    have hrun : InSession d s i := hsession
    unfold InSession at hrun
    rwa [h.ready.deviceOpen_eq] at hrun
  have hlast := session_eq h.ready hrun
  obtain ⟨d', rs, hsame, hready, -⟩ := session_spec h.ready (s.asked i)
  cases hlast.symm.trans hsame
  refine ⟨hready, ?_, Or.inl ⟨?_, rfl⟩⟩
  · show runE session d₀ ((s.sessions ++ [(s.asked i, s.answered i)]).map Prod.fst) = _
    rw [List.map_append]
    refine (runE_append_singleton h.after hlast).trans ?_
    show _ = Except.ok (_, (s.sessions ++ [(s.asked i, s.answered i)]).map fun x => some x.2)
    rw [List.map_append]
    rfl
  · intro j
    by_cases hj : j = i
    · rw [hj]
      exact Sys.move_pc_self ..
    · exact (Sys.move_pc_ne _ hj _).trans (hothers j hj)

/-- **A guarded step** keeps the invariant, with another device if it is the last of a session. -/
theorem Inv.step (h : Inv d₀ d s) {act : Act} (hguard : Guarded s i act)
    (hs : Step s i act s') : ∃ d', Inv d₀ d' s' := by
  cases hs with
  | refused hpc hbusy => exact ⟨d, h⟩
  | check hpc hzero =>
    obtain ⟨hidle, hdev⟩ := h.free hzero (hguard.resolve_left hzero)
    exact ⟨d, h.arrive (fun j _ => hidle j) rfl rfl hdev⟩
  | load hpc =>
    obtain ⟨hdev, hothers⟩ := h.holds hpc Pc.noConfusion
    refine ⟨d, h.arrive hothers rfl rfl ⟨hdev, ?_⟩⟩
    rw [show s.dev = d from hdev, h.ready.closed]
  | @store count hpc =>
    obtain ⟨⟨hdev, rfl⟩, hothers⟩ := h.holds hpc Pc.noConfusion
    refine ⟨d, h.arrive hothers rfl rfl ?_⟩
    show InSession d _ i
    unfold InSession
    rw [h.ready.deviceOpen_eq]
    simp only [Sys.move, Sys.start, Sys.setCount, Function.update_self, hdev, h.ready.closed]
    rfl
  | @read req dev r hpc hread =>
    obtain ⟨hsession, hothers⟩ := h.holds hpc Pc.noConfusion
    have hpcs : s.pc = Function.update s.pc i .opened :=
      (Function.update_eq_self_iff.mpr hpc.symm).symm
    refine ⟨d, h.arrive hothers rfl hpcs ?_⟩
    show runE Request.call _ (Function.update s.asked i _ i) = _
    simp only [Sys.note, Function.update_self]
    exact runE_append_singleton hsession hread
  | unload hpc =>
    obtain ⟨hsession, hothers⟩ := h.holds hpc Pc.noConfusion
    exact ⟨d, h.arrive hothers rfl rfl ⟨hsession, (hsession.loaded h.ready).2⟩⟩
  | @unstore count hpc =>
    obtain ⟨⟨hsession, rfl⟩, hothers⟩ := h.holds hpc Pc.noConfusion
    exact ⟨_, h.over hsession hothers (hsession.loaded h.ready).2⟩

/-! ## Who is let in -/

/-- No two clients have the device open. -/
def Exclusive (s : Sys) : Prop := ∀ i j, (s.pc i).HasOpen → (s.pc j).HasOpen → i = j

/--
The sessions that are over are those of clients that come to `d₀` one after another, and the one
that is going on is that of a client that comes then.
-/
def Serial (d₀ : Device) (s : Sys) : Prop :=
  ∃ d, After d₀ s d ∧ ∀ i, s.pc i = .opened → InSession d s i

theorem Inv.exclusive (h : Inv d₀ d s) : Exclusive s := by
  intro i j hi hj
  rcases h.clients with ⟨hidle, -⟩ | ⟨k, -, hothers⟩
  · rw [hidle i] at hi
    exact hi.elim
  · have hk : ∀ l, (s.pc l).HasOpen → l = k := by
      intro l hl
      by_contra hne
      rw [hothers l hne] at hl
      exact hl
    rw [hk i hi, hk j hj]

theorem Inv.serial (h : Inv d₀ d s) : Serial d₀ s :=
  ⟨d, h.after, fun _ hi => (h.holds hi Pc.noConfusion).1⟩

theorem Inv.init (h : d₀.Ready) : Inv d₀ d₀ (Sys.init d₀) :=
  ⟨h, rfl, Or.inl ⟨fun _ => rfl, rfl⟩⟩

theorem inv_of_reaches (h₀ : d₀.Ready) (h : (Sys.init d₀).Reaches Guarded s) : ∃ d, Inv d₀ d s :=
  Reachable.invariant (I := fun s => ∃ d, Inv d₀ d s) ⟨d₀, Inv.init h₀⟩
    (fun ⟨_, hinv⟩ hguard hs => hinv.step hguard hs) h

/-- **A look that is not guarded** is the first step to two clients with the device open. -/
theorem two_open (hs : Step s i .check s') (hguard : ¬ Guarded s i .check) :
    ∃ s'', s'.Reaches Guarded s'' ∧ ¬ Exclusive s'' := by
  obtain ⟨hzero, hentering⟩ := not_or.mp hguard
  obtain ⟨j, hj⟩ := not_forall_not.mp hentering
  cases hs with
  | refused hpc hbusy => exact absurd hbusy hzero
  | check hpc _ =>
    have hne : j ≠ i := by
      rintro rfl
      rw [hpc] at hj
      exact hj
    have hj' : ((s.move i .checked).pc j).Entering := by
      rwa [Sys.move_pc_ne s hne]
    obtain ⟨s₁, hreach₁, hopen₁, hothers₁⟩ := open_of_entering hj'
    have hi : s₁.pc i = .checked := (hothers₁ i (Ne.symm hne)).trans (Sys.move_pc_self s i _)
    obtain ⟨s₂, hreach₂, hopened₂⟩ := open_of_checked hi
    refine ⟨s₂, hreach₁.guarded.trans hreach₂.guarded, ?_⟩
    intro hexclusive
    refine hne (hexclusive j i ?_ ?_)
    · rw [hopened₂.others j hne, hopen₁]
      trivial
    · rw [hopened₂.pc]
      trivial

/--
**Opening.** From a load on, and whatever other clients do in between: as long as no client looks at
the count while another is between its look and its store, the device is open once at most, and
each session gets what it would get if the sessions came one after another. And one more look keeps
it so, whatever guarded steps follow, iff it comes at no such time.
-/
theorem open_exclusive_iff (paramMajorNum : Int) (answer : Except ErrCode Nat) (r : Registry)
    {s : Sys} (h : (Sys.init (deviceInitSub paramMajorNum answer r).2.1).Reaches
      Guarded s) :
    Exclusive s ∧ Serial (deviceInitSub paramMajorNum answer r).2.1 s ∧
      ∀ i s', Step s i .check s' →
        ((∀ s'', s'.Reaches Guarded s'' → Exclusive s'') ↔
          Guarded s i .check) := by
  have hready := deviceInitSub_ready paramMajorNum answer r
  obtain ⟨d, hinv⟩ := inv_of_reaches hready h
  refine ⟨hinv.exclusive, hinv.serial, fun i s' hs => ⟨?_, ?_⟩⟩
  · intro hall
    by_contra hguard
    obtain ⟨s'', hreach, htwo⟩ := two_open hs hguard
    exact htwo (hall s'' hreach)
  · intro hguard s'' hs''
    have hnext := Reachable.step (i := (i, Act.check)) h hguard hs
    obtain ⟨d', hinv'⟩ := inv_of_reaches hready (hnext.trans hs'')
    exact hinv'.exclusive

/-- One client has looked at the count. -/
theorem open_exclusive_iff_checked :
    let d := (deviceInitSub 0 (.ok 240) Registry.empty).2.1
    Exclusive ((Sys.init d).move 0 .checked) ∧ Serial d ((Sys.init d).move 0 .checked) ∧
      ∀ i s', Step ((Sys.init d).move 0 .checked) i .check s' →
        ((∀ s'', s'.Reaches Guarded s'' → Exclusive s'') ↔
          Guarded ((Sys.init d).move 0 .checked) i .check) :=
  open_exclusive_iff 0 (.ok 240) Registry.empty
    (.step (i := (0, .check)) .init (Or.inr fun _ => not_false) (.check rfl (by decide)))

end LkmSandbox.Device
