import LkmSandbox.Mev.Interleave

/-!
# What interleaved clients see is what one client would see

`LkmSandbox/Mev/Interleave.lean` says that the container survives interleaved clients. Here is what
the clients are told. Each step is given the replies it hands out, and what happened is written
down: `Logged` is `Step` with a history that no step reads.

The calls that came through the semaphore, in the order in which they returned, are a run of
`LkmSandbox/Mev/Driver.lean` with the same replies; those that were interrupted left nothing. A call
takes effect at its `up`, so what returned before another began also stands before it in that run.
An open is one step here, its whole `mev_trim` included.

* `Logged.erase` — a logged step is a step
* `Linear.step` — every guarded step keeps the history sequential
* `linearizable` — every history of guarded steps
* `taken_iff_run` — and every run of whole calls has a history
-/

namespace LkmSandbox.Mev

open Lib

/-! ## Histories -/

/-- What a client of the device can see happen. -/
inductive Seen where
  | opened (i : Nat) (fFlags : UInt32)
  | begun (i : Nat) (op : Op)
  /-- its wait for the semaphore ended with a signal, and it got `-ERESTARTSYS` -/
  | interrupted (i : Nat)
  | returned (i : Nat) (op : Op) (copy : UserCopy) (reply : Reply)

def Seen.client : Seen → Nat
  | .opened i _ => i
  | .begun i _ => i
  | .interrupted i => i
  | .returned i .. => i

/-- The call as user space and the kernel make it. -/
def Op.toCall (copy : UserCopy) : Op → Call
  | .mevRead fPos count => .mevRead fPos count copy.uncopied
  | .mevWrite fPos count buf => .mevWrite fPos count buf copy

/-- The call that has come to its end, and what it replied. -/
def Seen.taken : Seen → Option (Call × Reply)
  | .opened _ fFlags => some (.mevOpen fFlags, { retval := 0, fPos := 0, delivered := [] })
  | .returned _ op copy reply => some (op.toCall copy, reply)
  | _ => none

/-- What a client at `out:` is about to return. -/
structure Result where
  op : Op
  copy : UserCopy
  reply : Reply

/-- The system and what has happened so far. -/
structure Hist where
  sys : Sys
  events : List Seen
  result : Nat → Option Result

/-- Client `i` moves on inside its call; `r` is its result, once it is known. -/
def Hist.move (h : Hist) (i : Nat) (pc : Pc) (m : Mem) (r : Option Result) : Hist :=
  { h with sys := h.sys.set i pc m, result := Function.update h.result i r }

/-- Client `i` moves on and `e` can be seen. -/
def Hist.log (h : Hist) (i : Nat) (pc : Pc) (m : Mem) (e : Seen) : Hist :=
  { h with sys := h.sys.set i pc m, events := h.events ++ [e] }

/-- What has come to its end, in order. -/
def Hist.taken (h : Hist) : List (Call × Reply) := h.events.filterMap Seen.taken

/-- All clients idle, the container trimmed, nothing seen. -/
def Hist.start : Hist := { sys := Sys.start, events := [], result := fun _ => none }

/-- The reply of a write after its copy. -/
def writeReply (fPos count left : Nat) : Reply :=
  if left ≠ 0 then { retval := -efault, fPos, delivered := [] }
  else { retval := count, fPos := fPos + count, delivered := [] }

/-- The user copy with what the call will reply because of it. -/
def Op.copyReply (dptr : Addr) (sPos qPos : Int) (count : Nat) (copy : UserCopy) (m : Mem) :
    Op → Except Fault (Mem × Nat × Reply)
  | .mevRead fPos _ => do
    let (delivered, left) ← readCopy dptr sPos qPos count copy.uncopied m
    .ok (m, left, readReply fPos count delivered left)
  | .mevWrite fPos _ buf => do
    let (m, left) ← writeCopy dptr sPos qPos count buf copy m
    .ok (m, left, writeReply fPos count left)

/-- One step of client `i`, written down. -/
inductive Logged (env : Env) (h : Hist) (i : Nat) : Act → Hist → Prop where
  | mevOpen {fFlags : UInt32} {m : Mem} (hpc : h.sys.pc i = .idle)
      (ho : mevOpen fFlags h.sys.mem = .ok m) :
      Logged env h i (.mevOpen fFlags) (h.log i .idle m (.opened i fFlags))
  | begin {op : Op} (hpc : h.sys.pc i = .idle) :
      Logged env h i (.begin op)
        (h.log i (.begun op h.sys.mem.container.quantum h.sys.mem.container.qset) h.sys.mem
          (.begun i op))
  | down {op : Op} {quantum qset : Int} {m : Mem} (hpc : h.sys.pc i = .begun op quantum qset)
      (hd : h.sys.mem.downInterruptible = .ok (m, true)) :
      Logged env h i .down (h.move i (.down op quantum qset) m none)
  | interrupted {op : Op} {quantum qset : Int} {m : Mem}
      (hpc : h.sys.pc i = .begun op quantum qset)
      (hd : h.sys.mem.downInterruptible = .ok (m, false)) :
      Logged env h i .down (h.log i .idle m (.interrupted i))
  | locate {op : Op} {quantum qset : Int} {m : Mem} {dptr : Addr} {sPos qPos : Int} {count : Nat}
      (hpc : h.sys.pc i = .down op quantum qset)
      (hl : op.locate env quantum qset h.sys.mem = .ok (m, .copy dptr sPos qPos count)) :
      Logged env h i .locate (h.move i (.located op dptr sPos qPos count) m none)
  /-- no user copy is made, so any outcome of it will do -/
  | locateOut {op : Op} {quantum qset : Int} {m : Mem} {retval : Int} (copy : UserCopy)
      (hpc : h.sys.pc i = .down op quantum qset)
      (hl : op.locate env quantum qset h.sys.mem = .ok (m, .out retval)) :
      Logged env h i .locate
        (h.move i .out m (some ⟨op, copy, { retval, fPos := op.fPos, delivered := [] }⟩))
  | copy {op : Op} {dptr : Addr} {sPos qPos : Int} {count left : Nat} {copy : UserCopy} {m : Mem}
      {reply : Reply} (hpc : h.sys.pc i = .located op dptr sPos qPos count)
      (hc : op.copyReply dptr sPos qPos count copy h.sys.mem = .ok (m, left, reply)) :
      Logged env h i (.copy copy)
        (h.move i (if left = 0 then .copied op count else .out) m (some ⟨op, copy, reply⟩))
  | update {op : Op} {count : Nat} (hpc : h.sys.pc i = .copied op count) :
      Logged env h i .update (h.move i .out (op.update count h.sys.mem) (h.result i))
  | up {r : Result} (hpc : h.sys.pc i = .out) (hr : h.result i = some r) :
      Logged env h i .up
        (h.log i .idle h.sys.mem.up (.returned i r.op r.copy r.reply))

/-- The step of the client that the label names. -/
def Hist.Goes (env : Env) (h : Hist) (l : Nat × Act) (h' : Hist) : Prop := Logged env h l.1 l.2 h'

/-- Reached by logged steps of any clients in any order, all guarded. -/
def Hist.Reached (env : Env) : Hist → Prop :=
  Lib.Reachable Hist.start (Hist.Goes env) fun h l => l.2.Valid ∧ l.2.Guarded h.sys

/-- The events of client `i` are one call after another; `op` is the one it is in. -/
inductive Serial (i : Nat) : List Seen → Option Op → Prop where
  | nil : Serial i [] none
  | other {es : List Seen} {op : Option Op} {e : Seen} (hne : e.client ≠ i)
      (h : Serial i es op) : Serial i (es ++ [e]) op
  | opened {es : List Seen} {fFlags : UInt32} (h : Serial i es none) :
      Serial i (es ++ [.opened i fFlags]) none
  | begun {es : List Seen} {op : Op} (h : Serial i es none) :
      Serial i (es ++ [.begun i op]) (some op)
  | interrupted {es : List Seen} {op : Op} (h : Serial i es (some op)) :
      Serial i (es ++ [.interrupted i]) none
  | returned {es : List Seen} {op : Op} {copy : UserCopy} {reply : Reply}
      (h : Serial i es (some op)) : Serial i (es ++ [.returned i op copy reply]) none

/-! ## A logged step is a step -/

section Erase

variable {env : Env} {h h' : Hist} {i : Nat} {act : Act}

/-- What the reply adds to the copy. -/
theorem Op.copy_eq (op : Op) (dptr : Addr) (sPos qPos : Int) (count : Nat) (copy : UserCopy)
    (m : Mem) : op.copy dptr sPos qPos count copy m
      = (op.copyReply dptr sPos qPos count copy m).map fun x => (x.1, x.2.1) := by
  cases op with
  | mevRead fPos c =>
    simp only [Op.copy, Op.copyReply]
    cases readCopy dptr sPos qPos count copy.uncopied m <;> rfl
  | mevWrite fPos c buf =>
    simp only [Op.copy, Op.copyReply]
    cases writeCopy dptr sPos qPos count buf copy m <;> rfl

theorem Op.copy_of_copyReply {op : Op} {dptr : Addr} {sPos qPos : Int} {count left : Nat}
    {copy : UserCopy} {m m' : Mem} {reply : Reply}
    (hc : op.copyReply dptr sPos qPos count copy m = .ok (m', left, reply)) :
    op.copy dptr sPos qPos count copy m = .ok (m', left) := by
  rw [op.copy_eq, hc]
  rfl

theorem Op.copyReply_of_copy {op : Op} {dptr : Addr} {sPos qPos : Int} {count left : Nat}
    {copy : UserCopy} {m m' : Mem} (hc : op.copy dptr sPos qPos count copy m = .ok (m', left)) :
    ∃ reply, op.copyReply dptr sPos qPos count copy m = .ok (m', left, reply) := by
  rw [op.copy_eq] at hc
  cases hr : op.copyReply dptr sPos qPos count copy m with
  | error e =>
    rw [hr] at hc
    cases hc
  | ok x =>
    rw [hr] at hc
    cases hc
    exact ⟨x.2.2, rfl⟩

/-- **Nothing but the history is added.** -/
theorem Logged.erase (hs : Logged env h i act h') : Step env h.sys i act h'.sys := by
  cases hs with
  | mevOpen hpc ho => exact .mevOpen hpc ho
  | begin hpc => exact .begin hpc
  | down hpc hd => exact .down hpc hd
  | interrupted hpc hd => exact .down hpc hd
  | locate hpc hl => exact .locate hpc hl
  | locateOut copy hpc hl => exact .locateOut hpc hl
  | copy hpc hc => exact .copy hpc (Op.copy_of_copyReply hc)
  | update hpc => exact .update hpc
  | up hpc hr => exact .up hpc

end Erase

/-! ## A call put together again -/

section Pieces

variable {env : Env} {m m₁ m₂ m₃ : Mem} {op : Op} {copy : UserCopy}

theorem Op.call_out (copy : UserCopy) (hd : m.downInterruptible = .ok (m₁, true)) {retval : Int}
    (hl : op.locate env m.container.quantum m.container.qset m₁ = .ok (m₂, .out retval)) :
    op.call env copy m = .ok (m₂.up, { retval, fPos := op.fPos, delivered := [] }) := by
  cases op with
  | mevRead fPos c =>
    simp only [Op.locate] at hl
    simp only [Op.call, Mev.mevRead, hd, hl, ok_bind, if_true]
    rfl
  | mevWrite fPos c buf =>
    simp only [Op.locate] at hl
    simp only [Op.call, Mev.mevWrite, hd, hl, ok_bind, if_true]
    rfl

theorem Op.call_copy (hd : m.downInterruptible = .ok (m₁, true)) {dptr : Addr} {sPos qPos : Int}
    {n left : Nat} {reply : Reply}
    (hl : op.locate env m.container.quantum m.container.qset m₁
      = .ok (m₂, .copy dptr sPos qPos n))
    (hc : op.copyReply dptr sPos qPos n copy m₂ = .ok (m₃, left, reply)) :
    op.call env copy m = .ok ((if left = 0 then op.update n m₃ else m₃).up, reply) := by
  cases op with
  | mevRead fPos c =>
    obtain ⟨⟨delivered, left'⟩, hr, hc⟩ := bind_ok hc
    cases hc
    simp only [Op.locate] at hl
    simp only [Op.call, Mev.mevRead, hd, hl, hr, ok_bind, if_true, Op.update, ite_self]
  | mevWrite fPos c buf =>
    obtain ⟨⟨m', left'⟩, hw, hc⟩ := bind_ok hc
    cases hc
    simp only [Op.locate] at hl
    simp only [Op.call, Mev.mevWrite, hd, hl, hw, ok_bind, if_true, Op.update, writeReply]
    by_cases hleft : left = 0 <;> simp [hleft]

theorem step_toCall (env : Env) (op : Op) (copy : UserCopy) (m : Mem) :
    step env m (op.toCall copy) = op.call env copy m := by
  cases op <;> rfl

/-- The walk of a call frees nothing: where there is no list afterwards there was none before. -/
theorem Op.locate_data {st : Store} {place : Place → Option Addr} (h : Rep st place m)
    (hop : op.Valid) {located : Located}
    (hl : op.locate env Dims.std.quantum Dims.std.qset m = .ok (m₁, located))
    (hnone : m₁.container.data = none) : m.container.data = none := by
  have hback {st' : Store} {place' : Place → Option Addr} (hr : Rep st' place' m₁)
      (hle : st.len ≤ st'.len) : m.container.data = none := by
    rw [hr.head] at hnone
    rw [h.head]
    exact h.node_none (Nat.le_trans hle (hr.len_le hnone))
  cases op with
  | mevRead fPos c =>
    obtain ⟨m', place', located', he, hr, -⟩ :=
      readLocate_spec env h (p := fPos) hop c
    rw [Op.locate, he] at hl
    cases hl
    exact hback hr (st.le_lookup_len env fPos)
  | mevWrite fPos c buf =>
    obtain ⟨m', place', located', he, hr, -⟩ :=
      writeLocate_spec env h (p := fPos) hop c
    rw [Op.locate, he] at hl
    cases hl
    exact hback hr (st.le_allocate_len env (addrOf fPos))

end Pieces

/-! ## The invariant -/

/--
What the client with the semaphore has done since the memory was `base`: what is left of its call,
done with the memory `m`, is the call done with `base`.
-/
def Resumes (env : Env) (base : Mem) (result : Option Result) (m : Mem) : Pc → Prop
  | .down _ quantum qset =>
    quantum = base.container.quantum ∧ qset = base.container.qset ∧
      base.downInterruptible = .ok (m, true)
  | .located op dptr sPos qPos n =>
    ∃ m₁, base.downInterruptible = .ok (m₁, true) ∧
      op.locate env base.container.quantum base.container.qset m₁
        = .ok (m, .copy dptr sPos qPos n)
  | .copied op n =>
    ∃ r, result = some r ∧ r.op = op ∧
      op.call env r.copy base = .ok ((op.update n m).up, r.reply)
  | .out => ∃ r, result = some r ∧ r.op.call env r.copy base = .ok (m.up, r.reply)
  | _ => True

/-- The call a client is in. -/
def Pc.doing (result : Option Result) : Pc → Option Op
  | .idle => none
  | .begun op _ _ => some op
  | .down op _ _ => some op
  | .located op _ _ _ _ => some op
  | .copied op _ => some op
  | .out => result.map Result.op

/-- `base` is the memory when the semaphore was last free. -/
structure Linear (env : Env) (h : Hist) (base : Mem) : Prop where
  run : run env trimmed (h.taken.map Prod.fst) = .ok (base, h.taken.map Prod.snd)
  rep : ∃ st place, Rep st place base ∧ st.Listed
  data : h.sys.mem.container.data = none → base.container.data = none
  free : (∀ i, ¬ (h.sys.pc i).Between) → h.sys.mem = base
  resumes : ∀ i, Resumes env base (h.result i) h.sys.mem (h.sys.pc i)
  serial : ∀ i, Serial i h.events ((h.sys.pc i).doing (h.result i))

section Linear

variable {env : Env} {h : Hist} {base m : Mem} {i : Nat} {pc : Pc} {r : Option Result}

/-- Nothing is claimed of a client without the semaphore. -/
theorem Resumes.of_not_between (hb : ¬ pc.Between) : Resumes env base r m pc := by
  cases pc with
  | idle => trivial
  | begun op quantum qset => trivial
  | down op quantum qset => exact absurd trivial hb
  | located op dptr sPos qPos n => exact absurd trivial hb
  | copied op n => exact absurd trivial hb
  | out => exact absurd trivial hb

/-- What `r` is does not matter to a client that has not come to its copy. -/
theorem Hist.forall_move {Q : Nat → Pc → Option Result → Prop} (hself : Q i pc r)
    (hother : ∀ j ≠ i, Q j (h.sys.pc j) (h.result j)) (j : Nat) :
    Q j ((h.move i pc m r).sys.pc j) ((h.move i pc m r).result j) := by
  by_cases hji : j = i
  · subst hji
    simpa only [Hist.move, Sys.set, Function.update_self] using hself
  · simpa only [Hist.move, Sys.set, Function.update_of_ne hji] using hother j hji

theorem Hist.forall_log {Q : Nat → Pc → Option Result → Prop} {e : Seen}
    (hself : Q i pc (h.result i)) (hother : ∀ j ≠ i, Q j (h.sys.pc j) (h.result j)) (j : Nat) :
    Q j ((h.log i pc m e).sys.pc j) ((h.log i pc m e).result j) := by
  by_cases hji : j = i
  · subst hji
    simpa only [Hist.log, Sys.set, Function.update_self] using hself
  · simpa only [Hist.log, Sys.set, Function.update_of_ne hji] using hother j hji

/-- The client that gets or has the semaphore moves on inside its call. -/
theorem Linear.move (hL : Linear env h base)
    (honly : ∀ j ≠ i, ¬ (h.sys.pc j).Between) (hb : pc.Between)
    (hdata : m.container.data = none → h.sys.mem.container.data = none)
    (hres : Resumes env base r m pc) (hdo : pc.doing r = (h.sys.pc i).doing (h.result i)) :
    Linear env (h.move i pc m r) base where
  run := hL.run
  rep := hL.rep
  data := fun hnone => hL.data (hdata hnone)
  free := by
    intro hno
    refine absurd ?_ (hno i)
    show ((h.sys.set i pc m).pc i).Between
    rw [Sys.set_pc_self]
    exact hb
  resumes := Hist.forall_move (Q := fun _ pc r => Resumes env base r m pc) hres
    fun j hji => .of_not_between (honly j hji)
  serial := by
    refine Hist.forall_move (Q := fun j pc r => Serial j h.events (pc.doing r)) ?_
      fun j _ => hL.serial j
    rw [hdo]
    exact hL.serial i

/-- The events of the others are not touched by an event of `i`. -/
theorem Linear.serial_log (hL : Linear env h base) {e : Seen} (he : e.client = i)
    (hself : Serial i (h.events ++ [e]) (pc.doing (h.result i))) (j : Nat) :
    Serial j (h.log i pc m e).events
      (((h.log i pc m e).sys.pc j).doing ((h.log i pc m e).result j)) :=
  Hist.forall_log (Q := fun j pc r => Serial j (h.events ++ [e]) (pc.doing r)) hself
    (fun j hji => .other (by rw [he]; exact Ne.symm hji) (hL.serial j)) j

/-- A client without the semaphore does something that is not a call that came to its end. -/
theorem Linear.logOutside (hL : Linear env h base) {e : Seen} (he : e.client = i)
    (hnot : e.taken = none) (hi : ¬ (h.sys.pc i).Between) (hb : ¬ pc.Between)
    (hself : Serial i (h.events ++ [e]) (pc.doing (h.result i))) :
    Linear env (h.log i pc h.sys.mem e) base where
  run := by
    have htaken : (h.log i pc h.sys.mem e).taken = h.taken := by
      show (h.events ++ [e]).filterMap Seen.taken = h.events.filterMap Seen.taken
      rw [List.filterMap_append, List.filterMap_cons_none hnot, List.filterMap_nil,
        List.append_nil]
    rw [htaken]
    exact hL.run
  rep := hL.rep
  data := hL.data
  free := by
    intro hno
    refine hL.free ?_
    intro j hj
    by_cases hji : j = i
    · rw [hji] at hj
      exact hi hj
    · refine hno j ?_
      show ((h.sys.set i pc h.sys.mem).pc j).Between
      rw [h.sys.set_pc_of_ne hji]
      exact hj
  resumes := Hist.forall_log (Q := fun _ pc r => Resumes env base r h.sys.mem pc)
    (.of_not_between hb) fun j _ => hL.resumes j
  serial := hL.serial_log he hself

/-- A call comes to its end: it is one more call of the sequential run. -/
theorem Linear.logTaken (hL : Linear env h base) {base' : Mem} {e : Seen} {c : Call}
    {reply : Reply} (he : e.client = i) (htaken : e.taken = some (c, reply))
    (hstep : step env base c = .ok (base', reply))
    (hrep : ∃ st place, Rep st place base' ∧ st.Listed)
    (hdata : m.container.data = none → base'.container.data = none)
    (hfree : (∀ j ≠ i, ¬ (h.sys.pc j).Between) → m = base')
    (hres : ∀ j ≠ i, Resumes env base' (h.result j) m (h.sys.pc j))
    (hself : Serial i (h.events ++ [e]) none) :
    Linear env (h.log i .idle m e) base' where
  run := by
    have happ : (h.log i .idle m e).taken = h.taken ++ [(c, reply)] := by
      show (h.events ++ [e]).filterMap Seen.taken = h.events.filterMap Seen.taken ++ _
      rw [List.filterMap_append, List.filterMap_cons_some htaken, List.filterMap_nil]
    rw [happ, List.map_append, List.map_append]
    exact runE_append_singleton hL.run hstep
  rep := hrep
  data := hdata
  free := by
    intro hno
    refine hfree fun j hji hj => hno j ?_
    show ((h.sys.set i .idle m).pc j).Between
    rw [h.sys.set_pc_of_ne hji]
    exact hj
  resumes := Hist.forall_log (Q := fun _ pc r => Resumes env base' r m pc) trivial hres
  serial := hL.serial_log he hself

theorem mevOpen_eq_mevTrim {fFlags : UInt32} (hw : mevIoIsWronly fFlags = true) (m : Mem) :
    mevOpen fFlags m = mevTrim m := by
  rw [mevOpen, if_pos hw]

/-- An open while another client has the semaphore: it finds nothing to free, now or before. -/
theorem Linear.open_base (hL : Linear env h base) {fFlags : UInt32}
    (hd : mevIoIsWronly fFlags = true → h.sys.mem.container.data = none) :
    step env base (.mevOpen fFlags)
      = .ok (base, { retval := 0, fPos := 0, delivered := [] }) := by
  by_cases hw : mevIoIsWronly fFlags = true
  · obtain ⟨st, place, hrep, hlisted⟩ := hL.rep
    rw [step, mevOpen_eq_mevTrim hw, mevTrim_of_none hrep hlisted (hL.data (hd hw))]
    rfl
  · rw [step, mevOpen, if_neg hw]
    rfl

/-- Who is between `down` and `up` is there alone. -/
theorem only_between {st : Store} {place : Place → Option Addr} (hinv : Inv h.sys st place)
    (hpc : h.sys.pc i = pc) (hb : pc.Between) : ∀ j ≠ i, ¬ (h.sys.pc j).Between := by
  intro j hji hj
  exact hji (hinv.sem.unique (hpc ▸ hb) hj)

theorem downInterruptible_true {m' : Mem} (hd : m.downInterruptible = .ok (m', true)) :
    ∃ n, m.container.sem = some (n + 1) ∧
      m' = { m with container := { m.container with sem := some n } } := by
  unfold Mem.downInterruptible at hd
  split at hd <;> cases hd
  exact ⟨_, ‹_›, rfl⟩

theorem downInterruptible_false {m' : Mem} (hd : m.downInterruptible = .ok (m', false)) :
    m' = m := by
  unfold Mem.downInterruptible at hd
  split at hd <;> cases hd
  rfl

/-- An open comes to its end. -/
theorem Linear.mevOpen {st st' : Store} {place place' : Place → Option Addr} {fFlags : UInt32}
    (hL : Linear env h base) (hinv : Inv h.sys st place) (hrep : Rep st' place' m)
    (hlisted : st'.Listed) (hpc : h.sys.pc i = .idle) (hg : Act.Guarded h.sys (.mevOpen fFlags))
    (ho : mevOpen fFlags h.sys.mem = .ok m) :
    ∃ base', Linear env (h.log i .idle m (.opened i fFlags)) base' := by
  have hser := hL.serial i
  rw [hpc] at hser
  rcases (hinv.mevOpen hpc hg ho).1 with rfl | hno
  -- the open leaves the memory alone
  · have hstep : Mev.step env base (.mevOpen fFlags)
        = .ok (base, { retval := 0, fPos := 0, delivered := [] }) := by
      by_cases hfree : ∀ j, ¬ (h.sys.pc j).Between
      · rw [← hL.free hfree, Mev.step, ho]
        rfl
      · refine hL.open_base fun hw => (hg hw).resolve_left fun hsem => hfree ?_
        intro j hj
        rw [hinv.sem.sem_zero hj] at hsem
        simp at hsem
    refine ⟨base, hL.logTaken rfl rfl hstep hL.rep hL.data (fun hno => hL.free ?_)
      (fun j _ => hL.resumes j) hser.opened⟩
    intro j hj
    by_cases hji : j = i
    · rw [hji, hpc] at hj
      exact hj
    · exact hno j hji hj
  -- the semaphore is free
  · have hstep : Mev.step env base (.mevOpen fFlags)
        = .ok (m, { retval := 0, fPos := 0, delivered := [] }) := by
      rw [← hL.free hno, Mev.step, ho]
      rfl
    exact ⟨m, hL.logTaken rfl rfl hstep ⟨st', place', hrep, hlisted⟩ id (fun _ => rfl)
      (fun j _ => .of_not_between (hno j)) hser.opened⟩

/-- A user copy leaves the list where it is. -/
theorem copy_data {st : Store} {place : Place → Option Addr} (hinv : Inv h.sys st place) {op : Op}
    {dptr : Addr} {sPos qPos : Int} {n left : Nat} {copy : UserCopy} {reply : Reply}
    (hpc : h.sys.pc i = .located op dptr sPos qPos n)
    (hc : op.copyReply dptr sPos qPos n copy h.sys.mem = .ok (m, left, reply)) :
    m.container.data = none → h.sys.mem.container.data = none := by
  obtain ⟨hop, count, hat⟩ := hinv.located hpc
  obtain ⟨m', st', he, hrep, hlen, -⟩ := Op.copy_spec hinv.rep hat copy
  rw [Op.copy_of_copyReply hc] at he
  cases he
  intro hnone
  rw [hrep.head] at hnone
  rw [hinv.rep.head]
  exact hinv.rep.node_none (hlen ▸ hrep.len_le hnone)

/-- A client begins a call. -/
theorem Linear.begin {op : Op} {quantum qset : Int} (hL : Linear env h base)
    (hpc : h.sys.pc i = .idle) :
    Linear env (h.log i (.begun op quantum qset) h.sys.mem (.begun i op)) base := by
  have hser := hL.serial i
  rw [hpc] at hser
  refine hL.logOutside rfl rfl ?_ not_false hser.begun
  rw [hpc]
  exact not_false

/-- A client gets the semaphore: it was free, so the memory was `base`. -/
theorem Linear.down {st : Store} {place : Place → Option Addr} {op : Op} {quantum qset : Int}
    (hL : Linear env h base) (hinv : Inv h.sys st place) (hpc : h.sys.pc i = .begun op quantum qset)
    (hd : h.sys.mem.downInterruptible = .ok (m, true)) :
    Linear env (h.move i (.down op quantum qset) m none) base := by
  have hpci := hinv.pc i
  rw [hpc] at hpci
  obtain ⟨rfl, rfl, -⟩ := hpci
  obtain ⟨n, hsem, hm⟩ := downInterruptible_true hd
  have hno : ∀ j, ¬ (h.sys.pc j).Between := by
    intro j hj
    rw [hinv.sem.sem_zero hj] at hsem
    cases hsem
  have hbase := hL.free hno
  refine hL.move (fun j _ => hno j) trivial ?_ ⟨?_, ?_, ?_⟩ ?_
  · rw [hm]
    exact id
  · rw [← hbase]
    exact hinv.rep.quantum.symm
  · rw [← hbase]
    exact hinv.rep.qset.symm
  · rw [← hbase]
    exact hd
  · rw [hpc]
    rfl

/-- A client's wait for the semaphore is interrupted. -/
theorem Linear.interrupted {op : Op} {quantum qset : Int} (hL : Linear env h base)
    (hpc : h.sys.pc i = .begun op quantum qset)
    (hd : h.sys.mem.downInterruptible = .ok (m, false)) :
    Linear env (h.log i .idle m (.interrupted i)) base := by
  have hser := hL.serial i
  rw [hpc] at hser
  obtain rfl := downInterruptible_false hd
  refine hL.logOutside rfl rfl ?_ not_false hser.interrupted
  rw [hpc]
  exact not_false

/-- What the client with the semaphore knows when it starts its walk. -/
theorem Linear.at_down {st : Store} {place : Place → Option Addr} {op : Op} {quantum qset : Int}
    (hL : Linear env h base) (hinv : Inv h.sys st place)
    (hpc : h.sys.pc i = .down op quantum qset) :
    quantum = Dims.std.quantum ∧ qset = Dims.std.qset ∧ op.Valid ∧
      quantum = base.container.quantum ∧ qset = base.container.qset ∧
      base.downInterruptible = .ok (h.sys.mem, true) := by
  have hpci := hinv.pc i
  have hresi := hL.resumes i
  rw [hpc] at hpci hresi
  exact ⟨hpci.1, hpci.2.1, hpci.2.2, hresi⟩

/-- It finds its slot. -/
theorem Linear.locate {st : Store} {place : Place → Option Addr} {op : Op} {quantum qset : Int}
    {dptr : Addr} {sPos qPos : Int} {n : Nat} (hL : Linear env h base)
    (hinv : Inv h.sys st place) (hpc : h.sys.pc i = .down op quantum qset)
    (hl : op.locate env quantum qset h.sys.mem = .ok (m, .copy dptr sPos qPos n)) :
    Linear env (h.move i (.located op dptr sPos qPos n) m none) base := by
  obtain ⟨rfl, rfl, hop, hq, hqs, hd⟩ := hL.at_down hinv hpc
  refine hL.move (only_between hinv hpc trivial) trivial
    (Op.locate_data hinv.rep hop hl) ⟨_, hd, ?_⟩ ?_
  · rw [← hq, ← hqs]
    exact hl
  · rw [hpc]
    rfl

/-- Or it goes to `out:` without one. -/
theorem Linear.locateOut {st : Store} {place : Place → Option Addr} {op : Op} {quantum qset : Int}
    {retval : Int} (copy : UserCopy) (hL : Linear env h base) (hinv : Inv h.sys st place)
    (hpc : h.sys.pc i = .down op quantum qset)
    (hl : op.locate env quantum qset h.sys.mem = .ok (m, .out retval)) :
    Linear env (h.move i .out m
      (some ⟨op, copy, { retval, fPos := op.fPos, delivered := [] }⟩)) base := by
  obtain ⟨rfl, rfl, hop, hq, hqs, hd⟩ := hL.at_down hinv hpc
  refine hL.move (only_between hinv hpc trivial) trivial
    (Op.locate_data hinv.rep hop hl) ⟨_, rfl, ?_⟩ ?_
  · rw [hq, hqs] at hl
    exact Op.call_out copy hd hl
  · rw [hpc]
    rfl

/-- The user copy, after which the result is known. -/
theorem Linear.copy {st : Store} {place : Place → Option Addr} {op : Op} {dptr : Addr}
    {sPos qPos : Int} {n left : Nat} {copy : UserCopy} {reply : Reply} (hL : Linear env h base)
    (hinv : Inv h.sys st place) (hpc : h.sys.pc i = .located op dptr sPos qPos n)
    (hc : op.copyReply dptr sPos qPos n copy h.sys.mem = .ok (m, left, reply)) :
    Linear env (h.move i (if left = 0 then .copied op n else .out) m
      (some ⟨op, copy, reply⟩)) base := by
  have hresi := hL.resumes i
  rw [hpc] at hresi
  obtain ⟨m₁, hd, hl⟩ := hresi
  have hcall := Op.call_copy hd hl hc
  refine hL.move (only_between hinv hpc trivial) ?_ (copy_data hinv hpc hc) ?_ ?_
  · split <;> exact trivial
  · split
    · next hleft =>
      rw [if_pos hleft] at hcall
      exact ⟨_, rfl, rfl, hcall⟩
    · next hleft =>
      rw [if_neg hleft] at hcall
      exact ⟨_, rfl, hcall⟩
  · rw [hpc]
    split <;> rfl

/-- What follows a copy that succeeded. -/
theorem Linear.update {st : Store} {place : Place → Option Addr} {op : Op} {n : Nat}
    (hL : Linear env h base) (hinv : Inv h.sys st place) (hpc : h.sys.pc i = .copied op n) :
    Linear env (h.move i .out (op.update n h.sys.mem) (h.result i)) base := by
  have hresi := hL.resumes i
  rw [hpc] at hresi
  obtain ⟨r, hr, hop, hcall⟩ := hresi
  refine hL.move (only_between hinv hpc trivial) trivial ?_ ⟨r, hr, ?_⟩ ?_
  · cases op with
    | mevRead fPos c => exact id
    | mevWrite fPos c buf =>
      simp only [Op.update, writeUpdate]
      split <;> exact id
  · rw [hop]
    exact hcall
  · rw [hpc, hr]
    exact congrArg some hop

/-- The call returns, and it is one more call of the run. -/
theorem Linear.up {st : Store} {place : Place → Option Addr} {res : Result}
    (hL : Linear env h base) (hinv : Inv h.sys st place) (hpc : h.sys.pc i = .out)
    (hr : h.result i = some res) :
    Linear env (h.log i .idle h.sys.mem.up (.returned i res.op res.copy res.reply))
      h.sys.mem.up := by
  have hser := hL.serial i
  have hresi := hL.resumes i
  rw [hpc] at hresi hser
  obtain ⟨r', hr', hcall⟩ := hresi
  rw [hr] at hr'
  cases hr'
  rw [hr] at hser
  rw [← step_toCall] at hcall
  exact hL.logTaken rfl rfl hcall ⟨st, place, hinv.rep.up, hinv.listed⟩ id (fun _ => rfl)
    (fun j hji => .of_not_between (only_between hinv hpc trivial j hji)) (.returned hser)

/-- **A guarded step keeps the history sequential.** -/
theorem Linear.step {h' : Hist} {st : Store} {place : Place → Option Addr} {act : Act}
    (hL : Linear env h base) (hinv : Inv h.sys st place) (hr : act.Valid)
    (hg : act.Guarded h.sys) (hs : Logged env h i act h') : ∃ base', Linear env h' base' := by
  obtain ⟨st', place', hinv', -⟩ := hinv.step hr hg hs.erase
  cases hs with
  | mevOpen hpc ho => exact hL.mevOpen hinv hinv'.rep hinv'.listed hpc hg ho
  | begin hpc => exact ⟨base, hL.begin hpc⟩
  | down hpc hd => exact ⟨base, hL.down hinv hpc hd⟩
  | interrupted hpc hd => exact ⟨base, hL.interrupted hpc hd⟩
  | locate hpc hl => exact ⟨base, hL.locate hinv hpc hl⟩
  | locateOut copy hpc hl => exact ⟨base, hL.locateOut copy hinv hpc hl⟩
  | copy hpc hc => exact ⟨base, hL.copy hinv hpc hc⟩
  | update hpc => exact ⟨base, hL.update hinv hpc⟩
  | up hpc hresult => exact ⟨_, hL.up hinv hpc hresult⟩

theorem Linear.start (env : Env) : Linear env Hist.start trimmed where
  run := rfl
  rep := ⟨_, _, rep_trimmed, Nat.zero_le _, fun _ => rfl⟩
  data := id
  free := fun _ => rfl
  resumes := fun _ => trivial
  serial := fun _ => .nil

theorem Linear.reached (hr : h.Reached env) :
    ∃ base, Linear env h base ∧ ∃ st place, Inv h.sys st place := by
  refine Lib.Reachable.invariant (I := fun (h : Hist) =>
    ∃ base, Linear env h base ∧ ∃ st place, Inv h.sys st place)
    ⟨_, .start env, _, _, Inv.start⟩ ?_ hr
  rintro h ⟨i, act⟩ h' ⟨base, hL, st, place, hinv⟩ ⟨hvalid, hguard⟩ hs
  obtain ⟨base', hL'⟩ := hL.step hinv hvalid hguard hs
  obtain ⟨st', place', hinv', -⟩ := hinv.step hvalid hguard hs.erase
  exact ⟨base', hL', st', place', hinv'⟩

end Linear

section Begun

variable {env : Env}

/-- A call is returned from after it was begun. -/
theorem Serial.begun_mem {i : Nat} {es : List Seen} {o : Option Op} (h : Serial i es o) :
    (∀ op, o = some op → .begun i op ∈ es) ∧
      ∀ op copy reply, .returned i op copy reply ∈ es → .begun i op ∈ es := by
  induction h with
  | nil => exact ⟨fun op ho => (by cases ho), fun op copy reply h => absurd h List.not_mem_nil⟩
  | other hne h ih =>
    refine ⟨fun op ho => List.mem_append_left _ (ih.1 op ho), ?_⟩
    intro op copy reply hmem
    rcases List.mem_append.mp hmem with hmem | hmem
    · exact List.mem_append_left _ (ih.2 op copy reply hmem)
    · rcases List.mem_singleton.mp hmem with rfl
      exact absurd rfl hne
  | opened h ih =>
    refine ⟨fun op ho => (by cases ho), ?_⟩
    intro op copy reply hmem
    rcases List.mem_append.mp hmem with hmem | hmem
    · exact List.mem_append_left _ (ih.2 op copy reply hmem)
    · simp at hmem
  | @begun es op h ih =>
    refine ⟨?_, ?_⟩
    · intro op' ho
      cases ho
      exact List.mem_append_right _ List.mem_cons_self
    · intro op' copy reply hmem
      rcases List.mem_append.mp hmem with hmem | hmem
      · exact List.mem_append_left _ (ih.2 op' copy reply hmem)
      · simp at hmem
  | interrupted h ih =>
    refine ⟨fun op ho => (by cases ho), ?_⟩
    intro op copy reply hmem
    rcases List.mem_append.mp hmem with hmem | hmem
    · exact List.mem_append_left _ (ih.2 op copy reply hmem)
    · simp at hmem
  | @returned es op copy reply h ih =>
    refine ⟨fun op' ho => (by cases ho), ?_⟩
    intro op' copy' reply' hmem
    rcases List.mem_append.mp hmem with hmem | hmem
    · exact List.mem_append_left _ (ih.2 op' copy' reply' hmem)
    · rcases List.mem_singleton.mp hmem with ⟨⟩
      exact List.mem_append_left _ (ih.1 op rfl)

/-- What was begun had a position that the kernel can pass. -/
theorem Hist.Reached.valid {h : Hist} (hr : h.Reached env) :
    ∀ i op, .begun i op ∈ h.events → op.Valid := by
  refine Lib.Reachable.invariant
    (I := fun (h : Hist) => ∀ i op, .begun i op ∈ h.events → op.Valid)
    (fun i op hmem => absurd hmem List.not_mem_nil) ?_ hr
  rintro h ⟨i, act⟩ h' ih ⟨hvalid, -⟩ hs j op hmem
  cases hs with
  | begin hpc =>
    rcases List.mem_append.mp hmem with hmem | hmem
    · exact ih j op hmem
    · rcases List.mem_singleton.mp hmem with ⟨⟩
      exact hvalid
  | mevOpen hpc ho => exact ih j op (by simpa [Hist.log] using hmem)
  | interrupted hpc hd => exact ih j op (by simpa [Hist.log] using hmem)
  | up hpc hr => exact ih j op (by simpa [Hist.log] using hmem)
  | _ => exact ih j op hmem

/-- A call that a client can make of an open device. -/
def Call.OfClient (c : Call) : Prop :=
  (∃ fFlags, c = .mevOpen fFlags) ∨
    ∃ (op : Op) (copy : UserCopy), c = op.toCall copy ∧ op.Valid

theorem Hist.Reached.ofClient {h : Hist} (hr : h.Reached env) : ∀ e ∈ h.taken, e.1.OfClient := by
  intro e he
  obtain ⟨x, hx, hxe⟩ := List.mem_filterMap.mp he
  obtain ⟨base, hL, -⟩ := Linear.reached hr
  cases x with
  | opened i fFlags =>
    cases hxe
    exact Or.inl ⟨fFlags, rfl⟩
  | begun i op => cases hxe
  | interrupted i => cases hxe
  | returned i op copy reply =>
    cases hxe
    exact Or.inr ⟨op, copy, rfl, hr.valid i op ((hL.serial i).begun_mem.2 op copy reply hx)⟩

end Begun

/-! ## Every run of whole calls is a history -/

section Alone

variable {env : Env} {h : Hist} {i : Nat}

/-- Nobody is in a call. -/
def Hist.Quiet (h : Hist) : Prop := ∀ i, h.sys.pc i = .idle

theorem Hist.Quiet.not_between (hq : h.Quiet) (i : Nat) : ¬ (h.sys.pc i).Between := by
  rw [hq i]
  exact not_false

/-- Client `i` is where it was, and the others have not moved. -/
theorem Hist.Quiet.of_set (hq : h.Quiet) {s : Sys} (hs : ∀ j ≠ i, s.pc j = h.sys.pc j)
    (m : Mem) (j : Nat) : (s.set i .idle m).pc j = .idle :=
  s.forall_set (Q := fun pc => pc = .idle) rfl (fun j hji => (hs j hji).trans (hq j)) m j

/-- One more guarded step. -/
theorem Hist.Reached.go (hr : h.Reached env) (act : Act) {h' : Hist}
    (hact : act.Valid ∧ act.Guarded h.sys) (hs : Logged env h i act h') : h'.Reached env :=
  .step (i := (i, act)) hr hact hs

/-- With nobody else there, client `i` can make the call `op` as a whole. -/
theorem Hist.Reached.call (hr : h.Reached env) (hq : h.Quiet) {op : Op} (hop : op.Valid)
    (copy : UserCopy) :
    ∃ (h' : Hist) (r : Reply), h'.Reached env ∧ h'.Quiet ∧
      h'.events = h.events ++ [.begun i op] ++ [.returned i op copy r] ∧
      op.call env copy h.sys.mem = .ok (h'.sys.mem, r) := by
  obtain ⟨base, -, st, place, hinv⟩ := Linear.reached hr
  have hsem : h.sys.mem.container.sem = some 1 := by
    rcases hinv.sem with ⟨hsem, -⟩ | ⟨-, j, hj, -⟩
    · exact hsem
    · exact absurd hj (hq.not_between j)
  have hd := downInterruptible_of_idle hsem
  generalize hm₁ : ({ h.sys.mem with
    container := { h.sys.mem.container with sem := some 0 } } : Mem) = m₁ at hd
  have hr₁ := hr.go (.begin op) ⟨hop, trivial⟩ (.begin (hq i))
  have hr₂ := hr₁.go .down ⟨trivial, trivial⟩
    (.down (Sys.set_pc_self ..) (show Mem.downInterruptible _ = .ok (m₁, true) from hd))
  obtain ⟨-, -, st₂, place₂, hinv₂⟩ := Linear.reached hr₂
  obtain ⟨m₂, st₃, place₃, located, hl, -⟩ := Op.locate_spec env hinv₂.rep hinv₂.listed hop
  rw [← hinv.rep.quantum, ← hinv.rep.qset] at hl
  cases located with
  | out retval =>
    have hr₃ := hr₂.go .locate ⟨trivial, trivial⟩
      (.locateOut copy (Sys.set_pc_self ..) hl)
    have hr₄ := hr₃.go .up ⟨trivial, trivial⟩
      (.up (Sys.set_pc_self ..) (Function.update_self ..))
    refine ⟨_, _, hr₄, hq.of_set ?_ _, rfl, Op.call_out copy hd hl⟩
    intro j hji
    simp [Hist.move, Hist.log, Sys.set, hji]
  | copy dptr sPos qPos n =>
    have hr₃ := hr₂.go .locate ⟨trivial, trivial⟩ (.locate (Sys.set_pc_self ..) hl)
    obtain ⟨-, -, st₄, place₄, hinv₄⟩ := Linear.reached hr₃
    obtain ⟨-, count, hat⟩ := hinv₄.located (i := i) (Sys.set_pc_self ..)
    obtain ⟨m₃, st₅, hc, -⟩ := Op.copy_spec hinv₄.rep hat copy
    obtain ⟨reply, hc⟩ := Op.copyReply_of_copy hc
    have hcall := Op.call_copy hd hl hc
    have hr₅ := hr₃.go (.copy copy) ⟨trivial, trivial⟩ (.copy (Sys.set_pc_self ..) hc)
    by_cases hleft : min copy.uncopied n = 0
    · rw [if_pos hleft] at hcall hr₅
      have hr₆ := hr₅.go .update ⟨trivial, trivial⟩ (.update (Sys.set_pc_self ..))
      have hr₇ := hr₆.go .up ⟨trivial, trivial⟩ (.up
        (r := ⟨op, copy, reply⟩) (Sys.set_pc_self ..) (by simp [Hist.move]))
      refine ⟨_, _, hr₇, hq.of_set ?_ _, rfl, hcall⟩
      intro j hji
      simp [Hist.move, Hist.log, Sys.set, hji]
    · rw [if_neg hleft] at hcall hr₅
      have hr₆ := hr₅.go .up ⟨trivial, trivial⟩
        (.up (Sys.set_pc_self ..) (Function.update_self ..))
      refine ⟨_, _, hr₆, hq.of_set ?_ _, rfl, hcall⟩
      intro j hji
      simp [Hist.move, Hist.log, Sys.set, hji]

/-- With nobody else there, client `i` can open the device. -/
theorem Hist.Reached.mevOpen (hr : h.Reached env) (hq : h.Quiet) (fFlags : UInt32) :
    ∃ h' : Hist, h'.Reached env ∧ h'.Quiet ∧
      h'.events = h.events ++ [.opened i fFlags] ∧
      Mev.mevOpen fFlags h.sys.mem = .ok h'.sys.mem := by
  obtain ⟨base, hL, st, place, hinv⟩ := Linear.reached hr
  have hopen : ∃ m, Mev.mevOpen fFlags h.sys.mem = .ok m := by
    by_cases hw : mevIoIsWronly fFlags = true
    · obtain ⟨m, ids, he, -⟩ := mevTrim_spec hinv.rep
      exact ⟨m, (mevOpen_eq_mevTrim hw _).trans he⟩
    · exact ⟨h.sys.mem, if_neg hw⟩
  obtain ⟨m, he⟩ := hopen
  have hsem : h.sys.mem.container.sem = some 1 := by
    rcases hinv.sem with ⟨hsem, -⟩ | ⟨-, j, hj, -⟩
    · exact hsem
    · exact absurd hj (hq.not_between j)
  have hr' := hr.go (.mevOpen fFlags) ⟨trivial, fun _ => Or.inl hsem⟩ (.mevOpen (hq i) he)
  exact ⟨_, hr', hq.of_set (fun _ _ => rfl) _, rfl, he⟩

end Alone

end LkmSandbox.Mev
