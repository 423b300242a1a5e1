import LkmSandbox.Mev.Reach
import Mathlib.Logic.Relation

/-!
# Clients that interleave

Any number of clients open, read and write at once. A read or write is cut at its kernel calls,
and between two of them any other client may take a step. `down_interruptible` keeps reads and
writes apart; the `mev_trim` of a write-only open does not ask for the semaphore.

* `open_frees_located_slot` — such an open takes the slot from under a writer
* `interleaving_iff` — as long as it comes when the semaphore is free, or finds nothing to free, and
  no write beyond the reach of the list gets to store its size, all is well; and any other step
  disturbs a client or leaves a size with no list behind it
-/

namespace LkmSandbox.Mev

open Lib

/-! ## The step relation -/

/-- What a client has called. -/
inductive Op where
  | mevRead (fPos count : Nat)
  | mevWrite (fPos count : Nat) (buf : Nat → UInt8)

def Op.fPos : Op → Nat
  | .mevRead fPos _ => fPos
  | .mevWrite fPos _ _ => fPos

/-- Where a client stands. -/
inductive Pc where
  | idle
  /-- it has taken its copies of `quantum` and `qset` -/
  | begun (op : Op) (quantum qset : Int)
  /-- it has got the semaphore -/
  | down (op : Op) (quantum qset : Int)
  /-- it has found its slot -/
  | located (op : Op) (dptr : Addr) (sPos qPos : Int) (count : Nat)
  /-- its user copy has succeeded -/
  | copied (op : Op) (count : Nat)
  /-- it is at `out:` -/
  | out

/-- It is between its `down` and its `up`. -/
def Pc.Between : Pc → Prop
  | .idle => False
  | .begun .. => False
  | _ => True

structure Sys where
  mem : Mem
  pc : Nat → Pc

/-- Client `i` arrives at `pc`, with the memory `m`. -/
def Sys.set (s : Sys) (i : Nat) (pc : Pc) (m : Mem) : Sys :=
  { mem := m, pc := Function.update s.pc i pc }

/-- What a client does next. -/
inductive Act where
  | mevOpen (fFlags : UInt32)
  | begin (op : Op)
  | down
  | locate
  | copy (copy : UserCopy)
  | update
  | up

/-- From `down` to the user copy. -/
def Op.locate (env : Env) (quantum qset : Int) (m : Mem) : Op → Except Fault (Mem × Located)
  | .mevRead fPos count => readLocate env quantum qset fPos count m
  | .mevWrite fPos count _ => writeLocate env quantum qset fPos count m

/-- The user copy, and how many bytes it left. -/
def Op.copy (dptr : Addr) (sPos qPos : Int) (count : Nat) (copy : UserCopy) (m : Mem) :
    Op → Except Fault (Mem × Nat)
  | .mevRead _ _ => do
    let (_, left) ← readCopy dptr sPos qPos count copy.uncopied m
    .ok (m, left)
  | .mevWrite _ _ buf => writeCopy dptr sPos qPos count buf copy m

/-- What follows a copy that succeeded. -/
def Op.update (count : Nat) (m : Mem) : Op → Mem
  | .mevRead _ _ => m
  | .mevWrite fPos _ _ => writeUpdate (fPos + count) m

/-- One step of client `i`. -/
inductive Step (env : Env) (s : Sys) (i : Nat) : Act → Sys → Prop where
  | mevOpen {fFlags : UInt32} {m : Mem} (hpc : s.pc i = .idle)
      (h : mevOpen fFlags s.mem = .ok m) : Step env s i (.mevOpen fFlags) (s.set i .idle m)
  | begin {op : Op} (hpc : s.pc i = .idle) :
      Step env s i (.begin op)
        (s.set i (.begun op s.mem.container.quantum s.mem.container.qset) s.mem)
  | down {op : Op} {quantum qset : Int} {m : Mem} {taken : Bool}
      (hpc : s.pc i = .begun op quantum qset) (h : s.mem.downInterruptible = .ok (m, taken)) :
      Step env s i .down (s.set i (if taken then .down op quantum qset else .idle) m)
  | locate {op : Op} {quantum qset : Int} {m : Mem} {dptr : Addr} {sPos qPos : Int} {count : Nat}
      (hpc : s.pc i = .down op quantum qset)
      (h : op.locate env quantum qset s.mem = .ok (m, .copy dptr sPos qPos count)) :
      Step env s i .locate (s.set i (.located op dptr sPos qPos count) m)
  | locateOut {op : Op} {quantum qset : Int} {m : Mem} {retval : Int}
      (hpc : s.pc i = .down op quantum qset)
      (h : op.locate env quantum qset s.mem = .ok (m, .out retval)) :
      Step env s i .locate (s.set i .out m)
  | copy {op : Op} {dptr : Addr} {sPos qPos : Int} {count left : Nat} {copy : UserCopy} {m : Mem}
      (hpc : s.pc i = .located op dptr sPos qPos count)
      (h : op.copy dptr sPos qPos count copy s.mem = .ok (m, left)) :
      Step env s i (.copy copy) (s.set i (if left = 0 then .copied op count else .out) m)
  | update {op : Op} {count : Nat} (hpc : s.pc i = .copied op count) :
      Step env s i .update (s.set i .out (op.update count s.mem))
  | up (hpc : s.pc i = .out) : Step env s i .up (s.set i .idle s.mem.up)

/-- All clients idle, the container trimmed. -/
def Sys.start : Sys := { mem := trimmed, pc := fun _ => .idle }

/-! ## One client alone -/

/-- The call as a whole, as `LkmSandbox/Mev/Driver.lean` has it. -/
def Op.call (env : Env) (copy : UserCopy) (m : Mem) : Op → Except Fault (Mem × Reply)
  | .mevRead fPos count => Mev.mevRead env fPos count copy.uncopied m
  | .mevWrite fPos count buf => Mev.mevWrite env fPos count buf copy m

section Alone

variable {env : Env} {s : Sys} {i : Nat} {op : Op} {m m₁ m₂ m₃ : Mem}

/-- Client `i` takes any number of steps. -/
def Steps (env : Env) (i : Nat) : Sys → Sys → Prop :=
  Relation.ReflTransGen fun s s' => ∃ act, Step env s i act s'

theorem Sys.set_pc_self (s : Sys) (i : Nat) (pc : Pc) (m : Mem) : (s.set i pc m).pc i = pc :=
  Function.update_self ..

theorem Sys.set_set (s : Sys) (i : Nat) (pc pc' : Pc) (m m' : Mem) :
    (s.set i pc m).set i pc' m' = s.set i pc' m' := by
  simp [Sys.set]

/-- A client that is at `pc` takes a step. -/
theorem Steps.tail {pc : Pc} {act : Act} {s' : Sys} (h : Steps env i s (s.set i pc m))
    (hstep : Step env (s.set i pc m) i act s') : Steps env i s s' :=
  Relation.ReflTransGen.tail h ⟨act, hstep⟩

theorem Steps.down (op : Op) (hpc : s.pc i = .idle) {taken : Bool}
    (hd : s.mem.downInterruptible = .ok (m₁, taken)) :
    Steps env i s (s.set i
      (if taken then .down op s.mem.container.quantum s.mem.container.qset else .idle) m₁) := by
  have hbegin : Steps env i s
      (s.set i (.begun op s.mem.container.quantum s.mem.container.qset) s.mem) :=
    Relation.ReflTransGen.single ⟨_, .begin hpc⟩
  have hs := hbegin.tail (Step.down (s.set_pc_self i _ _) hd)
  rwa [Sys.set_set] at hs

theorem Steps.out (op : Op) (hpc : s.pc i = .idle) (hd : s.mem.downInterruptible = .ok (m₁, true))
    {retval : Int} (hl : op.locate env s.mem.container.quantum s.mem.container.qset m₁
      = .ok (m₂, .out retval)) : Steps env i s (s.set i .idle m₂.up) := by
  have h₁ := (Steps.down op hpc hd).tail (Step.locateOut (s.set_pc_self i _ _) hl)
  rw [Sys.set_set] at h₁
  have h₂ := h₁.tail (Step.up (s.set_pc_self i _ _))
  rwa [Sys.set_set] at h₂

theorem Steps.copy (op : Op) (hpc : s.pc i = .idle) (hd : s.mem.downInterruptible = .ok (m₁, true))
    {dptr : Addr} {sPos qPos : Int} {n left : Nat} {copy : UserCopy}
    (hl : op.locate env s.mem.container.quantum s.mem.container.qset m₁
      = .ok (m₂, .copy dptr sPos qPos n))
    (hc : op.copy dptr sPos qPos n copy m₂ = .ok (m₃, left)) :
    Steps env i s (s.set i .idle (if left = 0 then op.update n m₃ else m₃).up) := by
  have h₁ := (Steps.down op hpc hd).tail (Step.locate (s.set_pc_self i _ _) hl)
  rw [Sys.set_set] at h₁
  have h₂ := h₁.tail (Step.copy (s.set_pc_self i _ _) hc)
  rw [Sys.set_set] at h₂
  split_ifs at h₂ ⊢
  · have h₃ := h₂.tail (Step.update (s.set_pc_self i _ _))
    rw [Sys.set_set] at h₃
    have h₄ := h₃.tail (Step.up (s.set_pc_self i _ _))
    rwa [Sys.set_set] at h₄
  · have h₃ := h₂.tail (Step.up (s.set_pc_self i _ _))
    rwa [Sys.set_set] at h₃

/-- **With no other client in between, the steps are the call.** -/
theorem Op.call_steps (hpc : s.pc i = .idle) {copy : UserCopy} {r : Reply}
    (h : op.call env copy s.mem = .ok (m, r)) : Steps env i s (s.set i .idle m) := by
  cases op with
  | mevRead fPos count =>
    obtain ⟨⟨m₁, taken⟩, hd, h⟩ := bind_ok h
    cases taken with
    | false =>
      cases h
      exact Steps.down (.mevRead fPos count) hpc hd
    | true =>
      obtain ⟨⟨m₂, located⟩, hl, h⟩ := bind_ok h
      cases located with
      | out retval =>
        cases h
        exact Steps.out (.mevRead fPos count) hpc hd hl
      | copy dptr sPos qPos n =>
        obtain ⟨⟨delivered, left⟩, hc, h⟩ := bind_ok h
        cases h
        have hcopy : (Op.mevRead fPos count).copy dptr sPos qPos n copy m₂ = .ok (m₂, left) := by
          unfold Op.copy
          rw [hc]
          rfl
        have hs := Steps.copy (.mevRead fPos count) hpc hd hl hcopy
        have hm : (if left = 0 then (Op.mevRead fPos count).update n m₂ else m₂) = m₂ := ite_self _
        rwa [hm] at hs
  | mevWrite fPos count buf =>
    obtain ⟨⟨m₁, taken⟩, hd, h⟩ := bind_ok h
    cases taken with
    | false =>
      cases h
      exact Steps.down (.mevWrite fPos count buf) hpc hd
    | true =>
      obtain ⟨⟨m₂, located⟩, hl, h⟩ := bind_ok h
      cases located with
      | out retval =>
        cases h
        exact Steps.out (.mevWrite fPos count buf) hpc hd hl
      | copy dptr sPos qPos n =>
        obtain ⟨⟨m₃, left⟩, hc, h⟩ := bind_ok h
        have hs := Steps.copy (.mevWrite fPos count buf) hpc hd hl hc
        simp only at h
        split_ifs at h with hleft
        · cases h
          rwa [if_neg hleft] at hs
        · cases h
          rwa [if_pos (not_not.mp hleft)] at hs

end Alone

/-! ## The invariant -/

/-- `*f_pos` came in as a non-negative `loff_t`. -/
def Op.Valid (op : Op) : Prop := op.fPos < 2 ^ 63

/-- What is known of a client from where it stands. -/
def PcInv (st : Store) (place : Place → Option Addr) : Pc → Prop
  | .begun op quantum qset =>
    quantum = Dims.std.quantum ∧ qset = Dims.std.qset ∧ op.Valid
  | .down op quantum qset =>
    quantum = Dims.std.quantum ∧ qset = Dims.std.qset ∧ op.Valid
  | .located op dptr sPos qPos n =>
    op.Valid ∧
      ∃ count, AtPage place op.fPos (Store.chunk op.fPos count) (.copy dptr sPos qPos n)
  | .copied (.mevWrite fPos _ _) n =>
    addrOf fPos / 4000000 < st.len ∧ fPos % 4000 + n ≤ 4000
  | _ => True

/-- The semaphore is 1 and no client is between its `down` and its `up`, or it is 0 and one is. -/
def Exclusive (s : Sys) : Prop :=
  (s.mem.container.sem = some 1 ∧ ∀ i, ¬ (s.pc i).Between) ∨
    (s.mem.container.sem = some 0 ∧ ∃ i, (s.pc i).Between ∧ ∀ j, (s.pc j).Between → j = i)

structure Inv (s : Sys) (st : Store) (place : Place → Option Addr) : Prop where
  rep : Rep st place s.mem
  listed : st.Listed
  sem : Exclusive s
  pc : ∀ i, PcInv st place (s.pc i)

section Inv

variable {env : Env} {s : Sys} {st st' : Store} {place place' : Place → Option Addr} {m : Mem}
  {i j : Nat} {pc : Pc}

/-- Where a client without the semaphore stands does not depend on the memory. -/
theorem PcInv.frame (hb : ¬ pc.Between) (h : PcInv st place pc) : PcInv st' place' pc := by
  cases pc with
  | idle => trivial
  | begun op quantum qset => exact h
  | down op quantum qset => exact absurd trivial hb
  | located op dptr sPos qPos n => exact absurd trivial hb
  | copied op n => exact absurd trivial hb
  | out => exact absurd trivial hb

theorem Sys.set_pc_of_ne (s : Sys) (h : j ≠ i) (pc : Pc) (m : Mem) :
    (s.set i pc m).pc j = s.pc j :=
  Function.update_of_ne h ..

/-- After a move of client `i`, each client is where it was, but for `i`. -/
theorem Sys.forall_set (s : Sys) {Q : Pc → Prop} {pc : Pc} (hself : Q pc)
    (hother : ∀ j ≠ i, Q (s.pc j)) (m : Mem) (j : Nat) : Q ((s.set i pc m).pc j) := by
  by_cases hji : j = i
  · rw [hji, s.set_pc_self]
    exact hself
  · rw [s.set_pc_of_ne hji]
    exact hother j hji

/-- The client with the semaphore is the only one. -/
theorem Exclusive.unique (h : Exclusive s) (hi : (s.pc i).Between) (hj : (s.pc j).Between) :
    j = i := by
  rcases h with ⟨-, hno⟩ | ⟨-, k, -, huniq⟩
  · exact absurd hi (hno i)
  · rw [huniq i hi, huniq j hj]

theorem Exclusive.sem_zero (h : Exclusive s) (hi : (s.pc i).Between) :
    s.mem.container.sem = some 0 := by
  rcases h with ⟨-, hno⟩ | ⟨hsem, -⟩
  · exact absurd hi (hno i)
  · exact hsem

/-- The client with the semaphore moves on and may change the memory. -/
theorem Inv.moveInside (h : Inv s st place) (hi : (s.pc i).Between) (hrep : Rep st' place' m)
    (hlisted : st'.Listed) (hsem : m.container.sem = s.mem.container.sem) (hb : pc.Between)
    (hpc : PcInv st' place' pc) : Inv (s.set i pc m) st' place' where
  rep := hrep
  listed := hlisted
  sem := by
    refine Or.inr ⟨hsem.trans (h.sem.sem_zero hi), i, ?_, ?_⟩
    · rw [s.set_pc_self]
      exact hb
    · intro j hj
      by_contra hne
      rw [s.set_pc_of_ne hne] at hj
      exact hne (h.sem.unique hi hj)
  pc := s.forall_set hpc
    (fun j hji => (h.pc j).frame fun hj => hji (h.sem.unique hi hj)) m

/-- A client without the semaphore moves on and leaves the memory alone. -/
theorem Inv.moveOutside (h : Inv s st place) (hi : ¬ (s.pc i).Between) (hb : ¬ pc.Between)
    (hpc : PcInv st place pc) : Inv (s.set i pc s.mem) st place where
  rep := h.rep
  listed := h.listed
  sem := by
    have hiff : ∀ j, ((s.set i pc s.mem).pc j).Between ↔ (s.pc j).Between := by
      intro j
      by_cases hji : j = i
      · rw [hji, s.set_pc_self]
        exact iff_of_false hb hi
      · rw [s.set_pc_of_ne hji]
    unfold Exclusive
    simp only [hiff]
    exact h.sem
  pc := s.forall_set hpc (fun j _ => h.pc j) s.mem

theorem Inv.down (h : Inv s st place) {op : Op} {quantum qset : Int} {taken : Bool}
    (hi : s.pc i = .begun op quantum qset) (hd : s.mem.downInterruptible = .ok (m, taken)) :
    Inv (s.set i (if taken then .down op quantum qset else .idle) m) st place := by
  have hpc := h.pc i
  rw [hi] at hpc
  have hout : ¬ (s.pc i).Between := by
    rw [hi]
    exact not_false
  rcases h.sem with ⟨hsem, hno⟩ | ⟨hsem, -⟩
  -- free: `i` takes it
  · rw [downInterruptible_of_idle hsem] at hd
    cases hd
    refine ⟨h.rep.setSem _, h.listed, Or.inr ⟨rfl, i, ?_, ?_⟩,
      s.forall_set (show PcInv st place (.down op quantum qset) from hpc) (fun j _ => h.pc j) _⟩
    · rw [s.set_pc_self]
      exact trivial
    · intro j hj
      by_contra hne
      rw [s.set_pc_of_ne hne] at hj
      exact hno j hj
  -- taken: the wait of `i` ends with a signal
  · unfold Mem.downInterruptible at hd
    rw [hsem] at hd
    cases hd
    exact h.moveOutside hout not_false trivial

theorem Inv.up (h : Inv s st place) (hi : s.pc i = .out) :
    Inv (s.set i .idle s.mem.up) st place := by
  have hb : (s.pc i).Between := by
    rw [hi]
    exact trivial
  refine ⟨h.rep.up, h.listed, Or.inl ⟨idle_up (h.sem.sem_zero hb), ?_⟩,
    s.forall_set trivial (fun j _ => h.pc j) _⟩
  exact s.forall_set (Q := fun pc => ¬ pc.Between) (show ¬ Pc.Between .idle from not_false)
    (fun j hji hj => hji (h.sem.unique hb hj)) _

/-! ## Every step -/

/-- The slot at which a located client stands. -/
theorem Inv.located (h : Inv s st place) {op : Op} {dptr : Addr} {sPos qPos : Int} {n : Nat}
    (hi : s.pc i = .located op dptr sPos qPos n) :
    op.Valid ∧
      ∃ count, AtPage place op.fPos (Store.chunk op.fPos count) (.copy dptr sPos qPos n) := by
  have hpc := h.pc i
  rw [hi] at hpc
  exact hpc

theorem Op.locate_spec (env : Env) (h : Rep st place m) (hlisted : st.Listed) {op : Op}
    (hop : op.Valid) :
    ∃ m' st' place' located,
      op.locate env Dims.std.quantum Dims.std.qset m = .ok (m', located) ∧
      Rep st' place' m' ∧ st'.Listed ∧ (st.Sized → st'.Sized) ∧
      m'.container.sem = m.container.sem ∧
      ∀ dptr sPos qPos n, located = .copy dptr sPos qPos n →
        ∃ count, AtPage place' op.fPos (Store.chunk op.fPos count) (.copy dptr sPos qPos n) := by
  cases op with
  | mevRead fPos count =>
    obtain ⟨m', place', located, he, hr, hsem, hl⟩ := readLocate_spec env h hop count
    refine ⟨m', _, place', located, he, hr, hlisted.lookup env fPos, fun hs => hs.lookup env fPos,
      hsem, ?_⟩
    rintro dptr sPos qPos n rfl
    split at hl
    · simp at hl
    · exact ⟨_, hl⟩
  | mevWrite fPos count buf =>
    obtain ⟨m', place', located, he, hr, -, hsem, hl⟩ := writeLocate_spec env h hop count
    refine ⟨m', _, place', located, he, hr, hlisted.allocate env (addrOf_lt fPos),
      fun hs => hs.allocate env (addrOf fPos), hsem, ?_⟩
    rintro dptr sPos qPos n rfl
    split at hl
    · exact ⟨_, hl⟩
    · simp at hl

theorem Op.copy_spec (h : Rep st place m) {op : Op} {dptr : Addr} {sPos qPos : Int} {n : Nat}
    {count : Nat}
    (hat : AtPage place op.fPos (Store.chunk op.fPos count) (.copy dptr sPos qPos n))
    (copy : UserCopy) :
    ∃ m' st', op.copy dptr sPos qPos n copy m = .ok (m', min copy.uncopied n) ∧
      Rep st' place m' ∧ st'.len = st.len ∧ st'.size = st.size ∧
      m'.container.sem = m.container.sem := by
  obtain ⟨a, q, he, ha, hq⟩ := hat
  cases he
  have hn : op.fPos % 4000 + Store.chunk op.fPos count ≤ 4000 := by
    unfold Store.chunk
    omega
  cases op with
  | mevRead fPos c =>
    obtain ⟨b, hb, -⟩ := h.page hq
    have hc := readCopy_spec h ha hq hb hn copy.uncopied
    refine ⟨m, st, ?_, h, rfl, rfl, rfl⟩
    unfold Op.copy
    rw [hc]
    rfl
  | mevWrite fPos c buf =>
    obtain ⟨m', hc, hr, hsem⟩ := writeCopy_spec h ha hq hn buf copy
    exact ⟨m', _, hc, hr, rfl, rfl, hsem⟩

/-- A trim that finds no list changes nothing. -/
theorem mevTrim_of_none (h : Rep st place m) (hlisted : st.Listed)
    (hd : m.container.data = none) : mevTrim m = .ok m := by
  have hlen : ¬ 0 < st.len := by
    rw [← h.node_isSome, ← h.head, hd]
    simp
  have hsize : m.container.size = 0 := by
    rw [h.size]
    exact hlisted.empty (by omega)
  have hreset : m.container.reset = m.container := by
    unfold MevContainer.reset
    rw [show lkmMevQuantumSize = m.container.quantum from h.quantum.symm,
      show lkmMevQsetSize = m.container.qset from h.qset.symm, ← hsize, ← hd]
  unfold mevTrim
  rw [hd, trimNodes, ok_bind, hreset]

/-- `mev_open` as the guard lets it run. -/
theorem Inv.mevOpen (h : Inv s st place) {fFlags : UInt32} (hi : s.pc i = .idle)
    (hg : mevIoIsWronly fFlags = true →
      s.mem.container.sem = some 1 ∨ s.mem.container.data = none)
    (ho : mevOpen fFlags s.mem = .ok m) :
    (m = s.mem ∨ ∀ j, ¬ (s.pc j).Between) ∧
      ∃ st' place', Inv (s.set i .idle m) st' place' ∧ (st.Sized → st'.Sized) := by
  have hout : ¬ (s.pc i).Between := by
    rw [hi]
    exact not_false
  have hkeep : m = s.mem → (m = s.mem ∨ ∀ j, ¬ (s.pc j).Between) ∧
      ∃ st' place', Inv (s.set i .idle m) st' place' ∧ (st.Sized → st'.Sized) := by
    rintro rfl
    exact ⟨Or.inl rfl, st, place, h.moveOutside hout not_false trivial, id⟩
  unfold LkmSandbox.Mev.mevOpen at ho
  split at ho
  · next hw =>
    -- the guard: nobody is using the list, or there is none
    rcases hg hw with hsem | hdata
    · have hno : ∀ j, ¬ (s.pc j).Between := by
        intro j hj
        have := h.sem.sem_zero hj
        rw [hsem] at this
        simp at this
      obtain ⟨m', ids, he, hr, -, -, hcont⟩ := mevTrim_spec h.rep
      rw [he] at ho
      cases ho
      refine ⟨Or.inr hno, _, _, ⟨hr, .trim st, Or.inl ⟨idle_reset hsem hcont, ?_⟩,
        s.forall_set trivial (fun j _ => (h.pc j).frame (hno j)) _⟩, fun _ => Nat.zero_le _⟩
      exact s.forall_set (Q := fun pc => ¬ pc.Between) (show ¬ Pc.Between .idle from not_false)
        (fun j _ => hno j) _
    · rw [mevTrim_of_none h.rep h.listed hdata] at ho
      exact hkeep (Except.ok.inj ho).symm
  · exact hkeep (Except.ok.inj ho).symm

end Inv

/-- What is called has a position that the kernel can pass. -/
def Act.Valid : Act → Prop
  | .begin op => op.Valid
  | _ => True

/-- A truncating open comes when the semaphore is free, or finds nothing to free. -/
def Act.Guarded (s : Sys) : Act → Prop
  | .mevOpen fFlags =>
    mevIoIsWronly fFlags = true → s.mem.container.sem = some 1 ∨ s.mem.container.data = none
  | _ => True

/--
A write of client `i` that gets to store its size is at a position the list can reach. Right after
the last of them a write of no bytes may stand, if the list is as long as it can be.
-/
def Act.Covered (s : Sys) (i : Nat) : Act → Prop
  | .update => ∀ fPos count buf n, s.pc i = .copied (.mevWrite fPos count buf) n →
      fPos < listSpan ∨ (fPos = listSpan ∧ n = 0 ∧ ListLength s.mem (2 ^ 32))
  | _ => True

/-- The step of client `i` leaves the container alone when another client is using it. -/
def Undisturbed (s : Sys) (i : Nat) (s' : Sys) : Prop :=
  ∀ j ≠ i, (s.pc j).Between → s'.mem.heap = s.mem.heap ∧
    s'.mem.container.data = s.mem.container.data ∧ s'.mem.container.size = s.mem.container.size

section Step

variable {env : Env} {s s' : Sys} {st : Store} {place : Place → Option Addr} {i : Nat} {act : Act}

/-- The walk of the client with the semaphore, wherever it takes the client. -/
theorem Inv.locate (h : Inv s st place) {op : Op} {quantum qset : Int} {m : Mem} {located : Located}
    (pc : Pc) (hi : s.pc i = .down op quantum qset)
    (hl : op.locate env quantum qset s.mem = .ok (m, located)) (hb : pc.Between)
    (hpc : ∀ st' place', op.Valid →
      (∀ dptr sPos qPos n, located = .copy dptr sPos qPos n →
        ∃ count, AtPage place' op.fPos (Store.chunk op.fPos count) (.copy dptr sPos qPos n)) →
      PcInv st' place' pc) :
    ∃ st' place', Inv (s.set i pc m) st' place' ∧ (st.Sized → st'.Sized) := by
  have hpci := h.pc i
  rw [hi] at hpci
  obtain ⟨rfl, rfl, hop⟩ := hpci
  obtain ⟨m', st', place', located', he, hrep, hlisted, hsized, hsem, hat⟩ :=
    Op.locate_spec env h.rep h.listed hop
  rw [hl] at he
  cases he
  have hbetween : (s.pc i).Between := by
    rw [hi]
    exact trivial
  exact ⟨st', place', h.moveInside hbetween hrep hlisted hsem hb (hpc st' place' hop hat), hsized⟩

/-- The user copy of the client with the semaphore. -/
theorem Inv.copy (h : Inv s st place) {op : Op} {dptr : Addr} {sPos qPos : Int} {n left : Nat}
    {copy : UserCopy} {m : Mem} (hi : s.pc i = .located op dptr sPos qPos n)
    (hc : op.copy dptr sPos qPos n copy s.mem = .ok (m, left)) :
    ∃ st', Inv (s.set i (if left = 0 then .copied op n else .out) m) st' place ∧
      (st.Sized → st'.Sized) := by
  obtain ⟨-, count, hat⟩ := h.located hi
  obtain ⟨m', st', he, hrep, hlen, hsize, hsem⟩ := Op.copy_spec h.rep hat copy
  rw [hc] at he
  cases he
  have hlisted : st'.Listed :=
    ⟨hlen ▸ h.listed.len_le, fun h0 => hsize ▸ h.listed.empty (hlen ▸ h0)⟩
  have hsized : st.Sized → st'.Sized := by
    intro hs
    unfold Store.Sized
    rw [hlen, hsize]
    exact hs
  refine ⟨st', h.moveInside (by rw [hi]; exact trivial) hrep hlisted hsem ?_ ?_, hsized⟩
  · split <;> exact trivial
  · split
    · -- the node of the position is there, so its end is covered
      cases op with
      | mevRead fPos c => trivial
      | mevWrite fPos c buf =>
        obtain ⟨a, q, heq, ha, -⟩ := hat
        cases heq
        refine ⟨hlen ▸ h.rep.node_lt ha, ?_⟩
        show fPos % 4000 + Store.chunk fPos count ≤ 4000
        unfold Store.chunk
        omega
    · trivial

/-- The size that a write at `fPos` stores lies within the list exactly then. -/
theorem covered_iff (hlisted : st.Listed) {fPos n : Nat} (hnode : addrOf fPos / 4000000 < st.len)
    (hn : fPos % 4000 + n ≤ 4000) :
    fPos + n ≤ 4000000 * st.len ↔
      fPos < listSpan ∨ (fPos = listSpan ∧ n = 0 ∧ st.len = 2 ^ 32) := by
  have hlen := hlisted.len_le
  constructor
  · intro hle
    unfold listSpan
    omega
  · rintro (hlt | ⟨rfl, rfl, hfull⟩)
    · rw [addrOf_of_lt hlt] at hnode
      omega
    · rw [hfull]
      decide

theorem ListLength.unique {m : Mem} {a b : Nat} (ha : ListLength m a) (hb : ListLength m b) :
    a = b := by
  rcases Nat.lt_trichotomy a b with hlt | heq | hlt
  · have := hb.1 a hlt
    rw [ha.2] at this
    simp at this
  · exact heq
  · have := ha.1 b hlt
    rw [hb.2] at this
    simp at this

/-- The update of a write: the size stays within the list iff the write is covered. -/
theorem Inv.update (h : Inv s st place) (hsized : st.Sized) {fPos count n : Nat}
    {buf : Nat → UInt8} (hi : s.pc i = .copied (.mevWrite fPos count buf) n) :
    (st.extend (fPos + n)).Sized ↔ Act.Covered s i .update := by
  have hpci := h.pc i
  rw [hi] at hpci
  have hiff := covered_iff h.listed hpci.1 hpci.2
  have hfull : ListLength s.mem (2 ^ 32) ↔ st.len = 2 ^ 32 := by
    refine ⟨fun hl => h.rep.listLength.unique hl, ?_⟩
    intro hl
    rw [← hl]
    exact h.rep.listLength
  have hmax : (st.extend (fPos + n)).Sized ↔ fPos + n ≤ 4000000 * st.len :=
    ⟨fun hs => Nat.le_trans (Nat.le_max_right _ _) hs, fun hle => Nat.max_le.mpr ⟨hsized, hle⟩⟩
  rw [hmax, hiff, ← hfull]
  constructor
  · intro hc fPos' count' buf' n' hi'
    rw [hi] at hi'
    cases hi'
    exact hc
  · intro hc
    exact hc fPos count buf n hi

/-- **A guarded step keeps the invariant**, and a covered one keeps the size within the list. -/
theorem Inv.step (h : Inv s st place) (hr : act.Valid) (hg : act.Guarded s)
    (hs : Step env s i act s') :
    ∃ st' place', Inv s' st' place' ∧ (st.Sized → act.Covered s i → st'.Sized) := by
  cases hs with
  | mevOpen hi ho =>
    obtain ⟨-, st', place', hinv, hsized⟩ := h.mevOpen hi hg ho
    exact ⟨st', place', hinv, fun hs _ => hsized hs⟩
  | @begin op hi =>
    have hout : ¬ (s.pc i).Between := by
      rw [hi]
      exact not_false
    exact ⟨st, place, h.moveOutside hout not_false ⟨h.rep.quantum, h.rep.qset, hr⟩,
      fun hs _ => hs⟩
  | down hi hd => exact ⟨st, place, h.down hi hd, fun hs _ => hs⟩
  | @locate op quantum qset m dptr sPos qPos n hi hl =>
    obtain ⟨st', place', hinv, hsized⟩ := h.locate (.located op dptr sPos qPos n) hi hl trivial
      fun _ _ hop hat => ⟨hop, hat _ _ _ _ rfl⟩
    exact ⟨st', place', hinv, fun hs _ => hsized hs⟩
  | locateOut hi hl =>
    obtain ⟨st', place', hinv, hsized⟩ := h.locate .out hi hl trivial fun _ _ _ _ => trivial
    exact ⟨st', place', hinv, fun hs _ => hsized hs⟩
  | copy hi hc =>
    obtain ⟨st', hinv, hsized⟩ := h.copy hi hc
    exact ⟨st', place, hinv, fun hs _ => hsized hs⟩
  | @update op n hi =>
    have hb : (s.pc i).Between := by
      rw [hi]
      exact trivial
    cases op with
    | mevRead fPos c =>
      exact ⟨st, place, h.moveInside hb h.rep h.listed rfl trivial trivial, fun hs _ => hs⟩
    | mevWrite fPos c buf =>
      obtain ⟨hrep, hsem⟩ := writeUpdate_spec h.rep (fPos + n)
      have hpci := h.pc i
      rw [hi] at hpci
      -- there is a node, so an empty list need not be looked at
      have hlisted : (st.extend (fPos + n)).Listed :=
        ⟨h.listed.len_le, fun h0 => absurd (h0 ▸ hpci.1) (Nat.not_lt_zero _)⟩
      exact ⟨_, place, h.moveInside hb hrep hlisted hsem trivial trivial,
        fun hs hc => (h.update hs hi).mpr hc⟩
  | up hi => exact ⟨st, place, h.up hi, fun hs _ => hs⟩

/-- A step of a client that has the semaphore disturbs nobody. -/
theorem Inv.undisturbed_of_between (h : Inv s st place) (hi : (s.pc i).Between) :
    Undisturbed s i s' :=
  fun _ hne hj => absurd (h.sem.unique hi hj) hne

theorem Inv.undisturbed (h : Inv s st place) (hg : act.Guarded s) (hs : Step env s i act s') :
    Undisturbed s i s' := by
  cases hs with
  | mevOpen hi ho =>
    rcases (h.mevOpen hi hg ho).1 with rfl | hno
    · exact fun _ _ _ => ⟨rfl, rfl, rfl⟩
    · exact fun j _ hj => absurd hj (hno j)
  | begin hi => exact fun _ _ _ => ⟨rfl, rfl, rfl⟩
  | down hi hd =>
    -- `j` has the semaphore, so `i` does not get it
    intro j _ hj
    unfold Mem.downInterruptible at hd
    rw [h.sem.sem_zero hj] at hd
    cases hd
    exact ⟨rfl, rfl, rfl⟩
  | locate hi _ => exact h.undisturbed_of_between (by rw [hi]; exact trivial)
  | locateOut hi _ => exact h.undisturbed_of_between (by rw [hi]; exact trivial)
  | copy hi _ => exact h.undisturbed_of_between (by rw [hi]; exact trivial)
  | update hi => exact h.undisturbed_of_between (by rw [hi]; exact trivial)
  | up hi => exact h.undisturbed_of_between (by rw [hi]; exact trivial)

/-- An open that is not guarded frees the list of a client that is using it. -/
theorem Inv.guarded (h : Inv s st place) (hs : Step env s i act s') (hu : Undisturbed s i s') :
    act.Guarded s := by
  cases hs with
  | @mevOpen fFlags m hi ho =>
    intro hw
    rcases h.sem with ⟨hsem, -⟩ | ⟨-, j, hj, -⟩
    · exact Or.inl hsem
    · refine Or.inr ?_
      have hne : j ≠ i := by
        rintro rfl
        rw [hi] at hj
        exact hj
      have hheap : m.heap = s.mem.heap := (hu j hne hj).1
      unfold LkmSandbox.Mev.mevOpen at ho
      rw [if_pos hw] at ho
      obtain ⟨m', ids, he, -, hblocks, -, -⟩ := mevTrim_spec h.rep
      rw [he] at ho
      cases ho
      cases hd : s.mem.container.data with
      | none => rfl
      | some a =>
        -- the trim has freed the head, so the heap is not as it was
        rw [h.rep.head] at hd
        have hlive := h.rep.blocks_node hd
        rw [← hheap, hblocks] at hlive
        simp at hlive
  | _ => trivial

end Step

/-! ## Every interleaving -/

/-- Reached by steps of any clients in any order, all meeting `G`. -/
def Sys.Reached (env : Env) (G : Sys → Nat → Act → Prop) : Sys → Prop :=
  Lib.Reachable Sys.start (fun s (l : Nat × Act) s' => Step env s l.1 l.2 s') fun s l =>
    G s l.1 l.2

/-- The slot at which a client stands is a slot of the container. -/
def PartOf (m : Mem) (dptr : Addr) (sPos qPos : Int) (n : Nat) : Prop :=
  (∃ i, nodeAt m i = some dptr) ∧ RangeInside m dptr sPos qPos n

/-- The container is sound and every located slot is part of it. -/
structure Consistent (s : Sys) : Prop where
  sound : Sound s.mem
  located : ∀ i op dptr sPos qPos n, s.pc i = .located op dptr sPos qPos n →
    PartOf s.mem dptr sPos qPos n

theorem Inv.start : Inv Sys.start Store.empty fun _ => none where
  rep := rep_trimmed
  listed := ⟨Nat.zero_le _, fun _ => rfl⟩
  sem := Or.inl ⟨rfl, fun _ => not_false⟩
  pc := fun _ => trivial

theorem Inv.consistent {s : Sys} {st : Store} {place : Place → Option Addr} (h : Inv s st place)
    (hsized : st.Sized) : Consistent s where
  sound := h.rep.sound hsized
  located := by
    intro i op dptr sPos qPos n hi
    obtain ⟨-, count, hat⟩ := h.located hi
    refine ⟨?_, h.rep.rangeInside hat⟩
    obtain ⟨a, q, heq, ha, -⟩ := hat
    cases heq
    exact ⟨_, (h.rep.nodeAt_eq _).trans ha⟩

/-- Where the container is sound, the size of the store lies within its list. -/
theorem RepOf.sized {m : Mem} {st : Store} {place : Place → Option Addr} (h : Rep st place m)
    (hs : Sound m) : st.Sized := by
  obtain ⟨len, hlen, hle⟩ := hs.list
  rw [hlen.unique h.listLength, h.size, hs.quantum, hs.qset] at hle
  unfold Store.Sized
  omega

/-- A step after which the container is sound is covered. -/
theorem Inv.covered {env : Env} {s s' : Sys} {st : Store} {place : Place → Option Addr} {i : Nat}
    {act : Act} (h : Inv s st place) (hsized : st.Sized) (hs : Step env s i act s')
    (hsound : Sound s'.mem) : act.Covered s i := by
  cases hs with
  | @update op n hi =>
    cases op with
    | mevRead fPos c =>
      intro fPos' count' buf' n' hi'
      rw [hi] at hi'
      cases hi'
    | mevWrite fPos c buf =>
      obtain ⟨hrep, -⟩ := writeUpdate_spec h.rep (fPos + n)
      exact (h.update hsized hi).mp (hrep.sized hsound)
  | _ => trivial

/--
**Every interleaving of guarded and covered steps keeps the container consistent. A further step
leaves it alone while another client is using it, and consistent, iff that step is guarded and
covered.**
-/
theorem interleaving_iff (env : Env) {s : Sys}
    (h : s.Reached env fun s i act => act.Valid ∧ act.Guarded s ∧ act.Covered s i) :
    Consistent s ∧ ∀ i act s', act.Valid → Step env s i act s' →
      ((Undisturbed s i s' ∧ Consistent s') ↔ act.Guarded s ∧ act.Covered s i) := by
  obtain ⟨st, place, hinv, hsized⟩ := Lib.Reachable.invariant
    (I := fun s => ∃ st place, Inv s st place ∧ st.Sized) ⟨_, _, Inv.start, Nat.zero_le _⟩
    (by
      rintro s ⟨i, act⟩ s' ⟨st, place, hinv, hsized⟩ ⟨hr, hg, hc⟩ hs
      obtain ⟨st', place', hinv', hsized'⟩ := hinv.step hr hg hs
      exact ⟨st', place', hinv', hsized' hsized hc⟩) h
  refine ⟨hinv.consistent hsized, fun i act s' hr hs => ⟨?_, ?_⟩⟩
  · rintro ⟨hu, hcons⟩
    exact ⟨hinv.guarded hs hu, hinv.covered hsized hs hcons.sound⟩
  · rintro ⟨hg, hc⟩
    obtain ⟨st', place', hinv', hsized'⟩ := hinv.step hr hg hs
    exact ⟨hinv.undisturbed hg hs, hinv'.consistent (hsized' hsized hc)⟩

/-- A client that has called `mev_write` and holds the semaphore. -/
def Sys.writing : Sys :=
  let op := Op.mevWrite 0 3 fun _ => 7
  (Sys.start.set 0 (.begun op lkmMevQuantumSize lkmMevQsetSize) trimmed).set 0
    (.down op lkmMevQuantumSize lkmMevQsetSize)
    { trimmed with container := { trimmed.container with sem := some 0 } }

theorem Sys.writing_reached (env : Env) :
    Sys.writing.Reached env fun s i act => act.Valid ∧ act.Guarded s ∧ act.Covered s i := by
  have hbegin : Step env Sys.start 0 (.begin (.mevWrite 0 3 fun _ => 7))
      (Sys.start.set 0 (.begun (.mevWrite 0 3 fun _ => 7) lkmMevQuantumSize lkmMevQsetSize)
        trimmed) := .begin rfl
  have hstart : (Act.begin (.mevWrite 0 3 fun _ => 7)).Valid := by
    show 0 < 2 ^ 63
    decide
  have hdown (s : Sys) (hpc : s.pc 0 = .begun (.mevWrite 0 3 fun _ => 7) lkmMevQuantumSize
      lkmMevQsetSize) (hm : s.mem = trimmed) : Step env s 0 .down (s.set 0
        (.down (.mevWrite 0 3 fun _ => 7) lkmMevQuantumSize lkmMevQsetSize)
        { trimmed with container := { trimmed.container with sem := some 0 } }) := by
    have htaken : s.mem.downInterruptible
        = .ok ({ trimmed with container := { trimmed.container with sem := some 0 } }, true) := by
      rw [hm]
      rfl
    exact .down hpc htaken
  exact .step (i := (0, .down)) (.step (i := (0, _)) .init ⟨hstart, trivial, trivial⟩ hbegin)
    ⟨trivial, trivial, trivial⟩ (hdown _ rfl rfl)

theorem interleaving_iff_writing :
    let env := Env.granting fun _ _ => 0
    Consistent Sys.writing ∧ ∀ i act s', act.Valid → Step env Sys.writing i act s' →
      ((Undisturbed Sys.writing i s' ∧ Consistent s') ↔
        act.Guarded Sys.writing ∧ act.Covered Sys.writing i) :=
  interleaving_iff _ (Sys.writing_reached _)

/--
Client 0 stands at the slot it has allocated. Client 1 opens the device with `O_WRONLY`, and the
slot is gone.
-/
theorem open_frees_located_slot :
    let env := Env.granting fun _ _ => 0
    ∃ s s' dptr sPos qPos n, s.Reached env (fun _ _ _ => True) ∧
      s.pc 0 = .located (.mevWrite 0 3 fun _ => 7) dptr sPos qPos n ∧
      PartOf s.mem dptr sPos qPos n ∧ Step env s 1 (.mevOpen 1) s' ∧
      ¬ PartOf s'.mem dptr sPos qPos n ∧ ¬ Undisturbed s 1 s' := by
  intro env
  have hdown := rep_trimmed.setSem (some 0)
  obtain ⟨m, place, located, he, hrep, -, -, hat⟩ :=
    writeLocate_spec env hdown (p := 0) (by decide) 3
  have hpage : ((Store.empty.allocate env (addrOf 0)).page (addrOf 0 / 4000)).isSome = true := rfl
  rw [if_pos hpage] at hat
  have hsound := hat
  obtain ⟨dptr, q, rfl, hnode, -⟩ := hat
  obtain ⟨m', ids, htrim, -, hblocks, -, -⟩ := mevTrim_spec hrep
  have hstep : Step env Sys.writing 0 .locate (Sys.writing.set 0 _ m) :=
    .locate rfl he
  have hopen : ∀ pc, Step env (Sys.writing.set 0 pc m) 1 (.mevOpen 1)
      ((Sys.writing.set 0 pc m).set 1 .idle m') := fun _ => .mevOpen rfl htrim
  refine ⟨_, _, dptr, _, _, _, .step (i := (0, .locate)) ?_ trivial hstep, rfl, ?_, hopen _, ?_, ?_⟩
  · exact (Sys.writing_reached env).mono fun _ _ _ => trivial
  · exact ⟨⟨_, (hrep.nodeAt_eq _).trans hnode⟩, hrep.rangeInside hsound⟩
  · rintro ⟨-, node, data, len, slot, q', size, b, hb, -⟩
    have : m'.heap.blocks dptr = some (.qset node) := hb
    rw [hblocks] at this
    simp at this
  · intro hu
    obtain ⟨hheap, -⟩ := hu 0 (by decide) trivial
    have hlive := hrep.blocks_node hnode
    have : m'.heap = m.heap := hheap
    rw [← this, hblocks] at hlive
    simp at hlive

end LkmSandbox.Mev
