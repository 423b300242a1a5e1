import LkmSandbox.Mev.Reach

/-!
# From `cdev_add` to the exit of the module

`lkm_mev_init` takes the container from `kmalloc` and sets none of its fields but `cdev` and, after
the device can already be opened, the semaphore. The fields get their values in `mev_trim`, which
runs when somebody opens the device write-only, or at exit. Until then the driver works on what the
block happened to hold.

* `boot_reads_garbage` — the first write after load divides by a zero from the block
* `life_safe_iff` — what the block and the order of the calls have to be for all to be well
-/

namespace LkmSandbox.Mev

open Lib

/-! ## Calls on a container of any sizes -/

section AnyDims

variable {env : Env} {δ : Dims} {s : Store} {place : Place → Option Addr} {m : Mem}

/-- What read and write divide by is positive; `quantum` is an `int`. -/
structure Dims.Positive (δ : Dims) : Prop where
  quantum : 0 < δ.quantum
  itemsize : 0 < int32 (δ.quantum * δ.qset)
  int : δ.quantum < 2 ^ 31

theorem Dims.positive_std : Dims.std.Positive := ⟨by decide, by decide, by decide⟩

theorem int32_lt (x : Int) : int32 x < 2 ^ 31 := by
  unfold int32 Int.bmod
  simp only
  split <;> omega

theorem int32_le_self {x : Int} (hx : 0 ≤ x) : int32 x ≤ x := by
  unfold int32 Int.bmod
  simp only
  split <;> omega

/-- The offset arithmetic stays in range whatever the positive sizes. -/
theorem offsetOf_any (hδ : δ.Positive) {p : Nat} (hp : p < 2 ^ 63) :
    ∃ item j o, offsetOf δ.quantum δ.qset p
        = .ok { item, sPos := (j : Nat), qPos := (o : Nat) } ∧
      o < δ.bytes ∧ (0 ≤ δ.qset → j < δ.slots) := by
  have hI := int32_lt (δ.quantum * δ.qset)
  have hle := int32_le_self (x := δ.quantum * δ.qset)
  obtain ⟨Q, hQ⟩ := Int.eq_ofNat_of_zero_le (Int.le_of_lt hδ.quantum)
  obtain ⟨I, hitem⟩ := Int.eq_ofNat_of_zero_le (Int.le_of_lt hδ.itemsize)
  have hQ0 := hδ.quantum
  have hI0 := hδ.itemsize
  have hint := hδ.int
  rw [hitem] at hI hI0 hle
  have h64 : int64 (p : Int) = p := int64_of_range (by omega) (by omega)
  have hmod : (p : Int).tmod I = (p % I : Nat) := (Int.ofNat_tmod p I).symm
  have hmod_lt : p % I < I := Nat.mod_lt p (by omega)
  have hnat : ∀ n : Nat, n < I → int32 (n : Int) = n := fun n hn =>
    int32_of_range (Int.natCast_nonneg n) (by omega)
  have hrest := hnat (p % I) hmod_lt
  have hs : int32 (((p % I : Nat) : Int).tdiv Q) = (p % I / Q : Nat) := by
    rw [show ((p % I : Nat) : Int).tdiv Q = (p % I / Q : Nat) from (Int.ofNat_tdiv _ Q).symm]
    exact hnat _ (Nat.lt_of_le_of_lt (Nat.div_le_self _ _) hmod_lt)
  have hq : ((p % I : Nat) : Int).tmod Q = (p % I % Q : Nat) := (Int.ofNat_tmod _ Q).symm
  refine ⟨int32 ((p : Int).tdiv I), p % I / Q, p % I % Q, ?_, ?_, ?_⟩
  · unfold offsetOf
    simp only [hitem, h64, hmod, hrest]
    rw [if_neg (by omega), hQ, hs, hq]
  · unfold Dims.bytes
    rw [hQ, Int.toNat_natCast]
    exact Nat.mod_lt _ (by omega)
  · intro h0
    -- the product of the sizes is at least what it is as an `int`
    obtain ⟨S, hS⟩ := Int.eq_ofNat_of_zero_le h0
    unfold Dims.slots
    rw [hS, Int.toNat_natCast]
    rw [hQ, hS] at hle
    have hprod : ((I : Nat) : Int) ≤ (Q * S : Nat) := by
      rw [Int.natCast_mul]
      exact hle (Int.natCast_nonneg (Q * S))
    exact Nat.div_lt_of_lt_mul (by omega)

/-- What is left of a request fits the quantum. -/
theorem clampCount_le (hδ : δ.Positive) {o : Nat} (ho : o < δ.bytes) (count : Nat) :
    o + clampCount δ.quantum (o : Nat) count ≤ δ.bytes := by
  have hint := hδ.int
  unfold Dims.bytes at ho ⊢
  have hsz : sizeT (δ.quantum - (o : Nat)) = (δ.quantum - (o : Nat)).toNat :=
    sizeT_of_range (by omega) (by omega)
  unfold clampCount
  rw [hsz]
  split <;> omega

/-- No array has been allocated when `qset` is negative: `kmalloc` refuses its size. -/
def NoArrays (δ : Dims) (s : Store) : Prop := 0 ≤ δ.qset ∨ ∀ i, s.data i = false

/-- The memory represents some store with the sizes `δ`. -/
structure Intact (δ : Dims) (m : Mem) : Prop where
  rep : ∃ s place, RepOf δ s place m ∧ NoArrays δ s

/-- Where a located call stands: a slot of the container, and a range that fits its quantum. -/
def Fits (δ : Dims) (place : Place → Option Addr) (located : Located) : Prop :=
  ∀ dptr sPos qPos n, located = .copy dptr sPos qPos n →
    ∃ i j o, AtSlot place i j o n located ∧ o + n ≤ δ.bytes

theorem Fits.out {retval : Int} : Fits δ place (.out retval) := by
  intro dptr sPos qPos n heq
  cases heq

/-- A slot is found, and the request is cut to its quantum. -/
theorem Fits.slot (hδ : δ.Positive) {i j o count : Nat} {located : Located} (ho : o < δ.bytes)
    (hl : AtSlot place i j o (clampCount δ.quantum (o : Nat) count) located) :
    Fits δ place located := by
  intro dptr sPos qPos n heq
  have hat := hl
  obtain ⟨a, q, hloc, -, -⟩ := hl
  rw [heq] at hloc
  cases hloc
  exact ⟨i, j, o, hat, clampCount_le hδ ho count⟩

/-- Without arrays the walk of `mev_follow` ends at a null pointer or at a node without data. -/
theorem RepOf.follow_noArrays (env : Env) (h : RepOf δ s place m) (hnone : ∀ i, s.data i = false)
    (item : Int) :
    ∃ m' s' place' dptr, mevFollow env item m = .ok (m', dptr) ∧ RepOf δ s' place' m' ∧
      (∀ i, s'.data i = false) ∧ m'.container.sem = m.container.sem ∧
      ∀ a, dptr = some a → ∃ next, m'.loadQset a = .ok { data := none, next } := by
  obtain ⟨m', place', he, h', -, hsem⟩ := mevFollow_spec env h (rfl : rounds item = _)
  have hno : ∀ i, (s.follow env (rounds item)).data i = false := by
    intro i
    rw [Store.follow_data]
    exact hnone i
  refine ⟨m', _, place', _, he, h', hno, hsem,
    fun a ha => ⟨place' (.node (rounds item + 1)), ?_⟩⟩
  have hd := h'.data_isSome (rounds item)
  rw [hno] at hd
  have hd' : place' (.data (rounds item)) = none := by simpa using hd
  rw [h'.loadQset ha, hd']

theorem readLocate_any (env : Env) (hδ : δ.Positive) (h : RepOf δ s place m) (hno : NoArrays δ s)
    {p : Nat} (hp : p < 2 ^ 63) (count : Nat) :
    ∃ m' s' place' located, readLocate env δ.quantum δ.qset p count m = .ok (m', located) ∧
      RepOf δ s' place' m' ∧ NoArrays δ s' ∧ m'.container.sem = m.container.sem ∧
      Fits δ place' located := by
  obtain ⟨item, j, o, hoff, ho, hj⟩ := offsetOf_any hδ hp
  rcases hno with h0 | hnone
  · obtain ⟨m', place', located, he, hrep, hsem, hl⟩ := readLocate_at env h hoff rfl (hj h0) count
    refine ⟨m', _, place', located, he, hrep, Or.inl h0, hsem, ?_⟩
    split at hl
    · rw [hl]
      exact Fits.out
    · exact Fits.slot hδ ho hl
  · -- without arrays every slot is empty
    unfold readLocate
    rw [h.size]
    split
    · exact ⟨m, s, place, _, rfl, h, Or.inr hnone, rfl, Fits.out⟩
    · obtain ⟨m₁, s₁, place₁, dptr, he₁, h₁, hno₁, hsem, hload⟩ := h.follow_noArrays env hnone item
      refine ⟨m₁, s₁, place₁, .out 0, ?_, h₁, Or.inr hno₁, hsem, Fits.out⟩
      rw [hoff]
      simp only [ok_bind, he₁]
      rcases dptr with _ | a
      · rfl
      · obtain ⟨next, ha⟩ := hload a rfl
        unfold loadQuantum
        simp only [ha, ok_bind]

theorem writeLocate_any (env : Env) (hδ : δ.Positive) (h : RepOf δ s place m)
    (hno : NoArrays δ s) {p : Nat} (hp : p < 2 ^ 63) (count : Nat) :
    ∃ m' s' place' located, writeLocate env δ.quantum δ.qset p count m = .ok (m', located) ∧
      RepOf δ s' place' m' ∧ NoArrays δ s' ∧ m'.container.sem = m.container.sem ∧
      Fits δ place' located := by
  obtain ⟨item, j, o, hoff, ho, hj⟩ := offsetOf_any hδ hp
  by_cases h0 : 0 ≤ δ.qset
  · obtain ⟨m', place', located, he, hrep, -, hsem, hl⟩ :=
      writeLocate_at env h h0 (Int.le_of_lt hδ.quantum) hoff rfl (hj h0) count
    refine ⟨m', _, place', located, he, hrep, Or.inl h0, hsem, ?_⟩
    split at hl
    · exact Fits.slot hδ ho hl
    · rw [hl]
      exact Fits.out
  -- a negative number of slots: no node has an array, and `kmalloc` refuses to make one
  · have hnone : ∀ i, s.data i = false := hno.resolve_left h0
    obtain ⟨m₁, s₁, place₁, dptr, he₁, h₁, hno₁, hsem, hload⟩ := h.follow_noArrays env hnone item
    unfold writeLocate
    rw [hoff]
    simp only [ok_bind, he₁]
    rcases dptr with _ | a
    · exact ⟨m₁, s₁, place₁, _, rfl, h₁, Or.inr hno₁, hsem, Fits.out⟩
    · obtain ⟨next, ha⟩ := hload a rfl
      have hneg : ¬ 0 ≤ δ.qset * sizeofPointer := by
        unfold sizeofPointer
        omega
      refine ⟨_, s₁.countCall, place₁, .out (-enomem), ?_, h₁.countCall (zeroSlots δ), Or.inr hno₁,
        hsem, Fits.out⟩
      simp only [ensureData, ha, ok_bind, Mem.kmalloc, decide_eq_false hneg, Bool.false_and,
        Heap.alloc_false]

/-- A read of a container with positive sizes does not fault. -/
theorem mevRead_any (env : Env) (hδ : δ.Positive) (h : Intact δ m) (hi : Idle m) {p : Nat}
    (hp : p < 2 ^ 63) (count uncopied : Nat) :
    ∃ m' r, mevRead env p count uncopied m = .ok (m', r) ∧ Intact δ m' ∧ Idle m' := by
  obtain ⟨s, place, hrep, hno⟩ := h.rep
  have hd := hrep.setSem (some 0)
  obtain ⟨m₁, s₁, place₁, located, he, h₁, hno₁, hsem, hfit⟩ :=
    readLocate_any env hδ hd hno hp count
  unfold mevRead
  rw [downInterruptible_of_idle hi, hrep.quantum, hrep.qset]
  simp only [ok_bind, if_true, he]
  cases located with
  | out retval => exact ⟨_, _, rfl, ⟨_, place₁, h₁.up, hno₁⟩, idle_up hsem⟩
  | copy dptr sPos qPos n =>
    obtain ⟨i, j, o, ⟨a, q, hloc, ha, hq⟩, hn⟩ := hfit _ _ _ _ rfl
    cases hloc
    obtain ⟨b, hb, -⟩ := h₁.page hq
    simp only [readCopy_spec h₁ ha hq hb hn uncopied, ok_bind]
    exact ⟨_, _, rfl, ⟨_, place₁, h₁.up, hno₁⟩, idle_up hsem⟩

theorem mevWrite_any (env : Env) (hδ : δ.Positive) (h : Intact δ m) (hi : Idle m) {p : Nat}
    (hp : p < 2 ^ 63) (count : Nat) (buf : Nat → UInt8) (copy : UserCopy) :
    ∃ m' r, mevWrite env p count buf copy m = .ok (m', r) ∧ Intact δ m' ∧ Idle m' := by
  obtain ⟨s, place, hrep, hno⟩ := h.rep
  have hd := hrep.setSem (some 0)
  obtain ⟨m₁, s₁, place₁, located, he, h₁, hno₁, hsem, hfit⟩ :=
    writeLocate_any env hδ hd hno hp count
  unfold mevWrite
  rw [downInterruptible_of_idle hi, hrep.quantum, hrep.qset]
  simp only [ok_bind, if_true, he]
  cases located with
  | out retval => exact ⟨_, _, rfl, ⟨_, place₁, h₁.up, hno₁⟩, idle_up hsem⟩
  | copy dptr sPos qPos n =>
    obtain ⟨i, j, o, ⟨a, q, hloc, ha, hq⟩, hn⟩ := hfit _ _ _ _ rfl
    cases hloc
    obtain ⟨m₂, hc, h₂, hs₂⟩ := writeCopy_spec h₁ ha hq hn buf copy
    simp only [hc, ok_bind]
    split
    · exact ⟨_, _, rfl, ⟨_, place₁, h₂.up, hno₁⟩, idle_up (hs₂.trans hsem)⟩
    · obtain ⟨h₃, hs₃⟩ := writeUpdate_spec h₂ (p + n)
      exact ⟨_, _, rfl, ⟨_, place₁, h₃.up, hno₁⟩, idle_up (hs₃.trans (hs₂.trans hsem))⟩

end AnyDims

/-! ## The life of the container -/

/-- What the block from `kmalloc` holds in place of the fields. -/
structure Garbage where
  data : Option Addr
  quantum : Int
  qset : Int
  size : Nat

def Garbage.dims (g : Garbage) : Dims := { quantum := int32 g.quantum, qset := int32 g.qset }

/-- What happens between `cdev_add` and the exit of the module. -/
inductive Event where
  | mevOpen (fFlags : UInt32)
  | mevRead (fPos count uncopied : Nat)
  | mevWrite (fPos count : Nat) (buf : Nat → UInt8) (copy : UserCopy)
  | mevRelease
  /-- `lkm_mev_setup_cdev` goes on behind `cdev_add` -/
  | semaInit

/-- The memory, and what the driver has stored in the container so far. -/
structure Boot where
  mem : Mem
  /-- `mev_trim` has run -/
  trimmed : Bool
  /-- `container->size` has been stored -/
  sized : Bool

/-- When `cdev_add` returns: of the fields, none has been set. -/
def boot (g : Garbage) : Boot where
  mem :=
    { heap := Heap.empty
      container :=
        { data := g.data, quantum := int32 g.quantum, qset := int32 g.qset, size := g.size % 2 ^ 64,
          sem := none } }
  trimmed := false
  sized := false

/-- `mev_write` stores the size exactly when it raises it. -/
def Boot.step (env : Env) (b : Boot) : Event → Except Fault Boot
  | .mevOpen fFlags => do
    let m ← mevOpen fFlags b.mem
    let wronly := mevIoIsWronly fFlags
    .ok { mem := m, trimmed := b.trimmed || wronly, sized := b.sized || wronly }
  | .mevRead fPos count uncopied => do
    let (m, _) ← mevRead env fPos count uncopied b.mem
    .ok { b with mem := m }
  | .mevWrite fPos count buf copy => do
    let (m, _) ← mevWrite env fPos count buf copy b.mem
    .ok { b with mem := m, sized := b.sized || m.container.size != b.mem.container.size }
  | .mevRelease => .ok b
  | .semaInit =>
    .ok { b with mem := { b.mem with container := { b.mem.container with sem := some 1 } } }

/-! ## What the driver relies on -/

/-- `container->data` is null or the head of a list of nodes that the driver has allocated. -/
structure DriverList (m : Mem) : Prop where
  live : ∀ i a, nodeAt m i = some a → ∃ q, m.heap.blocks a = some (.qset q)
  ends : ∃ len, nodeAt m len = none

/-- `quantum` and `itemsize` are positive. -/
def Divides (m : Mem) : Prop :=
  0 < m.container.quantum ∧ 0 < int32 (m.container.quantum * m.container.qset)

/-- What an entry point relies on when it runs. -/
def Event.Safe (b : Boot) : Event → Prop
  | .mevOpen fFlags => mevIoIsWronly fFlags = true → DriverList b.mem
  | .mevRead fPos _ _ =>
    b.mem.container.sem ≠ none ∧ b.sized = true ∧
      (fPos < b.mem.container.size → Divides b.mem ∧ DriverList b.mem)
  | .mevWrite .. => b.mem.container.sem ≠ none ∧ Divides b.mem ∧ DriverList b.mem
  | _ => True

/-- Every event finds what it relies on and does not fault, and so does `mev_trim` at the exit. -/
def LifeSafe (env : Env) : Boot → List Event → Prop
  | b, [] => DriverList b.mem ∧ ∃ m, mevTrim b.mem = .ok m
  | b, e :: es => e.Safe b ∧ ∃ b', b.step env e = .ok b' ∧ LifeSafe env b' es

/--
What has to come before an event: `sema_init`; for a write also a trim, unless the block happens to
hold sizes that will do; for a read also a trim or a write that has raised the size.
-/
def Event.Prepared (g : Garbage) (b : Boot) : Event → Prop
  | .mevRead .. => b.mem.container.sem ≠ none ∧ b.sized = true
  | .mevWrite .. => b.mem.container.sem ≠ none ∧ (b.trimmed = true ∨ g.dims.Positive)
  | _ => True

def LifePrepared (env : Env) (g : Garbage) : Boot → List Event → Prop
  | _, [] => True
  | b, e :: es => e.Prepared g b ∧ ∀ b', b.step env e = .ok b' → LifePrepared env g b' es

/-- `*f_pos` is non-negative. -/
def Event.Valid : Event → Prop
  | .mevRead fPos _ _ => fPos < 2 ^ 63
  | .mevWrite fPos _ _ _ => fPos < 2 ^ 63
  | _ => True

/-! ## A null pointer in the block -/

section Fine

variable {env : Env} {g : Garbage} {b : Boot} {m : Mem} {δ : Dims}

/-- The sizes the container has. -/
def Boot.dims (g : Garbage) (b : Boot) : Dims := if b.trimmed then .std else g.dims

structure Fine (g : Garbage) (b : Boot) : Prop where
  intact : Intact (b.dims g) b.mem
  sem : b.mem.container.sem = none ∨ Idle b.mem
  sized : b.sized = true → (b.dims g).Positive
  trimmed : b.trimmed = true → b.sized = true

theorem Intact.driverList (h : Intact δ m) : DriverList m := by
  obtain ⟨s, place, hrep, -⟩ := h.rep
  refine ⟨?_, s.len, hrep.listLength.2⟩
  intro i a ha
  rw [hrep.nodeAt_eq] at ha
  exact ⟨_, hrep.blocks_node ha⟩

theorem Intact.divides_iff (h : Intact δ m) : Divides m ↔ 0 < δ.quantum ∧
    0 < int32 (δ.quantum * δ.qset) := by
  obtain ⟨s, place, hrep, -⟩ := h.rep
  unfold Divides
  rw [hrep.quantum, hrep.qset]

theorem Intact.trim (h : Intact δ m) :
    ∃ m', mevTrim m = .ok m' ∧ Intact .std m' ∧ m'.container.sem = m.container.sem := by
  obtain ⟨s, place, hrep, -⟩ := h.rep
  obtain ⟨m', ids, he, hr, -, -, hcont⟩ := mevTrim_spec hrep
  exact ⟨m', he, ⟨_, _, hr, Or.inl (by decide)⟩, by rw [hcont]; rfl⟩

theorem Fine.positive_dims (hb : b.trimmed = true ∨ g.dims.Positive) : (b.dims g).Positive := by
  unfold Boot.dims
  split
  · exact Dims.positive_std
  · next ht => exact hb.resolve_left ht

theorem Fine.idle (h : Fine g b) (hsem : b.mem.container.sem ≠ none) : Idle b.mem :=
  h.sem.resolve_left hsem

/-- With a null pointer in the block, to be prepared is all an event needs. -/
theorem Fine.safe_iff (h : Fine g b) (e : Event) : e.Safe b ↔ e.Prepared g b := by
  have hlist := h.intact.driverList
  cases e with
  | mevOpen fFlags => exact iff_of_true (fun _ => hlist) trivial
  | mevRelease => exact Iff.rfl
  | semaInit => exact Iff.rfl
  | mevRead fPos count uncopied =>
    constructor
    · rintro ⟨hsem, hsized, -⟩
      exact ⟨hsem, hsized⟩
    · rintro ⟨hsem, hsized⟩
      have hpos := h.sized hsized
      exact ⟨hsem, hsized, fun _ => ⟨h.intact.divides_iff.mpr ⟨hpos.quantum, hpos.itemsize⟩, hlist⟩⟩
  | mevWrite fPos count buf copy =>
    constructor
    · rintro ⟨hsem, hdiv, -⟩
      refine ⟨hsem, ?_⟩
      by_cases ht : b.trimmed = true
      · exact Or.inl ht
      · have hdims : b.dims g = g.dims := if_neg ht
        rw [h.intact.divides_iff, hdims] at hdiv
        exact Or.inr ⟨hdiv.1, hdiv.2, int32_lt _⟩
    · rintro ⟨hsem, hpos⟩
      have hpos := Fine.positive_dims hpos
      exact ⟨hsem, h.intact.divides_iff.mpr ⟨hpos.quantum, hpos.itemsize⟩, hlist⟩

/-- **A prepared event does not fault, and keeps the container fine.** -/
theorem Fine.step (h : Fine g b) (env : Env) {e : Event} (he : e.Prepared g b) (hv : e.Valid) :
    ∃ b', b.step env e = .ok b' ∧ Fine g b' := by
  cases e with
  | mevOpen fFlags =>
    unfold Boot.step LkmSandbox.Mev.mevOpen
    by_cases hw : mevIoIsWronly fFlags = true
    · obtain ⟨m', htrim, hintact, hsem⟩ := h.intact.trim
      have hdims : ∀ sized, (Boot.mk m' true sized).dims g = .std := fun _ => rfl
      simp only [hw, if_true, htrim, ok_bind, Bool.or_true]
      refine ⟨_, rfl, ?_, ?_, ?_, fun _ => rfl⟩
      · rw [hdims]
        exact hintact
      · unfold Idle
        rw [hsem]
        exact h.sem
      · intro _
        rw [hdims]
        exact Dims.positive_std
    · have hw' : mevIoIsWronly fFlags = false := by simpa using hw
      simp only [hw', Bool.false_eq_true, if_false, ok_bind, Bool.or_false]
      exact ⟨b, rfl, h⟩
  | mevRead fPos count uncopied =>
    obtain ⟨m', r, hread, hintact, hidle⟩ :=
      mevRead_any env (h.sized he.2) h.intact (h.idle he.1) hv count uncopied
    unfold Boot.step
    simp only [hread, ok_bind]
    exact ⟨_, rfl, hintact, Or.inr hidle, h.sized, h.trimmed⟩
  | mevWrite fPos count buf copy =>
    have hpos := Fine.positive_dims he.2
    obtain ⟨m', r, hwrite, hintact, hidle⟩ :=
      mevWrite_any env hpos h.intact (h.idle he.1) hv count buf copy
    unfold Boot.step
    simp only [hwrite, ok_bind]
    refine ⟨_, rfl, hintact, Or.inr hidle, fun _ => hpos, ?_⟩
    intro ht
    simp only [h.trimmed ht, Bool.true_or]
  | mevRelease => exact ⟨b, rfl, h⟩
  | semaInit =>
    obtain ⟨s, place, hrep, hno⟩ := h.intact.rep
    exact ⟨_, rfl, ⟨s, place, hrep.setSem (some 1), hno⟩, Or.inr rfl, h.sized, h.trimmed⟩

theorem Fine.life_iff (es : List Event) (hv : ∀ e ∈ es, e.Valid) :
    ∀ {b : Boot}, Fine g b → (LifeSafe env b es ↔ LifePrepared env g b es) := by
  induction es with
  | nil =>
    intro b h
    obtain ⟨m', htrim, -⟩ := h.intact.trim
    exact iff_of_true ⟨h.intact.driverList, m', htrim⟩ trivial
  | cons e es ih =>
    intro b h
    have hvs : ∀ d ∈ es, d.Valid := fun d hd => hv d (List.mem_cons_of_mem _ hd)
    have hve := hv e List.mem_cons_self
    constructor
    · rintro ⟨hsafe, b', hs, hlife⟩
      have hprep := (h.safe_iff e).mp hsafe
      obtain ⟨b₁, hs₁, h₁⟩ := h.step env hprep hve
      refine ⟨hprep, ?_⟩
      intro b₂ hs₂
      rw [hs] at hs₁ hs₂
      cases hs₁
      cases hs₂
      exact (ih hvs h₁).mp hlife
    · rintro ⟨hprep, hlife⟩
      obtain ⟨b₁, hs₁, h₁⟩ := h.step env hprep hve
      exact ⟨(h.safe_iff e).mpr hprep, b₁, hs₁, (ih hvs h₁).mpr (hlife b₁ hs₁)⟩

theorem Fine.boot (hd : g.data = none) : Fine g (boot g) where
  intact := by
    refine ⟨{ Store.empty with size := g.size % 2 ^ 64 }, fun _ => none, ⟨?_, ?_, hd, rfl, rfl, rfl,
      rfl⟩, Or.inr fun _ => rfl⟩
    · exact ⟨Nat.le_refl _, by simp [Store.empty], by simp [Store.empty]⟩
    · refine (Owns.nothing fun _ => rfl).congr rfl ?_
      funext p
      cases p <;> simp [Store.content, Store.empty]
  sem := Or.inl rfl
  sized := fun hs => absurd hs Bool.false_ne_true
  trimmed := fun ht => absurd ht Bool.false_ne_true

end Fine

/-! ## A wild pointer in the block -/

/-- The pointer of the block is still there, and no block has been allocated. -/
structure Wild (b : Boot) : Prop where
  data : b.mem.container.data ≠ none
  heap : b.mem.heap = Heap.empty
  sized : b.sized = false

theorem Wild.not_driverList {b : Boot} (h : Wild b) : ¬ DriverList b.mem := by
  intro hlist
  obtain ⟨a, ha⟩ := Option.ne_none_iff_exists'.mp h.data
  obtain ⟨q, hq⟩ := hlist.live 0 a ha
  rw [h.heap] at hq
  simp [Heap.empty] at hq

/-- Sooner or later, at the exit at the latest, the driver follows the pointer. -/
theorem Wild.not_safe (env : Env) (es : List Event) :
    ∀ {b : Boot}, Wild b → ¬ LifeSafe env b es := by
  induction es with
  | nil => exact fun h hlife => h.not_driverList hlife.1
  | cons e es ih =>
    intro b h hlife
    obtain ⟨hsafe, b', hs, hlife⟩ := hlife
    cases e with
    | mevOpen fFlags =>
      by_cases hw : mevIoIsWronly fFlags = true
      · exact h.not_driverList (hsafe hw)
      · have hw' : mevIoIsWronly fFlags = false := by simpa using hw
        unfold Boot.step mevOpen at hs
        simp only [hw', Bool.false_eq_true, if_false, ok_bind, Bool.or_false] at hs
        cases hs
        exact ih h hlife
    | mevRead fPos count uncopied =>
      -- the size has not been stored: a trim or a write would have followed the pointer
      have hsized := hsafe.2.1
      rw [h.sized] at hsized
      simp at hsized
    | mevWrite fPos count buf copy => exact h.not_driverList hsafe.2.2
    | mevRelease =>
      cases hs
      exact ih h hlife
    | semaInit =>
      cases hs
      refine ih ?_ hlife
      exact ⟨h.data, h.heap, h.sized⟩

/--
**What it takes for the driver never to work on an uninitialised container.** For every content of
the block and every sequence of events.
-/
theorem life_safe_iff (env : Env) (g : Garbage) (es : List Event) (hv : ∀ e ∈ es, e.Valid) :
    LifeSafe env (boot g) es ↔ g.data = none ∧ LifePrepared env g (boot g) es := by
  by_cases hd : g.data = none
  · rw [Fine.life_iff es hv (Fine.boot hd)]
    exact ⟨fun h => ⟨hd, h⟩, fun h => h.2⟩
  · exact iff_of_false (Wild.not_safe env es ⟨hd, rfl, rfl⟩) fun h => hd h.1

theorem life_safe_iff_truncating :
    let env := Env.granting fun _ _ => 0
    let g : Garbage := { data := none, quantum := -7, qset := 0, size := 12 }
    let es : List Event := [.mevOpen 1, .semaInit, .mevWrite 0 3 (fun _ => 7) UserCopy.ok]
    LifeSafe env (boot g) es ↔ g.data = none ∧ LifePrepared env g (boot g) es :=
  life_safe_iff _ _ _ (by simp [Event.Valid])

/--
The block is all zero. The device is opened with `O_RDWR`, which does not trim, and the write that
follows divides by zero.
-/
theorem boot_reads_garbage :
    let env := Env.granting fun _ _ => 0
    let g : Garbage := { data := none, quantum := 0, qset := 0, size := 0 }
    let write : Event := .mevWrite 0 8 (fun _ => 7) UserCopy.ok
    ¬ LifeSafe env (boot g) [.semaInit, .mevOpen 2, write] ∧
      ∃ b₁ b₂, (boot g).step env .semaInit = .ok b₁ ∧ b₁.step env (.mevOpen 2) = .ok b₂ ∧
        b₂.step env write = .error .divideError := by
  refine ⟨?_, _, _, rfl, rfl, rfl⟩
  rintro ⟨-, b₁, h₁, -, b₂, h₂, ⟨-, hdiv, -⟩, -⟩
  cases h₁
  cases h₂
  exact absurd hdiv.1 (by decide)

end LkmSandbox.Mev
