import LkmSandbox.Mev.Driver
import Mathlib.Tactic.SplitIfs

/-!
# The store without pointers

What a container holds, said without addresses: how many list nodes there are, which of them have
their slot array, and the pages, a page being the quantum at slot `k % 1000` of node `k / 1000`.
The allocation calls are counted, since which of them fail is up to the environment.

Each operation of the driver has its counterpart here. An operation that grows the store reports
no success of its own: it succeeded iff what was asked for is there afterwards.
-/

namespace LkmSandbox.Mev

open Lib

/-! ## Positions -/

/-- The place in the store that a position designates. -/
def addrOf (p : Nat) : Nat := p % listSpan

theorem addrOf_of_lt {p : Nat} (hp : p < listSpan) : addrOf p = p :=
  Nat.mod_eq_of_lt hp

theorem addrOf_lt (p : Nat) : addrOf p < listSpan := Nat.mod_lt p (by decide)

theorem addrOf_mod (p : Nat) : addrOf p % 4000 = p % 4000 := by
  unfold addrOf listSpan
  omega

/-! ## The store -/

/-- `len` list nodes; node `i` has an array iff `data i`; page `k` holds 4000 bytes. -/
structure Store where
  len : Nat
  data : Nat → Bool
  page : Nat → Option (Nat → UInt8)
  size : Nat
  calls : Nat

namespace Store

/-- Arrays hang on nodes, pages lie in arrays, every node took an allocation. -/
structure WfOf (δ : Dims) (s : Store) : Prop where
  len_le : s.len ≤ s.calls
  data_lt : ∀ i, s.data i = true → i < s.len
  page_data : ∀ k, (s.page k).isSome → s.data (k / δ.slots) = true

abbrev Wf (s : Store) : Prop := s.WfOf .std

/-- The size is covered by the list. -/
def Sized (s : Store) : Prop := s.size ≤ 4000000 * s.len

/-! ## Growing -/

/-- An allocation that fails. -/
def countCall (s : Store) : Store := { s with calls := s.calls + 1 }

def addNode (s : Store) : Store := { s with len := s.len + 1, calls := s.calls + 1 }

def addData (i : Nat) (s : Store) : Store :=
  { s with data := Function.update s.data i true, calls := s.calls + 1 }

def addPage (k : Nat) (b : Nat → UInt8) (s : Store) : Store :=
  { s with page := Function.update s.page k (some b), calls := s.calls + 1 }

/-- Append `n` nodes, or those before the first allocation that fails. -/
def grow (env : Env) : Nat → Store → Store
  | 0, s => s
  | n + 1, s => if env.kmallocOk s.calls then grow env n s.addNode else s.countCall

/-- `mev_follow` to index `n`. -/
def follow (env : Env) (n : Nat) (s : Store) : Store := s.grow env (n + 1 - s.len)

def ensureData (env : Env) (i : Nat) (s : Store) : Store :=
  if s.data i then s else if env.kmallocOk s.calls then s.addData i else s.countCall

def ensurePage (env : Env) (k : Nat) (s : Store) : Store :=
  if (s.page k).isSome then s
  else if env.kmallocOk s.calls then s.addPage k (env.junk s.calls) else s.countCall

/-! ## Bytes and size -/

/-- `src` laid over `n` bytes of page `k` from `off`. -/
def overlay (k off n : Nat) (src : Nat → Option UInt8) (s : Store) : Store :=
  { s with page := Function.update s.page k ((s.page k).map (Mem.overlay off n src)) }

def extend (n : Nat) (s : Store) : Store := { s with size := max s.size n }

/-- The bytes `off`, …, `off + n - 1` of a page. -/
def bytes (b : Nat → UInt8) (off n : Nat) : List UInt8 := (List.range n).map fun i => b (off + i)

/-- How many bytes a transfer of `count` moves at position `p`: up to the end of the page. -/
def chunk (p count : Nat) : Nat := min count (4000 - p % 4000)

/-! ## The calls -/

def trim (s : Store) : Store :=
  { len := 0, data := fun _ => false, page := fun _ => none, size := 0, calls := s.calls }

/-- `count` cut down at the size, with the 64-bit sum of the source. -/
def readCount (s : Store) (p count : Nat) : Nat :=
  if s.size < (p + count) % 2 ^ 64 then s.size - p else count

def read (p count uncopied : Nat) (s : Store) : Reply :=
  if s.size ≤ p then { retval := 0, fPos := p, delivered := [] }
  else
    match s.page (addrOf p / 4000) with
    | none => { retval := 0, fPos := p, delivered := [] }
    | some b =>
      let n := chunk p (s.readCount p count)
      readReply p n ((bytes b (p % 4000) n).take (n - uncopied)) (min uncopied n)

/-- What a read leaves: it follows the list, and that appends the nodes it does not find. -/
def lookup (env : Env) (p : Nat) (s : Store) : Store :=
  if s.size ≤ p then s else s.follow env (addrOf p / 4000000)

/--
The allocations of a write to page `k` of node `i`, in order, each tried only when those before
succeeded.
-/
def allocateAt (env : Env) (i k : Nat) (s : Store) : Store :=
  let s := s.follow env i
  if i < s.len then
    let s := s.ensureData env i
    if s.data i then s.ensurePage env k else s
  else s

def allocate (env : Env) (a : Nat) (s : Store) : Store := s.allocateAt env (a / 4000000) (a / 4000)

def write (env : Env) (p count : Nat) (buf : Nat → UInt8) (copy : UserCopy) (s : Store) :
    Store × Reply :=
  let s := s.allocate env (addrOf p)
  if (s.page (addrOf p / 4000)).isSome then
    let n := chunk p count
    if min copy.uncopied n ≠ 0 then
      (s.overlay (addrOf p / 4000) (p % 4000) n copy.clobber,
        { retval := -efault, fPos := p, delivered := [] })
    else
      ((s.overlay (addrOf p / 4000) (p % 4000) n fun i => some (buf i)).extend (p + n),
        { retval := n, fPos := p + n, delivered := [] })
  else (s, { retval := -enomem, fPos := p, delivered := [] })

def step (env : Env) (s : Store) : Call → Store × Reply
  | .mevOpen fFlags =>
    (if mevIoIsWronly fFlags then s.trim else s, { retval := 0, fPos := 0, delivered := [] })
  | .mevRead fPos count uncopied => (s.lookup env fPos, s.read fPos count uncopied)
  | .mevWrite fPos count buf copy => s.write env fPos count buf copy
  | .mevTrim => (s.trim, { retval := 0, fPos := 0, delivered := [] })

def run (env : Env) (s : Store) (cs : List Call) : Store × List Reply := Lib.run (step env) s cs

/-- The empty store, as the first `mev_trim` leaves it. -/
def empty : Store :=
  { len := 0, data := fun _ => false, page := fun _ => none, size := 0, calls := 0 }

/-! ## What growing changes -/

section Grow

variable (env : Env) (s : Store)

@[simp] theorem grow_data (n : Nat) : (s.grow env n).data = s.data := by
  induction n generalizing s with
  | zero => rfl
  | succ n ih =>
    rw [grow]
    split
    · exact ih s.addNode
    · rfl

@[simp] theorem grow_page (n : Nat) : (s.grow env n).page = s.page := by
  induction n generalizing s with
  | zero => rfl
  | succ n ih =>
    rw [grow]
    split
    · exact ih s.addNode
    · rfl

@[simp] theorem grow_size (n : Nat) : (s.grow env n).size = s.size := by
  induction n generalizing s with
  | zero => rfl
  | succ n ih =>
    rw [grow]
    split
    · exact ih s.addNode
    · rfl

theorem le_grow_len (n : Nat) : s.len ≤ (s.grow env n).len := by
  induction n generalizing s with
  | zero => exact Nat.le_refl _
  | succ n ih =>
    rw [grow]
    split
    · exact Nat.le_of_succ_le (ih s.addNode)
    · exact Nat.le_refl _

theorem grow_len_le (n : Nat) : (s.grow env n).len ≤ s.len + n := by
  induction n generalizing s with
  | zero => exact Nat.le_refl _
  | succ n ih =>
    rw [grow]
    split
    · have := ih s.addNode
      simp only [addNode] at this ⊢
      omega
    · simp only [countCall]; omega

@[simp] theorem follow_data (n : Nat) : (s.follow env n).data = s.data := grow_data env s _

@[simp] theorem follow_page (n : Nat) : (s.follow env n).page = s.page := grow_page env s _

@[simp] theorem follow_size (n : Nat) : (s.follow env n).size = s.size := grow_size env s _

theorem le_follow_len (n : Nat) : s.len ≤ (s.follow env n).len := le_grow_len env s _

/-- The walk to node `n` goes no further. -/
theorem follow_len_le (n : Nat) : (s.follow env n).len ≤ max s.len (n + 1) := by
  have := grow_len_le env s (n + 1 - s.len)
  unfold follow
  omega

/-- Nothing is allocated for a node that is there. -/
theorem follow_of_lt {n : Nat} (h : n < s.len) : s.follow env n = s := by
  rw [follow, Nat.sub_eq_zero_of_le h, grow]

@[simp] theorem ensureData_len (i : Nat) : (s.ensureData env i).len = s.len := by
  unfold ensureData
  split_ifs <;> rfl

@[simp] theorem ensureData_page (i : Nat) : (s.ensureData env i).page = s.page := by
  unfold ensureData
  split_ifs <;> rfl

@[simp] theorem ensureData_size (i : Nat) : (s.ensureData env i).size = s.size := by
  unfold ensureData
  split_ifs <;> rfl

@[simp] theorem ensurePage_len (k : Nat) : (s.ensurePage env k).len = s.len := by
  unfold ensurePage
  split_ifs <;> rfl

@[simp] theorem ensurePage_data (k : Nat) : (s.ensurePage env k).data = s.data := by
  unfold ensurePage
  split_ifs <;> rfl

@[simp] theorem ensurePage_size (k : Nat) : (s.ensurePage env k).size = s.size := by
  unfold ensurePage
  split_ifs <;> rfl

theorem le_lookup_len (p : Nat) : s.len ≤ (s.lookup env p).len := by
  unfold lookup
  split_ifs
  · exact Nat.le_refl _
  · exact le_follow_len env s _

@[simp] theorem lookup_page (p : Nat) : (s.lookup env p).page = s.page := by
  unfold lookup
  split_ifs
  · rfl
  · exact follow_page env s _

@[simp] theorem lookup_size (p : Nat) : (s.lookup env p).size = s.size := by
  unfold lookup
  split_ifs
  · rfl
  · exact follow_size env s _

@[simp] theorem allocate_size (p : Nat) : (s.allocate env p).size = s.size := by
  unfold allocate allocateAt
  dsimp only
  split_ifs <;> simp

theorem le_allocate_len (p : Nat) : s.len ≤ (s.allocate env p).len := by
  have hf := le_follow_len env s (p / 4000000)
  unfold allocate allocateAt
  dsimp only
  split_ifs
  · simpa using hf
  · simpa using hf
  · exact hf

theorem lookup_len_le (p : Nat) : (s.lookup env p).len ≤ max s.len (addrOf p / 4000000 + 1) := by
  unfold lookup
  split_ifs
  · exact Nat.le_max_left _ _
  · exact follow_len_le env s _

theorem allocate_len_le (p : Nat) : (s.allocate env p).len ≤ max s.len (p / 4000000 + 1) := by
  have hf := follow_len_le env s (p / 4000000)
  unfold allocate allocateAt
  dsimp only
  split_ifs
  · simpa using hf
  · simpa using hf
  · exact hf

/-- A page that is there is kept by the allocations of a write. -/
theorem allocate_page_of_some {p k : Nat} {b : Nat → UInt8} (h : s.page k = some b) :
    (s.allocate env p).page k = some b := by
  unfold allocate allocateAt
  dsimp only
  split_ifs
  · unfold ensurePage
    split_ifs with hs
    · simpa using h
    · by_cases hk : k = p / 4000
      · subst hk
        simp [h] at hs
      · simpa [addPage, hk] using h
    · simpa [countCall] using h
  · simpa using h
  · simpa using h

/-- The allocations of a write make no page but the one written. -/
theorem allocate_page_of_ne {p k : Nat} (h : k ≠ p / 4000) :
    (s.allocate env p).page k = s.page k := by
  unfold allocate allocateAt
  dsimp only
  split_ifs
  · unfold ensurePage
    split_ifs <;> simp [addPage, countCall, h]
  · simp
  · simp

end Grow

/-! ## Well-formedness is kept -/

namespace WfOf

variable {δ : Dims} {s : Store}

theorem empty (δ : Dims) : Store.empty.WfOf δ where
  len_le := Nat.le_refl _
  data_lt := by simp [Store.empty]
  page_data := by simp [Store.empty]

theorem trim (δ : Dims) (s : Store) : s.trim.WfOf δ where
  len_le := Nat.zero_le _
  data_lt := by simp [Store.trim]
  page_data := by simp [Store.trim]

theorem countCall (h : s.WfOf δ) : s.countCall.WfOf δ :=
  ⟨Nat.le_succ_of_le h.len_le, h.data_lt, h.page_data⟩

theorem addNode (h : s.WfOf δ) : s.addNode.WfOf δ where
  len_le := Nat.succ_le_succ h.len_le
  data_lt := fun i hi => Nat.lt_succ_of_lt (h.data_lt i hi)
  page_data := h.page_data

theorem grow (h : s.WfOf δ) (env : Env) (n : Nat) : (s.grow env n).WfOf δ := by
  induction n generalizing s with
  | zero => exact h
  | succ n ih =>
    rw [Store.grow]
    split
    · exact ih h.addNode
    · exact h.countCall

theorem addData (h : s.WfOf δ) {i : Nat} (hi : i < s.len) : (s.addData i).WfOf δ where
  len_le := Nat.le_succ_of_le h.len_le
  data_lt := by
    intro j hj
    by_cases hji : j = i
    · rw [hji]; exact hi
    · exact h.data_lt j (by simpa [Store.addData, hji] using hj)
  page_data := by
    intro k hk
    by_cases hki : k / δ.slots = i
    · simp [Store.addData, hki]
    · simpa [Store.addData, hki] using h.page_data k hk

theorem addPage (h : s.WfOf δ) {k : Nat} (hk : s.data (k / δ.slots) = true) (b : Nat → UInt8) :
    (s.addPage k b).WfOf δ where
  len_le := Nat.le_succ_of_le h.len_le
  data_lt := h.data_lt
  page_data := by
    intro j hj
    by_cases hjk : j = k
    · rw [hjk]; exact hk
    · exact h.page_data j (by simpa [Store.addPage, hjk] using hj)

theorem ensureData (h : s.WfOf δ) (env : Env) {i : Nat} (hi : i < s.len) :
    (s.ensureData env i).WfOf δ := by
  unfold Store.ensureData
  split_ifs
  · exact h
  · exact h.addData hi
  · exact h.countCall

theorem ensurePage (h : s.WfOf δ) (env : Env) {k : Nat} (hk : s.data (k / δ.slots) = true) :
    (s.ensurePage env k).WfOf δ := by
  unfold Store.ensurePage
  split_ifs
  · exact h
  · exact h.addPage hk _
  · exact h.countCall

theorem overlay (h : s.WfOf δ) (k off n : Nat) (src : Nat → Option UInt8) :
    (s.overlay k off n src).WfOf δ where
  len_le := h.len_le
  data_lt := h.data_lt
  page_data := by
    intro j hj
    refine h.page_data j ?_
    by_cases hjk : j = k
    · subst hjk
      simpa [Store.overlay] using hj
    · simpa [Store.overlay, Function.update_of_ne hjk] using hj

theorem extend (h : s.WfOf δ) (n : Nat) : (s.extend n).WfOf δ := ⟨h.len_le, h.data_lt, h.page_data⟩

theorem lookup (h : s.WfOf δ) (env : Env) (p : Nat) : (s.lookup env p).WfOf δ := by
  unfold Store.lookup
  split
  · exact h
  · exact h.grow env _

theorem page_lt (h : s.WfOf δ) {k : Nat} (hk : (s.page k).isSome) : k / δ.slots < s.len :=
  h.data_lt _ (h.page_data k hk)

theorem allocateAt (h : s.WfOf δ) (env : Env) {i k : Nat} (hk : k / δ.slots = i) :
    (s.allocateAt env i k).WfOf δ := by
  have hf : (s.follow env i).WfOf δ := h.grow env _
  unfold Store.allocateAt
  dsimp only
  split_ifs with hlt hd
  · exact (hf.ensureData env hlt).ensurePage env (by rw [hk]; exact hd)
  · exact hf.ensureData env hlt
  · exact hf

end WfOf

namespace Wf

variable {s : Store}

theorem page_data (h : s.Wf) {k : Nat} (hk : (s.page k).isSome) : s.data (k / 1000) = true :=
  WfOf.page_data h k hk

theorem page_lt (h : s.Wf) {k : Nat} (hk : (s.page k).isSome) : k / 1000 < s.len :=
  WfOf.page_lt h hk

theorem allocate (h : s.Wf) (env : Env) (a : Nat) : (s.allocate env a).Wf := by
  refine WfOf.allocateAt h env ?_
  rw [Dims.slots_std]
  omega

theorem write (h : s.Wf) (env : Env) (p count : Nat) (buf : Nat → UInt8) (copy : UserCopy) :
    (s.write env p count buf copy).1.Wf := by
  have ha := h.allocate env (addrOf p)
  unfold Store.write
  simp only
  split_ifs
  · exact ha.overlay _ _ _ _
  · exact (ha.overlay _ _ _ _).extend _
  · exact ha

theorem step (h : s.Wf) (env : Env) (c : Call) : (s.step env c).1.Wf := by
  cases c with
  | mevOpen fFlags =>
    unfold Store.step
    simp only
    split
    · exact WfOf.trim _ s
    · exact h
  | mevRead fPos count uncopied => exact h.lookup env fPos
  | mevWrite fPos count buf copy => exact h.write env fPos count buf copy
  | mevTrim => exact WfOf.trim _ s

end Wf

/-! ## The size stays covered -/

namespace Sized

variable {s : Store}

/-- A position below the size lies in a node of the list. -/
theorem item_lt (h : s.Sized) {p : Nat} (hp : p < s.size) : p / 4000000 < s.len := by
  unfold Sized at h
  omega

/-- A read then finds its node and changes nothing. -/
theorem lookup_eq (h : s.Sized) (env : Env) {p : Nat} (hp : p < listSpan) :
    s.lookup env p = s := by
  unfold Store.lookup
  split
  · rfl
  · rw [addrOf_of_lt hp]
    exact follow_of_lt env s (h.item_lt (by omega))

theorem lookup (h : s.Sized) (env : Env) (p : Nat) : (s.lookup env p).Sized := by
  have hlen := s.le_lookup_len env p
  unfold Sized at h ⊢
  rw [lookup_size]
  omega

theorem allocate (h : s.Sized) (env : Env) (a : Nat) : (s.allocate env a).Sized := by
  have hlen := s.le_allocate_len env a
  unfold Sized at h ⊢
  rw [allocate_size]
  omega

theorem write (h : s.Sized) (hw : s.Wf) (env : Env) {p : Nat} (hp : p < listSpan)
    (count : Nat) (buf : Nat → UInt8) (copy : UserCopy) :
    (s.write env p count buf copy).1.Sized := by
  have ha := h.allocate env p
  have hwf := hw.allocate env p
  unfold Store.write
  rw [addrOf_of_lt hp]
  simp only
  split_ifs with hpage hleft
  · exact ha
  · have hlt := hwf.page_lt hpage
    unfold Sized at ha
    show max (s.allocate env p).size (p + chunk p count) ≤ 4000000 * (s.allocate env p).len
    unfold chunk
    omega
  · exact ha

/-- **Calls whose positions the offset arithmetic can hold keep the size covered.** -/
theorem step (h : s.Sized) (hw : s.Wf) (env : Env) {c : Call} (hc : c.InRange) :
    (s.step env c).1.Sized := by
  cases c with
  | mevOpen fFlags =>
    unfold Store.step
    simp only
    split
    · exact Nat.zero_le _
    · exact h
  | mevRead fPos count uncopied =>
    show (s.lookup env fPos).Sized
    rw [h.lookup_eq env hc]
    exact h
  | mevWrite fPos count buf copy => exact h.write hw env hc count buf copy
  | mevTrim => exact Nat.zero_le _

end Sized

/-! ## Whatever the positions -/

/-- The list has no more nodes than a walk can make, and without a node there is no size. -/
structure Listed (s : Store) : Prop where
  len_le : s.len ≤ 2 ^ 32
  empty : s.len = 0 → s.size = 0

namespace Listed

variable {s : Store}

/-- A store whose list has grown to a node that a walk can reach. -/
theorem grown (h : s.Listed) {s' : Store} {a : Nat} (ha : a < listSpan) (hle : s.len ≤ s'.len)
    (hlen : s'.len ≤ max s.len (a / 4000000 + 1)) (hsize : s'.size = s.size) : s'.Listed where
  len_le := by
    have := h.len_le
    unfold listSpan at ha
    omega
  empty := by
    intro hnone
    rw [hsize]
    exact h.empty (by omega)

theorem lookup (h : s.Listed) (env : Env) (p : Nat) : (s.lookup env p).Listed :=
  h.grown (addrOf_lt p) (s.le_lookup_len env p) (s.lookup_len_le env p) (s.lookup_size env p)

theorem allocate (h : s.Listed) (env : Env) {a : Nat} (ha : a < listSpan) :
    (s.allocate env a).Listed :=
  h.grown ha (s.le_allocate_len env a) (s.allocate_len_le env a) (s.allocate_size env a)

theorem trim (s : Store) : s.trim.Listed where
  len_le := Nat.zero_le _
  empty := fun _ => rfl

end Listed

end Store

end LkmSandbox.Mev
