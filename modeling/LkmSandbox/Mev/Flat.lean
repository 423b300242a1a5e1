import LkmSandbox.Mev.Bytes
import LkmSandbox.Mev.Reach

/-!
# The device is a flat paged file

A flat file is a size and a partial map from page numbers to pages of 4000 bytes. `flat` reads it
off the memory: page `k` is there iff slot `k % 1000` of node `k / 1000` is allocated, and holds
the bytes of that quantum. `Simulates` says what each call does to the flat file, without nodes,
slots or arrays; `store_refines_flat` that the driver does it.
-/

namespace LkmSandbox.Mev

open Lib

abbrev Page := Fin 4000 → UInt8

structure FlatFile where
  size : Nat
  page : Nat → Option Page

namespace FlatFile

def empty : FlatFile := { size := 0, page := fun _ => none }

/-- The byte at offset `x`, when its page is there. -/
def byte (f : FlatFile) (x : Nat) : Option UInt8 :=
  (f.page (x / 4000)).map fun b => b ⟨x % 4000, Nat.mod_lt _ (by decide)⟩

/-- How many bytes a read of `count` delivers from a position inside the file. -/
def readLen (f : FlatFile) (p count : Nat) : Nat := min (min count (f.size - p)) (4000 - p % 4000)

/-- The reply of a read: nothing past the end or in a hole, else the bytes of the file. -/
def Read (f : FlatFile) (p count uncopied : Nat) (r : Reply) : Prop :=
  if f.size ≤ p ∨ f.page (p / 4000) = none then r = { retval := 0, fPos := p, delivered := [] }
  else
    let n := f.readLen p count
    r.delivered.map some = (List.range (n - uncopied)).map (fun i => f.byte (p + i)) ∧
      if min uncopied n = 0 then r.retval = n ∧ r.fPos = p + n
      else r.retval = -efault ∧ r.fPos = p

/-- `f'` is `f` with the page of `p` present and nothing changed outside `p`, …, `p + n - 1`. -/
structure Touched (f : FlatFile) (p n : Nat) (f' : FlatFile) : Prop where
  present : ∀ k, (f'.page k).isSome ↔ (f.page k).isSome ∨ k = p / 4000
  kept : ∀ x v, ¬ (p ≤ x ∧ x < p + n) → f.byte x = some v → f'.byte x = some v

/-- `f'` is `f` with the `n` bytes `buf` written at `p`. -/
structure Written (f : FlatFile) (p n : Nat) (buf : Nat → UInt8) (f' : FlatFile) : Prop
    extends Touched f p n f' where
  size : f'.size = max f.size (p + n)
  stored : ∀ i < n, f'.byte (p + i) = some (buf i)

end FlatFile

/-- The flat file a container holds. -/
def flat (m : Mem) : FlatFile where
  size := m.container.size
  page := fun k =>
    (quantumAt m (k / 1000) (k % 1000)).bind fun q =>
      match m.heap.blocks q with
      | some (.quantum _ b) => some fun i => b i
      | _ => none

/-- Every `kmalloc` between the two memories succeeded. -/
def AllocOk (env : Env) (m m' : Mem) : Prop := Store.AllOk env m.heap.calls m'.heap.calls

/-- What a call has to do to the flat file and to reply. -/
def Simulates (env : Env) (m : Mem) (c : Call) (r : Reply) (m' : Mem) : Prop :=
  match c with
  | .mevOpen fFlags => flat m' = if mevIoIsWronly fFlags then FlatFile.empty else flat m
  | .mevTrim => flat m' = FlatFile.empty
  | .mevRead p count uncopied => flat m' = flat m ∧ (flat m).Read p count uncopied r
  | .mevWrite p count buf copy =>
    let n := min count (4000 - p % 4000)
    (¬ AllocOk env m m' →
      flat m' = flat m ∧ r = { retval := -enomem, fPos := p, delivered := [] }) ∧
    (AllocOk env m m' → min copy.uncopied n = 0 →
      (flat m).Written p n buf (flat m') ∧ r.retval = n ∧ r.fPos = p + n) ∧
    (AllocOk env m m' → min copy.uncopied n ≠ 0 →
      (flat m).Touched p n (flat m') ∧ (flat m').size = (flat m).size ∧
        r = { retval := -efault, fPos := p, delivered := [] })

/-! ## The flat file of a store -/

variable {env : Env} {s : Store} {place : Place → Option Addr} {m : Mem}

def Store.flat (s : Store) : FlatFile where
  size := s.size
  page := fun k => (s.page k).map fun b i => b i

theorem Store.flat_byte (s : Store) (x : Nat) : s.flat.byte x = s.byte x := by
  simp [FlatFile.byte, Store.byte, Store.flat, Option.map_map, Function.comp_def]

theorem Store.flat_page_isSome (s : Store) (k : Nat) :
    (s.flat.page k).isSome = (s.page k).isSome := by
  simp [Store.flat]

theorem Store.flat_page_none (s : Store) (k : Nat) :
    s.flat.page k = none ↔ s.page k = none := by
  simp [Store.flat]

theorem Rep.flat_eq (h : Rep s place m) : Mev.flat m = s.flat := by
  unfold Mev.flat Store.flat
  rw [h.size]
  congr 1
  funext k
  rw [h.quantumAt_eq]
  have hk : Dims.std.slots * (k / 1000) + k % 1000 = k := by
    rw [Dims.slots_std]
    omega
  cases hq : place (.quantum (k / 1000) (k % 1000)) with
  | some q =>
    obtain ⟨b, hb, hblk⟩ := h.page hq
    rw [hk] at hb
    simp [hblk, hb]
  | none =>
    have hlt : k % 1000 < Dims.std.slots := Nat.mod_lt k (by decide)
    have hs := h.quantum_isSome (i := k / 1000) hlt
    rw [hq, hk] at hs
    have hn : s.page k = none := by simpa using hs.symm
    simp [hn]

/-! ## Read -/

theorem Store.readCount_eq (s : Store) {p count : Nat} (hp : p < s.size)
    (hc : p + count < 2 ^ 64) : s.readCount p count = min count (s.size - p) := by
  unfold Store.readCount
  rw [Nat.mod_eq_of_lt hc]
  split <;> omega

theorem Store.bytes_take (b : Nat → UInt8) (off n k : Nat) (hk : k ≤ n) :
    (Store.bytes b off n).take k = (List.range k).map fun i => b (off + i) := by
  unfold Store.bytes
  rw [← List.map_take, List.take_range, Nat.min_eq_left hk]

/-- The bytes of a page from `p` on are the bytes of the store. -/
theorem Store.bytes_map_some (s : Store) {p n : Nat} {b : Nat → UInt8}
    (hb : s.page (p / 4000) = some b) (hn : p % 4000 + n ≤ 4000) :
    ((List.range n).map fun i => b (p % 4000 + i)).map some
      = (List.range n).map fun i => s.byte (p + i) := by
  rw [List.map_map]
  apply List.map_congr_left
  intro i hi
  have hi := List.mem_range.mp hi
  simp only [Function.comp_apply, Store.byte]
  rw [show (p + i) / 4000 = p / 4000 by omega, hb, show (p + i) % 4000 = p % 4000 + i by omega]
  rfl

theorem Store.read_flat (s : Store) {p count : Nat} (hp : p < listSpan)
    (hc : count < 2 ^ 31) (uncopied : Nat) :
    s.flat.Read p count uncopied (s.read p count uncopied) := by
  unfold FlatFile.Read Store.read
  rw [addrOf_of_lt hp]
  by_cases hsz : s.size ≤ p
  · have hsz' : s.flat.size ≤ p := hsz
    rw [if_pos (Or.inl hsz'), if_pos hsz]
  · rw [if_neg hsz]
    cases hb : s.page (p / 4000) with
    | none => rw [if_pos (Or.inr ((s.flat_page_none _).mpr hb))]
    | some b =>
      rw [if_neg (by rw [s.flat_page_none, hb]; simpa [Store.flat] using hsz)]
      have hn : s.flat.readLen p count = Store.chunk p (s.readCount p count) := by
        have hvalid := valid_of_lt_listSpan hp
        rw [s.readCount_eq (by omega) (by omega)]
        rfl
      simp only
      rw [hn]
      have hle := Store.chunk_le p (s.readCount p count)
      generalize Store.chunk p (s.readCount p count) = n at hle ⊢
      have hbytes : ((Store.bytes b (p % 4000) n).take (n - uncopied)).map some
          = (List.range (n - uncopied)).map fun i => s.flat.byte (p + i) := by
        rw [Store.bytes_take _ _ _ _ (Nat.sub_le _ _), s.bytes_map_some hb (by omega)]
        simp only [s.flat_byte]
      unfold readReply
      by_cases hl : min uncopied n = 0
      · rw [if_neg (not_not.mpr hl), if_pos hl]
        exact ⟨hbytes, rfl, rfl⟩
      · rw [if_pos hl, if_neg hl]
        exact ⟨hbytes, rfl, rfl⟩

/-- The nodes a read may append are not seen. -/
theorem Store.lookup_flat (env : Env) (p : Nat) (s : Store) : (s.lookup env p).flat = s.flat := by
  unfold flat
  rw [lookup_page, lookup_size]

/-! ## Write -/

/-- Overlaying the page of a write touches its range only. -/
theorem Store.touched_overlay {p : Nat} (hp : ((s.allocate env p).page (p / 4000)).isSome)
    (count : Nat) (src : Nat → Option UInt8) :
    s.flat.Touched p (chunk p count)
      ((s.allocate env p).overlay (p / 4000) (p % 4000) (chunk p count) src).flat where
  present := by
    intro k
    rw [flat_page_isSome, flat_page_isSome, overlay_page_isSome]
    exact allocate_present hp k
  kept := by
    intro x v hx hv
    rw [flat_byte] at hv ⊢
    rw [byte_overlay_of_not_mem src hx]
    exact byte_allocate_of_some hv

/-- Without its page a write leaves the pages as they were. -/
theorem Store.flat_allocate_of_none {p : Nat} (hp : ¬ ((s.allocate env p).page (p / 4000)).isSome) :
    (s.allocate env p).flat = s.flat := by
  unfold flat
  rw [allocate_page_of_none hp, allocate_size]

theorem Store.written_overlay {p : Nat} (hp : ((s.allocate env p).page (p / 4000)).isSome)
    (count : Nat) (buf : Nat → UInt8) :
    s.flat.Written p (chunk p count) buf
      (((s.allocate env p).overlay (p / 4000) (p % 4000) (chunk p count)
        fun i => some (buf i)).extend (p + chunk p count)).flat where
  toTouched :=
    have ht := touched_overlay hp count fun i => some (buf i)
    ⟨ht.present, ht.kept⟩
  size := by
    show max (s.allocate env p).size _ = max s.size _
    rw [allocate_size]
  stored := by
    intro i hi
    have hle := chunk_le p count
    rw [flat_byte, byte_extend, byte_overlay_of_mem _ (by omega),
      show p + i - p = i by omega]
    have hs := (s.allocate env p).byte_isSome (p + i)
    rw [show (p + i) / 4000 = p / 4000 by omega, hp] at hs
    obtain ⟨v, hv⟩ := Option.isSome_iff_exists.mp hs
    rw [hv]
    rfl

/-- The calls a write makes are those of its allocations. -/
theorem Store.write_calls (env : Env) (p count : Nat) (buf : Nat → UInt8) (copy : UserCopy)
    (s : Store) : (s.write env p count buf copy).1.calls = (s.allocate env (addrOf p)).calls := by
  unfold write
  simp only
  split
  · split <;> rfl
  · rfl

/-! ## Every call -/

/-- The size of a read is capped by the VFS, so that `*f_pos + count` does not wrap. -/
def Call.Capped : Call → Prop
  | .mevRead _ count _ => count < 2 ^ 31
  | _ => True

/-- **One call simulates the flat file.** -/
theorem simulates_step (env : Env) {c : Call} (hm : Represents m s) (hr : c.InRange)
    (hc : c.Capped) :
    ∃ m', step env m c = .ok (m', (s.step env c).2) ∧ Represents m' (s.step env c).1 ∧
      Simulates env m c (s.step env c).2 m' := by
  obtain ⟨place, h, hi⟩ := hm
  obtain ⟨m', place', he, h', hi'⟩ := step_spec env h hi hr.valid
  refine ⟨m', he, ⟨place', h', hi'⟩, ?_⟩
  cases c with
  | mevOpen fFlags =>
    unfold Simulates
    simp only
    rw [h'.flat_eq, h.flat_eq]
    unfold Store.step
    simp only
    by_cases hw : mevIoIsWronly fFlags
    · rw [if_pos hw, if_pos hw]
      rfl
    · rw [if_neg hw, if_neg hw]
  | mevTrim =>
    unfold Simulates
    simp only
    rw [h'.flat_eq]
    rfl
  | mevRead p count uncopied =>
    unfold Simulates
    simp only
    rw [h'.flat_eq, h.flat_eq]
    exact ⟨s.lookup_flat env p, s.read_flat hr hc uncopied⟩
  | mevWrite p count buf copy =>
    have hp : addrOf p = p := addrOf_of_lt hr
    unfold Simulates
    simp only
    -- the three cases of `Simulates` are those of `Store.write`
    have halloc : AllocOk env m m' ↔ ((s.allocate env p).page (p / 4000)).isSome := by
      rw [Store.allocate_page_isSome env h.wf p]
      unfold AllocOk
      rw [h.calls, h'.calls]
      show Store.AllOk env s.calls (s.write env p count buf copy).1.calls ↔ _
      rw [Store.write_calls, hp]
    rw [halloc, h'.flat_eq, h.flat_eq]
    show _ ∧ (_ → min copy.uncopied (Store.chunk p count) = 0 → _) ∧
      (_ → min copy.uncopied (Store.chunk p count) ≠ 0 → _)
    unfold Store.step Store.write
    simp only [hp]
    refine ⟨?_, ?_, ?_⟩
    · intro hp
      rw [if_neg hp]
      exact ⟨Store.flat_allocate_of_none hp, rfl⟩
    · intro hp hl
      rw [if_pos hp, if_neg (not_not.mpr hl)]
      exact ⟨Store.written_overlay hp count buf, rfl, rfl⟩
    · intro hp hl
      rw [if_pos hp, if_pos hl]
      refine ⟨Store.touched_overlay hp count _, ?_, rfl⟩
      show (s.allocate env p).size = s.size
      rw [Store.allocate_size]

/--
**Every call of every sequence simulates the flat file**, which starts empty.
-/
theorem store_refines_flat (env : Env) (cs : List Call) (c : Call)
    (hr : ∀ d ∈ cs ++ [c], d.InRange ∧ d.Capped) :
    flat trimmed = FlatFile.empty ∧
    ∃ m rs m' r, run env trimmed cs = .ok (m, rs) ∧ step env m c = .ok (m', r) ∧
      Simulates env m c r m' := by
  refine ⟨rep_trimmed.flat_eq, ?_⟩
  obtain ⟨m, he, hm⟩ := run_simulates env cs fun d hd => (hr d (List.mem_append_left _ hd)).1.valid
  obtain ⟨hcr, hcc⟩ := hr c (List.mem_append_right _ List.mem_cons_self)
  obtain ⟨m', hs, -, hsim⟩ := simulates_step env hm hcr hcc
  exact ⟨m, _, m', _, he, hs, hsim⟩

theorem store_refines_flat_write_read :
    let env := Env.granting fun _ _ => 0
    let cs : List Call := [.mevWrite 4001 3 (fun _ => 7) UserCopy.ok]
    let c : Call := .mevRead 4002 9 0
    flat trimmed = FlatFile.empty ∧
    ∃ m rs m' r, run env trimmed cs = .ok (m, rs) ∧ step env m c = .ok (m', r) ∧
      Simulates env m c r m' :=
  store_refines_flat _ _ _ (by simp [Call.InRange, Call.Capped, listSpan])

end LkmSandbox.Mev
