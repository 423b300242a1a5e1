import LkmSandbox.Mev.Bytes
import LkmSandbox.Mev.Calls
import Mathlib.Data.Set.Basic

/-!
# What reads tell of uninitialised memory

`mev_write` clears a new list node and a new array, but not a new quantum. Two runs whose fresh
blocks hold different bytes can then be told apart by a read. This file says exactly when they can.

* `Store.blank` — the store less its bytes. Which memory a call gets is decided there
  (`step_blank`), so it is the same in both runs.
* `Call.Covered` — the call leaves no byte below the size unwritten, unless it lies in a hole
* `reads_disclose_nothing_iff` — every call of a run is covered iff no read, wherever it is put in
  the run, depends on what fresh blocks hold
-/

namespace LkmSandbox.Mev

open Lib

/-- `kmalloc` with the outcomes `ok`, its fresh blocks holding `junk`. -/
abbrev envOf (ok : Nat → Bool) (junk : Nat → Nat → UInt8) : Env := { kmallocOk := ok, junk }

/-- The same, when only the outcomes count. -/
abbrev okEnv (ok : Nat → Bool) : Env := envOf ok fun _ _ => 0

/-! ## The store less its bytes -/

namespace Store

variable {ok : Nat → Bool} {junk : Nat → Nat → UInt8} {s t b : Store}

def blank (s : Store) : Store := { s with page := fun k => (s.page k).map fun _ _ => 0 }

theorem blank_page_isSome (s : Store) (k : Nat) : (s.blank.page k).isSome = (s.page k).isSome := by
  simp [blank]

theorem blank_blank (s : Store) : s.blank.blank = s.blank := by
  simp [blank, Option.map_map, Function.comp_def]

theorem blank_overlay (k off n : Nat) (src : Nat → Option UInt8) :
    (s.overlay k off n src).blank = s.blank := by
  unfold overlay blank
  congr 1
  funext k'
  by_cases hk : k' = k
  · subst hk
    simp [Option.map_map, Function.comp_def]
  · simp [hk]

theorem blank_grow (junk : Nat → Nat → UInt8) (n : Nat) (s : Store) :
    (s.grow (envOf ok junk) n).blank = s.blank.grow (okEnv ok) n := by
  induction n generalizing s with
  | zero => rfl
  | succ n ih =>
    rw [grow, grow, show s.blank.calls = s.calls from rfl]
    split
    · exact ih s.addNode
    · rfl

theorem blank_ensureData (junk : Nat → Nat → UInt8) (i : Nat) (s : Store) :
    (s.ensureData (envOf ok junk) i).blank = s.blank.ensureData (okEnv ok) i := by
  unfold ensureData
  rw [show s.blank.data = s.data from rfl, show s.blank.calls = s.calls from rfl]
  split_ifs <;> rfl

theorem blank_ensurePage (junk : Nat → Nat → UInt8) (k : Nat) (s : Store) :
    (s.ensurePage (envOf ok junk) k).blank = (s.blank.ensurePage (okEnv ok) k) := by
  unfold ensurePage
  rw [blank_page_isSome, show s.blank.calls = s.calls from rfl]
  split_ifs
  · rfl
  · unfold addPage blank
    congr 1
    funext k'
    by_cases hk : k' = k
    · subst hk
      simp
    · simp [hk]
  · rfl

/-- Which memory a write gets does not depend on bytes. -/
theorem blank_allocate (junk : Nat → Nat → UInt8) (a : Nat) (s : Store) :
    (s.allocate (envOf ok junk) a).blank = s.blank.allocate (okEnv ok) a := by
  unfold allocate allocateAt
  simp only
  have hf : (s.follow (envOf ok junk) (a / 4000000)).blank
      = s.blank.follow (okEnv ok) (a / 4000000) := blank_grow junk _ s
  rw [← hf]
  generalize s.follow (envOf ok junk) (a / 4000000) = s₁
  rw [show s₁.blank.len = s₁.len from rfl, ← blank_ensureData junk]
  generalize s₁.ensureData (envOf ok junk) (a / 4000000) = s₂
  rw [show s₂.blank.data = s₂.data from rfl, ← blank_ensurePage junk]
  split_ifs <;> rfl

theorem blank_write (p count : Nat) (buf : Nat → UInt8) (copy : UserCopy) (s : Store) :
    (s.write (envOf ok junk) p count buf copy).1.blank
      = (s.blank.write (okEnv ok) p count buf copy).1.blank := by
  unfold write
  simp only
  rw [← blank_allocate junk, blank_page_isSome]
  generalize s.allocate (envOf ok junk) (addrOf p) = s'
  have hext : ∀ (u : Store) (n : Nat), (u.extend n).blank = u.blank.extend n := fun _ _ => rfl
  split_ifs
  · rw [blank_overlay, blank_overlay, blank_blank]
  · rw [hext, hext, blank_overlay, blank_overlay, blank_blank]
  · rw [blank_blank]

/-- **The store less its bytes steps on its own.** -/
theorem step_blank (c : Call) (s : Store) :
    (s.step (envOf ok junk) c).1.blank = (s.blank.step (okEnv ok) c).1.blank := by
  cases c with
  | mevOpen fFlags =>
    unfold step
    simp only
    split_ifs
    · rfl
    · exact (blank_blank s).symm
  | mevRead p count uncopied =>
    show (s.lookup _ p).blank = (s.blank.lookup _ p).blank
    unfold lookup
    rw [show s.blank.size = s.size from rfl]
    split_ifs
    · exact (blank_blank s).symm
    · unfold follow
      rw [show s.blank.len = s.len from rfl, ← blank_grow junk, blank_blank]
  | mevWrite p count buf copy => exact blank_write p count buf copy s
  | mevTrim => rfl

theorem isSome_of_blank (hb : s.blank = b) (k : Nat) : (s.page k).isSome = (b.page k).isSome := by
  rw [← hb, blank_page_isSome]

theorem size_of_blank (hb : s.blank = b) : s.size = b.size := by
  rw [← hb]
  rfl

end Store

/-! ## What has been written -/

/-- The addresses at which a call stores a byte: all of a copy, or what a failed one left there. -/
def Call.stores (ok : Nat → Bool) (b : Store) : Call → Set Nat
  | .mevWrite p count _ copy =>
    {x | ((b.allocate (okEnv ok) (addrOf p)).page (addrOf p / 4000)).isSome ∧
      (addrOf p ≤ x ∧ x < addrOf p + Store.chunk p count) ∧
      (min copy.uncopied (Store.chunk p count) = 0 ∨ (copy.clobber (x - addrOf p)).isSome)}
  | _ => ∅

/-- The addresses written since the last trim, after a call. -/
def Call.written (ok : Nat → Bool) (b : Store) (D : Set Nat) (c : Call) : Set Nat :=
  match c with
  | .mevOpen fFlags => if mevIoIsWronly fFlags then ∅ else D
  | .mevTrim => ∅
  | .mevRead .. => D
  | .mevWrite .. => D ∪ c.stores ok b

/--
A write that gets its memory leaves nothing unwritten below the size it arrives at, in its own page
or in one that is there: what it does not store itself was written before.
-/
def Call.Covered (ok : Nat → Bool) (b : Store) (D : Set Nat) (c : Call) : Prop :=
  match c with
  | .mevWrite p count _ copy =>
    ((b.allocate (okEnv ok) (addrOf p)).page (addrOf p / 4000)).isSome →
      ∀ x < if min copy.uncopied (Store.chunk p count) = 0 then max b.size (p + Store.chunk p count)
          else b.size,
        (b.page (addrOf x / 4000)).isSome ∨ addrOf x / 4000 = addrOf p / 4000 →
          addrOf x ∈ D ∪ c.stores ok b
  | _ => True

/-- Every call of a run is covered, from a store and the addresses written in it. -/
def CoveredFrom (ok : Nat → Bool) : Store → Set Nat → List Call → Prop
  | _, _, [] => True
  | b, D, c :: cs =>
    c.Covered ok b D ∧ CoveredFrom ok (b.step (okEnv ok) c).1.blank (c.written ok b D) cs

/-- Every byte below the size is written or lies in a hole. -/
def Store.Clean (b : Store) (D : Set Nat) : Prop :=
  ∀ x < b.size, (b.page (addrOf x / 4000)).isSome → addrOf x ∈ D

section Clean

variable {ok : Nat → Bool} {b : Store} {D : Set Nat}

theorem clean_blank (b : Store) (D : Set Nat) : b.blank.Clean D ↔ b.Clean D := by
  unfold Store.Clean
  simp only [Store.blank_page_isSome]
  rfl

/-- **A covered call is one that keeps the store clean.** -/
theorem clean_step_iff (h : b.Clean D) (c : Call) :
    (b.step (okEnv ok) c).1.blank.Clean (c.written ok b D) ↔ c.Covered ok b D := by
  rw [clean_blank]
  cases c with
  | mevOpen fFlags =>
    refine iff_of_true ?_ trivial
    unfold Store.step Call.written
    simp only
    split_ifs
    · exact fun x hx => absurd hx (Nat.not_lt_zero x)
    · exact h
  | mevTrim => exact iff_of_true (fun x hx => absurd hx (Nat.not_lt_zero x)) trivial
  | mevRead p count uncopied =>
    refine iff_of_true ?_ trivial
    unfold Store.step Call.written Store.Clean
    simp only [Store.lookup_page, Store.lookup_size]
    exact h
  | mevWrite p count buf copy =>
    unfold Call.Covered Call.written Store.step
    simp only
    by_cases hp : ((b.allocate (okEnv ok) (addrOf p)).page (addrOf p / 4000)).isSome
    · unfold Store.Clean
      simp only [Store.write_size hp, Store.write_page_isSome hp]
      exact ⟨fun hc _ => hc, fun hc => hc hp⟩
    · rw [Store.write_of_none hp]
      refine iff_of_true (fun x hx hpx => Or.inl (h x ?_ ?_)) fun hc => absurd hc hp
      · simpa using hx
      · by_cases hk : addrOf x / 4000 = addrOf p / 4000
        · simp only [hk] at hpx
          exact absurd hpx hp
        · simp only [Store.allocate_page_of_ne _ _ hk] at hpx
          exact hpx

end Clean

/-! ## Two runs -/

/-- Two stores that differ at most in bytes not in `D`. -/
structure Agree (b : Store) (D : Set Nat) (s t : Store) : Prop where
  left : s.blank = b
  right : t.blank = b
  bytes : ∀ x ∈ D, ∃ v, s.byte x = some v ∧ t.byte x = some v

section Agree

variable {ok : Nat → Bool} {j₁ j₂ : Nat → Nat → UInt8} {b s t : Store} {D : Set Nat}

theorem Agree.empty : Agree Store.empty ∅ Store.empty Store.empty :=
  ⟨rfl, rfl, fun x hx => absurd hx (Set.notMem_empty x)⟩

theorem Agree.page_isSome (h : Agree b D s t) (k : Nat) :
    (s.page k).isSome = (t.page k).isSome := by
  rw [Store.isSome_of_blank h.left, Store.isSome_of_blank h.right]

theorem Agree.size (h : Agree b D s t) : s.size = t.size := by
  rw [Store.size_of_blank h.left, Store.size_of_blank h.right]

/-- Both runs get the same memory for a write. -/
theorem Agree.allocate_isSome (h : Agree b D s t) (ok : Nat → Bool) (j₁ j₂ : Nat → Nat → UInt8)
    (a k : Nat) :
    ((s.allocate (envOf ok j₁) a).page k).isSome = ((b.allocate (okEnv ok) a).page k).isSome ∧
      ((t.allocate (envOf ok j₂) a).page k).isSome
        = ((b.allocate (okEnv ok) a).page k).isSome := by
  rw [← Store.blank_page_isSome, ← Store.blank_page_isSome (t.allocate _ a), Store.blank_allocate,
    Store.blank_allocate, h.left, h.right]
  exact ⟨rfl, rfl⟩

/-- Bytes a write stores are the same in both runs, and so are those it keeps. -/
theorem Agree.write (h : Agree b D s t) (p count : Nat) (buf : Nat → UInt8) (copy : UserCopy) :
    ∀ x ∈ D ∪ (Call.mevWrite p count buf copy).stores ok b,
      ∃ v, (s.write (envOf ok j₁) p count buf copy).1.byte x = some v ∧
        (t.write (envOf ok j₂) p count buf copy).1.byte x = some v := by
  intro x hx
  obtain ⟨hs, ht⟩ := h.allocate_isSome ok j₁ j₂ (addrOf p) (addrOf p / 4000)
  have hkeep : x ∈ D → ∃ v, (s.allocate (envOf ok j₁) (addrOf p)).byte x = some v ∧
      (t.allocate (envOf ok j₂) (addrOf p)).byte x = some v := by
    intro hD
    obtain ⟨v, hsv, htv⟩ := h.bytes x hD
    exact ⟨v, Store.byte_allocate_of_some hsv, Store.byte_allocate_of_some htv⟩
  by_cases hp : ((b.allocate (okEnv ok) (addrOf p)).page (addrOf p / 4000)).isSome
  · rw [hp] at hs ht
    rw [Store.byte_write hs, Store.byte_write ht]
    rcases hx with hD | ⟨-, hrange, hstored⟩
    · obtain ⟨v, hsv, htv⟩ := hkeep hD
      rw [hsv, htv]
      split_ifs
      · exact ⟨_, rfl, rfl⟩
      · exact ⟨v, rfl, rfl⟩
    · -- the page is there in both runs, and what is laid over it does not depend on the run
      have hle := Store.chunk_le p count
      have hk : x / 4000 = addrOf p / 4000 := by
        have := addrOf_mod p
        omega
      have hsb := (s.allocate (envOf ok j₁) (addrOf p)).byte_isSome x
      have htb := (t.allocate (envOf ok j₂) (addrOf p)).byte_isSome x
      rw [hk, hs] at hsb
      rw [hk, ht] at htb
      obtain ⟨v, hv⟩ := Option.isSome_iff_exists.mp hsb
      obtain ⟨w, hw⟩ := Option.isSome_iff_exists.mp htb
      have hlaid : (Store.laid p count buf copy (x - addrOf p)).isSome := by
        unfold Store.laid
        rcases hstored with h0 | hc
        · rw [if_pos h0]
          rfl
        · split_ifs
          · rfl
          · exact hc
      obtain ⟨u, hu⟩ := Option.isSome_iff_exists.mp hlaid
      rw [if_pos hrange, if_pos hrange, hv, hw, hu]
      exact ⟨u, rfl, rfl⟩
  · rcases hx with hD | ⟨hp', -⟩
    · rw [Store.write_of_none (by rw [hs]; exact hp), Store.write_of_none (by rw [ht]; exact hp)]
      exact hkeep hD
    · exact absurd hp' hp

/-- **One call of both runs.** -/
theorem Agree.step (h : Agree b D s t) (ok : Nat → Bool) (j₁ j₂ : Nat → Nat → UInt8) (c : Call) :
    Agree (b.step (okEnv ok) c).1.blank (c.written ok b D) (s.step (envOf ok j₁) c).1
      (t.step (envOf ok j₂) c).1 where
  left := by rw [Store.step_blank, h.left]
  right := by rw [Store.step_blank, h.right]
  bytes := by
    cases c with
    | mevOpen fFlags =>
      unfold Call.written Store.step
      simp only
      split_ifs
      · exact fun x hx => absurd hx (Set.notMem_empty x)
      · exact h.bytes
    | mevTrim => exact fun x hx => absurd hx (Set.notMem_empty x)
    | mevRead p count uncopied =>
      intro x hx
      have hbyte : ∀ (env : Env) (u : Store), (u.lookup env p).byte x = u.byte x := by
        intro env u
        rw [Store.byte, Store.byte, Store.lookup_page]
      obtain ⟨v, hs, ht⟩ := h.bytes x hx
      exact ⟨v, (hbyte _ s).trans hs, (hbyte _ t).trans ht⟩
    | mevWrite p count buf copy => exact h.write p count buf copy

/-- The positions of one transfer lie in one page. -/
theorem addrOf_add {p i : Nat} (hi : p % 4000 + i < 4000) : addrOf (p + i) = addrOf p + i := by
  unfold addrOf listSpan
  omega

/-- **In a clean store a read delivers written bytes only**, so both runs deliver the same. -/
theorem Agree.read_eq (h : Agree b D s t) (hclean : b.Clean D) {p count : Nat} (hp : p < 2 ^ 63)
    (hc : count < 2 ^ 63) (uncopied : Nat) : s.read p count uncopied = t.read p count uncopied := by
  have hcount : s.readCount p count = t.readCount p count := by
    unfold Store.readCount
    rw [h.size]
  have hpage := h.page_isSome (addrOf p / 4000)
  unfold Store.read
  rw [← h.size]
  split_ifs with hsz
  · rfl
  · cases hs : s.page (addrOf p / 4000) with
    | none =>
      rw [hs] at hpage
      have ht : t.page (addrOf p / 4000) = none := by simpa using hpage.symm
      rw [ht]
    | some u =>
      rw [hs] at hpage
      obtain ⟨w, ht⟩ := Option.isSome_iff_exists.mp hpage.symm
      rw [ht]
      simp only
      rw [← hcount]
      have hle := Store.chunk_le p (s.readCount p count)
      -- `count` is cut at the size of the container, so every byte that is read lies below it
      have hend : p + Store.chunk p (s.readCount p count) ≤ s.size := by
        unfold Store.chunk Store.readCount
        rw [Nat.mod_eq_of_lt (show p + count < 2 ^ 64 by omega)]
        split <;> omega
      generalize Store.chunk p (s.readCount p count) = n at hle hend
      have hbytes : Store.bytes u (p % 4000) n = Store.bytes w (p % 4000) n := by
        apply List.map_congr_left
        intro i hi
        have hi := List.mem_range.mp hi
        have haddr := addrOf_add (p := p) (i := i) (by omega)
        have hmod := addrOf_mod p
        have hk : addrOf (p + i) / 4000 = addrOf p / 4000 := by omega
        have hmem : addrOf (p + i) ∈ D := by
          refine hclean (p + i) ?_ ?_
          · rw [← Store.size_of_blank h.left]
            omega
          · rw [hk, ← Store.isSome_of_blank h.left, hs]
            rfl
        obtain ⟨v, hsv, htv⟩ := h.bytes _ hmem
        rw [Store.byte, hk, haddr, show (addrOf p + i) % 4000 = p % 4000 + i by omega] at hsv htv
        rw [hs] at hsv
        rw [ht] at htv
        exact (Option.some.inj hsv).trans (Option.some.inj htv).symm
      rw [hbytes]

/-- `*f_pos` is non-negative, and so is `count` as a `ssize_t`: the VFS passes nothing else. -/
def Call.Accepted : Call → Prop
  | .mevRead fPos count _ => fPos < 2 ^ 63 ∧ count < 2 ^ 63
  | .mevWrite fPos _ _ _ => fPos < 2 ^ 63
  | _ => True

theorem Agree.reply_eq (h : Agree b D s t) (hclean : b.Clean D) {c : Call} (hc : c.Accepted) :
    (s.step (envOf ok j₁) c).2 = (t.step (envOf ok j₂) c).2 := by
  cases c with
  | mevOpen fFlags => rfl
  | mevTrim => rfl
  | mevRead p count uncopied => exact h.read_eq hclean hc.1 hc.2 uncopied
  | mevWrite p count buf copy =>
    obtain ⟨hs, ht⟩ :=
      h.allocate_isSome ok j₁ j₂ (addrOf p) (addrOf p / 4000)
    unfold Store.step Store.write
    simp only
    rw [hs, ht]
    split_ifs <;> rfl

end Agree

/-! ## Telling two runs apart -/

/-- All bytes outside `D` have the value that fresh blocks hold. -/
def Tainted (v : UInt8) (D : Set Nat) (s : Store) : Prop := ∀ x ∉ D, ∀ w, s.byte x = some w → w = v

section Tainted

variable {ok : Nat → Bool} {b s t : Store} {D : Set Nat} {v : UInt8}

theorem Tainted.allocate (h : Tainted v D s) (ok : Nat → Bool) (a : Nat) :
    Tainted v D (s.allocate (envOf ok fun _ _ => v) a) := by
  intro x hx w hw
  unfold Store.byte at hw
  rcases Store.allocate_page_cases (envOf ok fun _ _ => v) s a (x / 4000) with hk | ⟨n, hk⟩
  · rw [hk] at hw
    exact h x hx w hw
  · rw [hk] at hw
    exact (Option.some.inj hw).symm

/-- A byte that is not written keeps the value it had in its fresh block. -/
theorem Tainted.step (h : Tainted v D s) (ok : Nat → Bool) (hb : s.blank = b) (c : Call) :
    Tainted v (c.written ok b D) (s.step (envOf ok fun _ _ => v) c).1 := by
  cases c with
  | mevOpen fFlags =>
    unfold Call.written Store.step
    simp only
    split_ifs
    · intro x _ w hw
      simp [Store.byte, Store.trim] at hw
    · exact h
  | mevTrim =>
    intro x _ w hw
    simp [Store.step, Store.byte, Store.trim] at hw
  | mevRead p count uncopied =>
    intro x hx w hw
    simp only [Store.step, Store.byte, Store.lookup_page] at hw
    exact h x hx w hw
  | mevWrite p count buf copy =>
    have ha := h.allocate ok (addrOf p)
    intro x hx w hw
    obtain ⟨hD, hst⟩ := not_or.mp hx
    change (s.write _ p count buf copy).1.byte x = some w at hw
    by_cases hp : ((s.allocate (envOf ok fun _ _ => v) (addrOf p)).page (addrOf p / 4000)).isSome
    · rw [Store.byte_write hp] at hw
      rw [← Store.blank_page_isSome, Store.blank_allocate, hb] at hp
      split_ifs at hw with hrange
      · obtain ⟨u, hu, rfl⟩ := Option.map_eq_some_iff.mp hw
        have hnot : ¬ (min copy.uncopied (Store.chunk p count) = 0 ∨
            (copy.clobber (x - addrOf p)).isSome) := fun hc => hst ⟨hp, hrange, hc⟩
        obtain ⟨h0, hcl⟩ := not_or.mp hnot
        have hlaid : Store.laid p count buf copy (x - addrOf p) = none := by
          unfold Store.laid
          rw [if_neg h0]
          simpa using hcl
        rw [hlaid]
        exact ha x hD u hu
      · exact ha x hD w hw
    · rw [Store.write_of_none hp] at hw
      exact ha x hD w hw

/-- A read of one byte. -/
theorem read_one {x : Nat} (hx : x < s.size) (ha : addrOf x = x) (hw : s.byte x = some v) :
    (s.read x 1 0).delivered = [v] := by
  obtain ⟨u, hu, rfl⟩ := Option.map_eq_some_iff.mp hw
  have hn : Store.chunk x (s.readCount x 1) = 1 := by
    have : x < 2 ^ 32 * 4000000 := by
      rw [← ha]
      exact Nat.mod_lt _ (by decide)
    unfold Store.chunk Store.readCount
    rw [Nat.mod_eq_of_lt (by omega)]
    split <;> omega
  unfold Store.read
  rw [if_neg (Nat.not_le_of_lt hx), ha, hu]
  simp only [hn]
  rfl

/-- **Where a store is not clean, a read of one byte tells the runs apart.** -/
theorem Agree.clean_of_read (h : Agree b D s t) (hs : Tainted 0 D s) (ht : Tainted 1 D t)
    (hread : ∀ p, p < 2 ^ 63 → s.read p 1 0 = t.read p 1 0) : b.Clean D := by
  intro x hx hpage
  by_contra hD
  have hidem : addrOf (addrOf x) = addrOf x := Nat.mod_mod x _
  have hle : addrOf x ≤ x := Nat.mod_le x _
  rw [← Store.isSome_of_blank h.left, ← Store.byte_isSome] at hpage
  obtain ⟨u, hu⟩ := Option.isSome_iff_exists.mp hpage
  rw [Store.byte_isSome, h.page_isSome, ← Store.byte_isSome] at hpage
  obtain ⟨w, hw⟩ := Option.isSome_iff_exists.mp hpage
  have hsz := Store.size_of_blank h.left
  have hst := h.size
  have hds := read_one (by omega) hidem hu
  have hdt := read_one (by omega) hidem hw
  -- the byte was never written, so one run reads 0 and the other 1
  rw [hread (addrOf x) (valid_of_lt_listSpan (addrOf_lt x)), hdt, hs _ hD u hu, ht _ hD w hw] at hds
  exact absurd hds (by decide)

end Tainted

/-! ## Runs -/

section Runs

variable {ok : Nat → Bool} {j₁ j₂ : Nat → Nat → UInt8} {b s t : Store} {D : Set Nat}

theorem run_append_read (env : Env) (p count uncopied : Nat) : ∀ (s : Store) (cs : List Call),
    (s.run env (cs ++ [.mevRead p count uncopied])).2
      = (s.run env cs).2 ++ [((s.run env cs).1).read p count uncopied]
  | _, [] => rfl
  | s, c :: cs =>
    congrArg ((s.step env c).2 :: ·) (run_append_read env p count uncopied (s.step env c).1 cs)

/-- Covered calls keep both runs in agreement. -/
theorem Agree.run (j₁ j₂ : Nat → Nat → UInt8) (cs : List Call) :
    ∀ {b s t : Store} {D : Set Nat}, Agree b D s t → b.Clean D → CoveredFrom ok b D cs →
    (∀ c ∈ cs, c.Accepted) →
    (s.run (envOf ok j₁) cs).2 = (t.run (envOf ok j₂) cs).2 ∧
      ∃ b' D', Agree b' D' (s.run (envOf ok j₁) cs).1 (t.run (envOf ok j₂) cs).1 ∧ b'.Clean D' := by
  induction cs with
  | nil => exact fun h hclean _ _ => ⟨rfl, _, _, h, hclean⟩
  | cons c cs ih =>
    intro b s t D h hclean hcov hacc
    have hr : (s.step (envOf ok j₁) c).2 = (t.step (envOf ok j₂) c).2 :=
      h.reply_eq hclean (hacc c List.mem_cons_self)
    obtain ⟨hrs, b', D', h', hclean'⟩ := ih (h.step ok j₁ j₂ c)
      ((clean_step_iff hclean c).mpr hcov.1) hcov.2
      fun d hd => hacc d (List.mem_cons_of_mem _ hd)
    exact ⟨congrArg₂ List.cons hr hrs, b', D', h', hclean'⟩

theorem CoveredFrom.of_prefix : ∀ {pre cs : List Call} {b : Store} {D : Set Nat}, pre <+: cs →
    CoveredFrom ok b D cs → CoveredFrom ok b D pre
  | [], _, _, _, _, _ => trivial
  | _ :: _, [], _, _, hpre, _ => absurd hpre (by simp)
  | _ :: _, _ :: _, _, _, hpre, hcov => by
    obtain ⟨rfl, htail⟩ := List.cons_prefix_cons.mp hpre
    exact ⟨hcov.1, CoveredFrom.of_prefix htail hcov.2⟩

/-- Where no read tells the two runs apart, every call is covered. -/
theorem covered_of_agree (cs : List Call) : ∀ {b s t : Store} {D : Set Nat}, Agree b D s t →
    Tainted 0 D s → Tainted 1 D t → b.Clean D →
    (∀ pre, pre <+: cs → ∀ p < 2 ^ 63,
      (s.run (envOf ok fun _ _ => 0) pre).1.read p 1 0
        = (t.run (envOf ok fun _ _ => 1) pre).1.read p 1 0) → CoveredFrom ok b D cs := by
  induction cs with
  | nil => exact fun _ _ _ _ _ => trivial
  | cons c cs ih =>
    intro b s t D h hs ht hclean hread
    have hst := h.step ok (fun _ _ => 0) (fun _ _ => 1) c
    have hs' := hs.step ok h.left c
    have ht' := ht.step ok h.right c
    have hclean' := hst.clean_of_read hs' ht' (hread [c] (by simp))
    exact ⟨(clean_step_iff hclean c).mp hclean', ih hst hs' ht' hclean' fun pre hpre =>
      hread (c :: pre) (List.cons_prefix_cons.mpr ⟨rfl, hpre⟩)⟩

end Runs

/-- What the calls reply, and with it every byte that reaches user space. -/
def replies (env : Env) (cs : List Call) : Except Fault (List Reply) :=
  (run env trimmed cs).map Prod.snd

/-- Nothing that the run replies, nor a read put anywhere in it, depends on fresh blocks. -/
def Undisclosed (ok : Nat → Bool) (cs : List Call) : Prop :=
  ∀ pre, pre <+: cs → ∀ p count uncopied, p < 2 ^ 63 → count < 2 ^ 63 → ∀ j₁ j₂,
    replies (envOf ok j₁) (pre ++ [.mevRead p count uncopied])
      = replies (envOf ok j₂) (pre ++ [.mevRead p count uncopied])

theorem Call.Accepted.valid {c : Call} (h : c.Accepted) : c.Valid := by
  cases c with
  | mevRead _ _ _ => exact h.1
  | mevWrite _ _ _ _ => exact h
  | _ => trivial

theorem replies_append_read (env : Env) {cs : List Call} (hc : ∀ c ∈ cs, c.Accepted) {p : Nat}
    (hp : p < 2 ^ 63) (count uncopied : Nat) :
    replies env (cs ++ [.mevRead p count uncopied])
      = .ok ((Store.empty.run env cs).2 ++ [(Store.empty.run env cs).1.read p count uncopied]) := by
  have hv : ∀ c ∈ cs ++ [.mevRead p count uncopied], c.Valid := by
    intro c hm
    rcases List.mem_append.mp hm with hm | hm
    · exact (hc c hm).valid
    · rw [List.mem_singleton.mp hm]
      exact hp
  obtain ⟨m, he, -⟩ := run_simulates env _ hv
  unfold replies
  rw [he, run_append_read]
  rfl

/--
**Reads disclose nothing iff every call is covered.** For all outcomes of `kmalloc` and all
sequences of calls.
-/
theorem reads_disclose_nothing_iff (ok : Nat → Bool) (cs : List Call) (hc : ∀ c ∈ cs, c.Accepted) :
    Undisclosed ok cs ↔ CoveredFrom ok Store.empty ∅ cs := by
  have hclean : Store.empty.Clean ∅ := fun x hx => absurd hx (Nat.not_lt_zero x)
  have hacc : ∀ pre, pre <+: cs → ∀ c ∈ pre, c.Accepted := fun pre hpre c hm =>
    hc c (hpre.subset hm)
  constructor
  · intro hun
    refine covered_of_agree cs Agree.empty ?_ ?_ hclean ?_
    · exact fun x _ w hw => by simp [Store.byte, Store.empty] at hw
    · exact fun x _ w hw => by simp [Store.byte, Store.empty] at hw
    · intro pre hpre p hp
      have heq := hun pre hpre p 1 0 hp (by decide) (fun _ _ => 0) fun _ _ => 1
      rw [replies_append_read _ (hacc pre hpre) hp, replies_append_read _ (hacc pre hpre) hp] at heq
      -- the last reply is the read's
      exact List.head_eq_of_cons_eq (List.append_inj' (Except.ok.inj heq) (by simp)).2
  · intro hcov pre hpre p count uncopied hp hcount j₁ j₂
    obtain ⟨hrs, b', D', h', hclean'⟩ :=
      Agree.run j₁ j₂ pre Agree.empty hclean (hcov.of_prefix hpre) (hacc pre hpre)
    rw [replies_append_read _ (hacc pre hpre) hp, replies_append_read _ (hacc pre hpre) hp, hrs,
      h'.read_eq hclean' hp hcount]

theorem reads_disclose_nothing_iff_write :
    let cs : List Call := [.mevWrite 0 4 (fun _ => 7) UserCopy.ok, .mevRead 0 4 0]
    Undisclosed (fun _ => true) cs ↔ CoveredFrom (fun _ => true) Store.empty ∅ cs :=
  reads_disclose_nothing_iff _ _ (by simp [Call.Accepted])

/-- The replies of the run itself, as one case: they are the same whatever fresh blocks hold. -/
theorem replies_eq_of_covered (ok : Nat → Bool) (cs : List Call) (hc : ∀ c ∈ cs, c.Accepted)
    (hcov : CoveredFrom ok Store.empty ∅ cs) (j₁ j₂ : Nat → Nat → UInt8) :
    replies (envOf ok j₁) cs = replies (envOf ok j₂) cs := by
  have hclean : Store.empty.Clean ∅ := fun x hx => absurd hx (Nat.not_lt_zero x)
  obtain ⟨hrs, -⟩ := Agree.run j₁ j₂ cs Agree.empty hclean hcov hc
  have hreplies : ∀ j, replies (envOf ok j) cs = .ok (Store.empty.run (envOf ok j) cs).2 := by
    intro j
    obtain ⟨m, he, -⟩ := run_simulates (envOf ok j) cs fun c hm => (hc c hm).valid
    unfold replies
    rw [he]
    rfl
  rw [hreplies, hreplies, hrs]

/-- A write at position 1 makes byte 0 readable, which nothing has written. -/
theorem read_discloses_junk :
    let cs : List Call := [.mevWrite 1 1 (fun _ => 7) UserCopy.ok, .mevRead 0 1 0]
    replies (envOf (fun _ => true) fun _ _ => 0) cs
      ≠ replies (envOf (fun _ => true) fun _ _ => 1) cs := by
  have hrun : ∀ v, replies (envOf (fun _ => true) fun _ _ => v)
      [.mevWrite 1 1 (fun _ => 7) UserCopy.ok, .mevRead 0 1 0]
        = .ok [{ retval := 1, fPos := 2, delivered := [] },
               { retval := 1, fPos := 1, delivered := [v] }] := by
    intro v
    have hw : ∀ c ∈ [Call.mevWrite 1 1 (fun _ => 7) UserCopy.ok], c.Accepted := by
      simp [Call.Accepted]
    exact replies_append_read _ hw (p := 0) (by decide) 1 0
  intro cs h
  rw [hrun, hrun] at h
  exact absurd h (by decide)

end LkmSandbox.Mev
