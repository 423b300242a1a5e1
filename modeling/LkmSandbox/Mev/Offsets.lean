import LkmSandbox.Mev.Refine

/-!
# Which byte a position designates

Read and write cut `*f_pos` into the number of a list node, a slot and an offset in the quantum of
that slot. The first of the three is the quotient of a `loff_t`, narrowed to `int`.

* `countdown_iff` — `while (n--)` ends for every `int`, after `rounds n` rounds
* `offsets_exact_iff` — the positions at which the arithmetic is exact, and no two of them alias
-/

namespace LkmSandbox.Mev

/-! ## The loop of `mev_follow` -/

/-- `while (n--)` ends after the given number of rounds, `n` being an `int` that wraps. -/
inductive Countdown : Int → Nat → Prop where
  | done : Countdown 0 0
  | round {n : Int} {k : Nat} : n ≠ 0 → Countdown (int32 (n - 1)) k → Countdown n (k + 1)

/-- `n` is the value of an `int`. -/
def IsInt (n : Int) : Prop := -2 ^ 31 ≤ n ∧ n < 2 ^ 31

theorem int32_isInt (x : Int) : IsInt (int32 x) := by
  unfold IsInt int32
  have h₁ := Int.le_bmod (x := x) (m := 2 ^ 32) (by decide)
  have h₂ := Int.bmod_lt (x := x) (m := 2 ^ 32) (by decide)
  omega

/-- One round leaves one less. -/
theorem rounds_pred {n : Int} (hn : IsInt n) (hne : n ≠ 0) :
    rounds n = rounds (int32 (n - 1)) + 1 := by
  have hmod : int32 (n - 1) % 2 ^ 32 = (n - 1) % 2 ^ 32 := Int.bmod_emod ..
  unfold IsInt at hn
  unfold rounds
  rw [hmod]
  omega

theorem countdown_rounds : ∀ (k : Nat) {n : Int}, IsInt n → rounds n = k → Countdown n k
  | 0, n, hn, hk => by
    have hzero : n = 0 := by
      unfold IsInt at hn
      unfold rounds at hk
      omega
    rw [hzero]
    exact .done
  | k + 1, n, hn, hk => by
    have hne : n ≠ 0 := by
      rintro rfl
      exact absurd hk (Nat.succ_ne_zero k).symm
    refine .round hne (countdown_rounds k (int32_isInt _) ?_)
    rw [rounds_pred hn hne] at hk
    exact Nat.succ.inj hk

/-- **The loop ends for every `int`**, also for one below zero. -/
theorem countdown_iff {n : Int} (hn : IsInt n) {k : Nat} : Countdown n k ↔ k = rounds n := by
  constructor
  · intro h
    induction h with
    | done => rfl
    | round hne _ ih => rw [rounds_pred hn hne, ih (int32_isInt _)]
  · rintro rfl
    exact countdown_rounds _ hn rfl

/-! ## Exact positions -/

/-- `off` is `p` cut up: node, slot and offset are in range and make up `p` again. -/
structure Exact (p : Nat) (off : Offset) : Prop where
  item_nonneg : 0 ≤ off.item
  item : off.item = (p / 4000000 : Nat)
  loop : Countdown off.item (p / 4000000)
  slot : 0 ≤ off.sPos ∧ off.sPos < 1000
  byte : 0 ≤ off.qPos ∧ off.qPos < 4000
  sum : (p : Int) = off.item * 4000 * 1000 + off.sPos * 4000 + off.qPos

/-- What read and write compute for `p` is exact. -/
def Addresses (p : Nat) : Prop :=
  ∃ off, offsetOf lkmMevQuantumSize lkmMevQsetSize p = .ok off ∧ Exact p off

/-- The node that `mev_follow` goes to, the slot in its array and the offset in the quantum. -/
def designated (p : Nat) : Except Fault (Nat × Int × Int) := do
  let off ← offsetOf lkmMevQuantumSize lkmMevQsetSize p
  .ok (rounds off.item, off.sPos, off.qPos)

/-- In the whole range of `loff_t`, node, slot and offset are those of `addrOf p`. -/
theorem designated_eq {p : Nat} (hp : p < 2 ^ 63) :
    designated p = .ok (addrOf p / 4000000, (p % 4000000 / 4000 : Nat), (p % 4000 : Nat)) := by
  unfold designated
  rw [show lkmMevQuantumSize = Dims.std.quantum from rfl,
    show lkmMevQsetSize = Dims.std.qset from rfl, offsetOf_eq hp, ok_bind, rounds_item]

theorem addresses_iff {p : Nat} (hp : p < 2 ^ 63) : Addresses p ↔ p < 2 ^ 31 * 4000000 := by
  have hoff := offsetOf_eq hp
  have hint := int32_isInt (p / 4000000 : Nat)
  constructor
  · rintro ⟨off, hoff', hex⟩
    obtain rfl := Except.ok.inj (hoff.symm.trans hoff')
    have hitem := hex.item
    dsimp only at hitem
    unfold IsInt at hint
    omega
  · intro hlt
    have hitem : int32 (p / 4000000 : Nat) = (p / 4000000 : Nat) :=
      int32_of_range (by omega) (by omega)
    refine ⟨_, hoff, ?_⟩
    rw [hitem] at hint ⊢
    refine ⟨?_, rfl, (countdown_iff hint).mpr ?_, ?_, ?_, ?_⟩
    · exact Int.natCast_nonneg _
    · unfold rounds
      omega
    · dsimp only
      omega
    · dsimp only
      omega
    · dsimp only
      omega

/-- Two positions designate the same byte where they differ by a multiple of `2^32` nodes. -/
theorem designated_inj {p q : Nat} (hp : p < 2 ^ 63) (hq : q < 2 ^ 63)
    (h : designated p = designated q) : addrOf p = addrOf q := by
  rw [designated_eq hp, designated_eq hq] at h
  obtain ⟨hnode, hrest⟩ := Prod.mk.inj (Except.ok.inj h)
  obtain ⟨hslot, hbyte⟩ := Prod.mk.inj hrest
  unfold addrOf listSpan at *
  omega

/--
**Where offset addressing is exact and free of aliases.** For any two positions that a `loff_t` can
hold: iff both are below `2^31 * quantum * qset`, where `item` does not wrap.
-/
theorem offsets_exact_iff (p q : Nat) (hp : p < 2 ^ 63) (hq : q < 2 ^ 63) :
    (Addresses p ∧ Addresses q ∧ (designated p = designated q → p = q)) ↔
      p < 2 ^ 31 * 4000000 ∧ q < 2 ^ 31 * 4000000 := by
  rw [addresses_iff hp, addresses_iff hq]
  constructor
  · rintro ⟨hp', hq', -⟩
    exact ⟨hp', hq'⟩
  · rintro ⟨hp', hq'⟩
    refine ⟨hp', hq', ?_⟩
    intro h
    have ha := designated_inj hp hq h
    have hle : 2 ^ 31 * 4000000 ≤ listSpan := by decide
    rwa [addrOf_of_lt (Nat.lt_of_lt_of_le hp' hle), addrOf_of_lt (Nat.lt_of_lt_of_le hq' hle)] at ha

theorem offsets_exact_iff_far :
    (Addresses 4003999 ∧ Addresses (2 ^ 40) ∧ (designated 4003999 = designated (2 ^ 40) →
      4003999 = 2 ^ 40)) ↔
      4003999 < 2 ^ 31 * 4000000 ∧ 2 ^ 40 < 2 ^ 31 * 4000000 :=
  offsets_exact_iff _ _ (by decide) (by decide)

/--
At `2^31` nodes `item` comes out as the smallest `int`, and the loop runs `2^31` rounds all the
same. At `2^32` nodes it is zero, so that the position designates the first byte of the store.
-/
theorem item_wraps :
    ¬ Addresses (2 ^ 31 * 4000000) ∧
      offsetOf lkmMevQuantumSize lkmMevQsetSize (2 ^ 31 * 4000000)
        = .ok { item := -2 ^ 31, sPos := 0, qPos := 0 } ∧
      designated (2 ^ 32 * 4000000) = designated 0 := by
  refine ⟨?_, rfl, rfl⟩
  rw [addresses_iff (by decide)]
  decide

end LkmSandbox.Mev
