import LkmSandbox.Mev.Flat

/-!
# What was written is read back

A writer hands a byte string over in requests of any size, a reader takes it out in requests of
any other size. Both are cut at the ends of quanta, each its own way. `write_read_back` says that
nothing is dropped, repeated or reordered between them.

The proof is about the flat file only: `FlatFile.Holds f t` says that it is the string `t`, a
write at its end appends to `t`, a read takes the next bytes of `t`.
-/

namespace LkmSandbox.Mev

open Lib

/-! ## The two loops -/

/--
Write `rest` from position `p` on, the `i`-th request of `w i n` bytes when `n` are left, until
all is accepted. Gives the position and what each call returned.
-/
def writeAll (env : Env) (w : Nat → Nat → Nat) :
    Nat → Nat → Nat → List UInt8 → Mem → Except Fault (Option (Mem × Nat × List Int))
  | _, _, p, [], m => .ok (some (m, p, []))
  | 0, _, _, _ :: _, _ => .ok none
  | fuel + 1, i, p, b :: bs, m => do
    let rest := b :: bs
    let (m, r) ← mevWrite env p (w i rest.length) (fun k => rest.getD k 0) UserCopy.ok m
    match ← writeAll env w fuel (i + 1) r.fPos (rest.drop r.retval.toNat) m with
    | none => .ok none
    | some (m, p, rets) => .ok (some (m, p, r.retval :: rets))

/--
Read from position `p` on, the `i`-th request of `q i` bytes, until a call returns 0. Gives the
position and all bytes received.
-/
def readAll (env : Env) (q : Nat → Nat) :
    Nat → Nat → Nat → Mem → Except Fault (Option (Mem × Nat × List UInt8))
  | 0, _, _, _ => .ok none
  | fuel + 1, i, p, m => do
    let (m, r) ← mevRead env p (q i) 0 m
    if r.retval = 0 then .ok (some (m, r.fPos, r.delivered))
    else
      match ← readAll env q fuel (i + 1) r.fPos m with
      | none => .ok none
      | some (m, p, bytes) => .ok (some (m, p, r.delivered ++ bytes))

/-! ## A flat file that is a string -/

namespace FlatFile

variable {f f' : FlatFile} {t : List UInt8}

structure Holds (f : FlatFile) (t : List UInt8) : Prop where
  size : f.size = t.length
  byte : ∀ x < t.length, f.byte x = t[x]?

theorem Holds.nil : Holds FlatFile.empty [] := ⟨rfl, fun x hx => absurd hx (Nat.not_lt_zero x)⟩

/-- A write at the end appends. -/
theorem Holds.append (h : f.Holds t) {rest : List UInt8} {n : Nat} {buf : Nat → UInt8}
    (hw : f.Written t.length n buf f') (hn : n ≤ rest.length)
    (hbuf : ∀ i < n, rest[i]? = some (buf i)) : f'.Holds (t ++ rest.take n) where
  size := by
    rw [hw.size, h.size, List.length_append, List.length_take]
    omega
  byte := by
    intro x hx
    rw [List.length_append, List.length_take] at hx
    by_cases hxt : x < t.length
    · have hv : f.byte x = some t[x] := by rw [h.byte x hxt, List.getElem?_eq_getElem hxt]
      rw [hw.kept x t[x] (by omega) hv, List.getElem?_append_left hxt,
        List.getElem?_eq_getElem hxt]
    · obtain ⟨i, rfl⟩ := Nat.exists_eq_add_of_le (Nat.le_of_not_lt hxt)
      have hi : i < n := by omega
      rw [hw.stored i hi, List.getElem?_append_right (by omega), Nat.add_sub_cancel_left,
        List.getElem?_take_of_lt hi, hbuf i hi]

/-- The page of a byte below the size is there. -/
theorem Holds.page (h : f.Holds t) {p : Nat} (hp : p < t.length) : f.page (p / 4000) ≠ none := by
  intro hn
  have hb := h.byte p hp
  rw [List.getElem?_eq_getElem hp, FlatFile.byte, hn] at hb
  simp at hb

/-- A read takes the next bytes of the string. -/
theorem Holds.read (h : f.Holds t) {p count : Nat} {r : Reply} (hp : p < t.length)
    (hr : f.Read p count 0 r) :
    r.retval = f.readLen p count ∧ r.fPos = p + f.readLen p count ∧
      r.delivered = (t.drop p).take (f.readLen p count) := by
  have hsz : ¬ (f.size ≤ p ∨ f.page (p / 4000) = none) := by
    rw [h.size]
    exact not_or.mpr ⟨by omega, h.page hp⟩
  unfold Read at hr
  rw [if_neg hsz] at hr
  simp only [Nat.zero_min, if_true, Nat.sub_zero] at hr
  obtain ⟨hbytes, hret, hpos⟩ := hr
  refine ⟨hret, hpos, ?_⟩
  have hlen : p + f.readLen p count ≤ t.length := by
    unfold readLen
    rw [h.size]
    omega
  apply List.map_injective_iff.mpr fun (a b : UInt8) hab => Option.some.inj hab
  show r.delivered.map some = _
  rw [hbytes]
  apply List.ext_getElem?
  intro i
  by_cases hi : i < f.readLen p count
  · have ht : p + i < t.length := by omega
    simp [hi, h.byte _ ht, List.getElem?_eq_getElem ht]
  · have hmin : min (f.readLen p count) (t.length - p) ≤ i :=
      Nat.le_trans (Nat.min_le_left _ _) (Nat.le_of_not_lt hi)
    rw [List.getElem?_eq_none (by simpa using hi), List.getElem?_eq_none (by simpa using hmin)]

/-- The past-the-end read. -/
theorem Holds.read_end (h : f.Holds t) {count : Nat} {r : Reply}
    (hr : f.Read t.length count 0 r) : r = { retval := 0, fPos := t.length, delivered := [] } := by
  unfold Read at hr
  rwa [if_pos (Or.inl (Nat.le_of_eq h.size))] at hr

theorem Holds.readLen_pos (h : f.Holds t) {p count : Nat} (hp : p < t.length) (hc : 1 ≤ count) :
    1 ≤ f.readLen p count := by
  unfold readLen
  rw [h.size]
  omega

end FlatFile

/-! ## The loops on the driver -/

variable {m : Mem} {t : List UInt8}

/-- The memory can be used and its flat file is `t`. -/
structure Contains (m : Mem) (t : List UInt8) : Prop where
  represents : ∃ s, Represents m s
  holds : (flat m).Holds t

theorem Contains.trimmed : Contains trimmed [] where
  represents := ⟨_, represents_trimmed⟩
  holds := by
    rw [rep_trimmed.flat_eq]
    exact FlatFile.Holds.nil

/-- One request of the writer. -/
theorem Contains.write (h : Contains m t) (junk : Nat → Nat → UInt8)
    (ht : t.length < listSpan) {rest : List UInt8}
    {count : Nat} (hc : count ≤ rest.length) :
    let n := min count (4000 - t.length % 4000)
    ∃ m', mevWrite (Env.granting junk) t.length count (fun k => rest.getD k 0) UserCopy.ok m
        = .ok (m', { retval := n, fPos := t.length + n, delivered := [] }) ∧
      Contains m' (t ++ rest.take n) := by
  intro n
  obtain ⟨s, hs⟩ := h.represents
  obtain ⟨m', he, hs', hsim⟩ :=
    simulates_step (Env.granting junk)
      (c := .mevWrite t.length count (fun k => rest.getD k 0) UserCopy.ok) hs ht trivial
  -- memory never runs out, so only the second part of `Simulates` applies
  obtain ⟨hw, hret, hpos⟩ := hsim.2.1 (fun _ _ _ => rfl) (Nat.zero_min _)
  have hdel : (Store.step (Env.granting junk) s
      (.mevWrite t.length count (fun k => rest.getD k 0) UserCopy.ok)).2.delivered = [] := by
    show (s.write _ _ _ _ _).2.delivered = []
    unfold Store.write
    simp only
    split_ifs <;> rfl
  refine ⟨m', ?_, ⟨_, hs'⟩, h.holds.append hw (by omega) ?_⟩
  · rw [← hret, ← hpos, ← hdel]
    exact he
  · intro i hi
    rw [List.getD_eq_getElem?_getD, List.getElem?_eq_getElem (by omega)]
    rfl

/-- **The writer's loop ends and leaves exactly what it was given.** -/
theorem writeAll_spec (junk : Nat → Nat → UInt8) {w : Nat → Nat → Nat}
    (hw : ∀ i n, 1 ≤ n → 1 ≤ w i n ∧ w i n ≤ n) :
    ∀ (fuel i : Nat) (rest : List UInt8) {m : Mem} {t : List UInt8}, Contains m t →
      rest.length ≤ fuel → (t ++ rest).length < listSpan →
      ∃ m' rets, writeAll (Env.granting junk) w fuel i t.length rest m
          = .ok (some (m', (t ++ rest).length, rets)) ∧
        (∀ r ∈ rets, 1 ≤ r) ∧ Contains m' (t ++ rest)
  | fuel, i, [], m, t, h, _, _ => by
    rw [List.append_nil]
    refine ⟨m, [], ?_, fun r hr => absurd hr List.not_mem_nil, h⟩
    rw [writeAll]
  | 0, i, b :: bs, m, t, h, hf, _ => absurd hf (Nat.not_succ_le_zero _)
  | fuel + 1, i, b :: bs, m, t, h, hf, hlen => by
    rw [List.length_append] at hlen
    obtain ⟨hw₁, hw₂⟩ := hw i (b :: bs).length (Nat.succ_pos _)
    obtain ⟨m₁, he, h₁⟩ := h.write junk (by omega) hw₂
    generalize hn : min (w i (b :: bs).length) (4000 - t.length % 4000) = n at he h₁
    have hdrop : t ++ (b :: bs).take n ++ (b :: bs).drop n = t ++ b :: bs := by
      rw [List.append_assoc, List.take_append_drop]
    have htake : (t ++ (b :: bs).take n).length = t.length + n := by
      rw [List.length_append, List.length_take]
      omega
    obtain ⟨m₂, rets, he₂, hpos, h₂⟩ :=
      writeAll_spec junk hw fuel (i + 1) ((b :: bs).drop n) h₁
        (by rw [List.length_drop]; omega) (by rw [hdrop, List.length_append]; exact hlen)
    rw [hdrop] at he₂ h₂
    rw [htake] at he₂
    refine ⟨m₂, (n : Int) :: rets, ?_, ?_, h₂⟩
    · rw [writeAll]
      simp only [he, ok_bind, Int.toNat_natCast, he₂]
    · intro r hr
      rcases List.mem_cons.mp hr with rfl | hr
      · omega
      · exact hpos r hr

/-- One request of the reader. -/
theorem Contains.read (h : Contains m t) (junk : Nat → Nat → UInt8)
    (ht : t.length < listSpan) {p count : Nat}
    (hp : p ≤ t.length) (hc : count < 2 ^ 31) :
    ∃ m' r, mevRead (Env.granting junk) p count 0 m = .ok (m', r) ∧ Contains m' t ∧
      (flat m).Read p count 0 r := by
  obtain ⟨s, hs⟩ := h.represents
  have hlt : p < listSpan := Nat.lt_of_le_of_lt hp ht
  obtain ⟨m', he, hs', hflat, hread⟩ :=
    simulates_step (Env.granting junk) (c := .mevRead p count 0) hs hlt hc
  refine ⟨m', _, he, ⟨⟨_, hs'⟩, ?_⟩, hread⟩
  rw [hflat]
  exact h.holds

/-- **The reader's loop ends and has received the rest of the string.** -/
theorem readAll_spec (junk : Nat → Nat → UInt8) {q : Nat → Nat} (hq : ∀ i, 1 ≤ q i ∧ q i < 2 ^ 31)
    (ht : t.length < listSpan) :
    ∀ (fuel i : Nat) {p : Nat} {m : Mem}, Contains m t → p ≤ t.length → t.length - p < fuel →
      ∃ m', readAll (Env.granting junk) q fuel i p m = .ok (some (m', t.length, t.drop p)) ∧
        Contains m' t
  | 0, _, _, _, _, _, hf => absurd hf (Nat.not_lt_zero _)
  | fuel + 1, i, p, m, h, hp, hf => by
    obtain ⟨m₁, r, he, h₁, hread⟩ := h.read junk ht hp (hq i).2
    rw [readAll]
    simp only [he, ok_bind]
    by_cases hend : p = t.length
    · subst hend
      rw [h.holds.read_end hread, if_pos rfl, List.drop_length]
      exact ⟨m₁, rfl, h₁⟩
    · have hlt : p < t.length := by omega
      obtain ⟨hret, hpos, hdel⟩ := h.holds.read hlt hread
      have h1 := h.holds.readLen_pos hlt (hq i).1
      have hle : p + (flat m).readLen p (q i) ≤ t.length := by
        unfold FlatFile.readLen
        rw [h.holds.size]
        omega
      obtain ⟨m₂, he₂, h₂⟩ := readAll_spec junk hq ht fuel (i + 1) h₁ hle (by omega)
      rw [hret, if_neg (by omega), hpos, he₂, hdel]
      refine ⟨m₂, ?_, h₂⟩
      simp only [ok_bind]
      rw [← List.drop_drop, List.take_append_drop]

/--
**Write then read.** Whatever the sizes of the requests on either side, both loops end, every
write accepts a byte, and the reader gets the string.
-/
theorem write_read_back (junk : Nat → Nat → UInt8) (s : List UInt8)
    (hs : s.length < listSpan) (w : Nat → Nat → Nat)
    (hw : ∀ i n, 1 ≤ n → 1 ≤ w i n ∧ w i n ≤ n) (q : Nat → Nat)
    (hq : ∀ i, 1 ≤ q i ∧ q i < 2 ^ 31) :
    ∃ m rets m', writeAll (Env.granting junk) w s.length 0 0 s trimmed
          = .ok (some (m, s.length, rets)) ∧
      (∀ r ∈ rets, 1 ≤ r) ∧ m.container.size = s.length ∧
      readAll (Env.granting junk) q (s.length + 1) 0 0 m = .ok (some (m', s.length, s)) ∧
      m'.container.size = s.length := by
  obtain ⟨m, rets, hwr, hrets, h⟩ :=
    writeAll_spec junk hw s.length 0 s Contains.trimmed (Nat.le_refl _) hs
  obtain ⟨m', hrd, h'⟩ :=
    readAll_spec junk hq hs (s.length + 1) 0 h (Nat.zero_le _)
      (Nat.lt_succ_self _)
  exact ⟨m, rets, m', hwr, hrets, h.holds.size, hrd, h'.holds.size⟩

theorem write_read_back_testing :
    let s : List UInt8 := [84, 101, 115, 116, 105, 110, 103, 10]
    let env := Env.granting fun _ _ => 0
    ∃ m rets m', writeAll env (fun _ n => n) s.length 0 0 s trimmed
          = .ok (some (m, s.length, rets)) ∧
      (∀ r ∈ rets, 1 ≤ r) ∧ m.container.size = s.length ∧
      readAll env (fun i => i % 3 + 1) (s.length + 1) 0 0 m = .ok (some (m', s.length, s)) ∧
      m'.container.size = s.length :=
  write_read_back _ _ (by decide) (fun _ n => n) (fun _ _ h => ⟨h, Nat.le_refl _⟩) _
    fun i => by omega

end LkmSandbox.Mev
