import LkmSandbox.Mev.Follow

/-!
# Reading changes nothing

`mev_read` walks the list with `mev_follow`, which appends the nodes it does not find. That it never
comes to this is due to the size: as long as positions are in range the list covers it, and a read
at or past the size does not get to the walk.

* `mevFollow_there` — walking to a node that is there allocates nothing
* `reading_grows_nothing` — after any calls, a read leaves the whole memory as it was
-/

namespace LkmSandbox.Mev

open Lib

variable {δ : Dims} {s : Store} {place : Place → Option Addr} {m : Mem}

/-! ## Walking to a node that is there -/

theorem mevFollow_there (env : Env) (h : RepOf δ s place m) {item : Int}
    (hlt : rounds item < s.len) :
    mevFollow env item m = .ok (m, place (.node (rounds item))) := by
  obtain ⟨nodes, hl⟩ := h.isList
  have hplace : place (.node (rounds item)) = addrAt nodes (rounds item) := by
    rw [← h.nodeAt_eq, hl.nodeAt_eq]
  have hsome := (h.node_isSome (rounds item)).mpr hlt
  rw [hplace] at hsome ⊢
  obtain ⟨a, ha, he⟩ := hl.follow_there env (addrAt_isSome.mp hsome)
  rw [ha]
  exact he

/-! ## A whole read -/

/-- Below the size, the walk goes to a node that is there. -/
theorem Store.Sized.offsetOf_lt (hs : s.Sized) {p : Nat} (hp : p < listSpan)
    (hsize : p < s.size) :
    ∃ off : Offset, offsetOf Dims.std.quantum Dims.std.qset p = .ok off ∧
      rounds off.item < s.len ∧ off.sPos = (p % 4000000 / 4000 : Nat) := by
  refine ⟨_, offsetOf_eq (valid_of_lt_listSpan hp), ?_, rfl⟩
  dsimp only
  rw [rounds_item, addrOf_of_lt hp]
  exact hs.item_lt hsize

theorem readLocate_there (env : Env) (h : Rep s place m) (hs : s.Sized) {p : Nat}
    (hp : p < listSpan) (count : Nat) :
    ∃ located, readLocate env Dims.std.quantum Dims.std.qset p count m = .ok (m, located) := by
  unfold readLocate
  rw [h.size]
  by_cases hsize : s.size ≤ p
  · rw [if_pos hsize]
    exact ⟨_, rfl⟩
  · obtain ⟨off, hoff, hlt, hslot⟩ := hs.offsetOf_lt hp (Nat.lt_of_not_le hsize)
    obtain ⟨a, ha⟩ := Option.isSome_iff_exists.mp ((h.node_isSome _).mpr hlt)
    rw [if_neg hsize, hoff]
    simp only [ok_bind, mevFollow_there env h hlt, ha, hslot, loadQuantum_spec h ha (slot_lt p)]
    cases place (.quantum (rounds off.item) (p % 4000000 / 4000)) with
    | none => exact ⟨_, rfl⟩
    | some q => exact ⟨_, rfl⟩

/-- Taking the semaphore and giving it back. -/
theorem up_of_idle (hi : Idle m) :
    Mem.up { m with container := { m.container with sem := some 0 } } = m := by
  obtain ⟨heap, ⟨data, quantum, qset, size, sem⟩⟩ := m
  unfold Idle at hi
  simp only at hi
  subst hi
  rfl

/-- **A read leaves the memory as it was**, whatever it returns. -/
theorem mevRead_there (env : Env) (h : Rep s place m) (hs : s.Sized) (hi : Idle m) {p : Nat}
    (hp : p < listSpan) (count uncopied : Nat) :
    mevRead env p count uncopied m = .ok (m, s.read p count uncopied) := by
  obtain ⟨m', place', he, -, -⟩ :=
    mevRead_spec env h hi (valid_of_lt_listSpan hp) count uncopied
  obtain ⟨located, hl⟩ := readLocate_there env (h.setSem (some 0)) hs hp count
  have hm : m' = m := by
    unfold mevRead at he
    rw [downInterruptible_of_idle hi, h.quantum, h.qset] at he
    simp only [ok_bind, if_true, hl] at he
    cases located with
    | out retval =>
      rw [up_of_idle hi] at he
      exact (Prod.mk.inj (Except.ok.inj he)).1.symm
    | copy dptr sPos qPos n =>
      simp only at he
      obtain ⟨⟨delivered, left⟩, -, hr⟩ := bind_ok he
      rw [up_of_idle hi] at hr
      exact (Prod.mk.inj (Except.ok.inj hr)).1.symm
  rw [he, hm]

/--
**Reading never grows the store.** After every sequence of calls: a read comes to `mev_follow` below
the size only, then for a node that is there, and `mev_follow` returns it without an allocation; and
the read ends with the memory it began with.
-/
theorem reading_grows_nothing (env : Env) (cs : List Call) (hc : ∀ c ∈ cs, c.InRange) :
    ∃ m rs, run env trimmed cs = .ok (m, rs) ∧
      ∀ env' p count uncopied, p < listSpan →
        (∀ m₁, m.downInterruptible = .ok (m₁, true) → p < m.container.size →
          ∃ off a, offsetOf m.container.quantum m.container.qset p = .ok off ∧
            nodeAt m (rounds off.item) = some a ∧
            mevFollow env' off.item m₁ = .ok (m₁, some a)) ∧
        ∃ r, mevRead env' p count uncopied m = .ok (m, r) := by
  obtain ⟨m, he, place, h, hi⟩ := run_simulates env cs fun c hm => (hc c hm).valid
  have hs := run_sized env cs hc
  refine ⟨m, _, he, fun env' p count uncopied hp => ⟨?_, ?_⟩⟩
  · intro m₁ hd hsize
    rw [downInterruptible_of_idle hi] at hd
    cases hd
    rw [h.size] at hsize
    obtain ⟨off, hoff, hlt, -⟩ := hs.offsetOf_lt hp hsize
    obtain ⟨a, ha⟩ := Option.isSome_iff_exists.mp ((h.node_isSome _).mpr hlt)
    have hwalk := mevFollow_there env' (h.setSem (some 0)) hlt
    rw [← h.quantum, ← h.qset] at hoff
    rw [ha] at hwalk
    exact ⟨off, a, hoff, (h.nodeAt_eq _).trans ha, hwalk⟩
  · exact ⟨_, mevRead_there env' h hs hi hp count uncopied⟩

/-- The first write gets no array, the second is kept, and there are three pages below the size. -/
theorem reading_grows_nothing_partial :
    let env : Env := { kmallocOk := fun n => n != 2, junk := fun _ _ => 0 }
    let cs : List Call := [.mevWrite 4000000 3 (fun _ => 7) .ok, .mevWrite 8000 2 (fun _ => 9) .ok,
      .mevRead 0 3 0]
    ∃ m rs, run env trimmed cs = .ok (m, rs) ∧ m.container.size = 8002 ∧
      ∀ env' p count uncopied, p < listSpan →
        (∀ m₁, m.downInterruptible = .ok (m₁, true) → p < m.container.size →
          ∃ off a, offsetOf m.container.quantum m.container.qset p = .ok off ∧
            nodeAt m (rounds off.item) = some a ∧
            mevFollow env' off.item m₁ = .ok (m₁, some a)) ∧
        ∃ r, mevRead env' p count uncopied m = .ok (m, r) := by
  intro env cs
  have hcs : ∀ c ∈ cs, c.InRange := by simp [cs, Call.InRange, listSpan]
  obtain ⟨m, rs, he, hread⟩ := reading_grows_nothing env cs hcs
  obtain ⟨m', he', place, h, -⟩ := run_simulates env cs fun c hc => (hcs c hc).valid
  rw [he] at he'
  cases he'
  refine ⟨m, _, he, ?_, hread⟩
  rw [h.size]
  decide +kernel

end LkmSandbox.Mev
