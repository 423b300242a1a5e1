import LkmSandbox.Mev.Refine

/-!
# `mev_trim` frees everything once

The loops take the places away one by one: the slots of an array from the left, then the array,
then the node. `Held t j` are the places still held when the outer loop stands at node `t` and the
inner one at slot `j`. What is owned during the loops is the represented store cut down to them.
-/

namespace LkmSandbox.Mev

open Lib

variable {δ : Dims} {s : Store} {place : Place → Option Addr} {m m₀ : Mem}

/-- Still held when slots below `j` of node `t` and everything of earlier nodes are freed. -/
def Held (t j : Nat) : Place → Prop
  | .node i => t ≤ i
  | .data i => t ≤ i
  | .quantum i l => t < i ∨ t = i ∧ j ≤ l

/-- Still held when of node `t` only the node itself is left. -/
def HeldNode (t : Nat) : Place → Prop
  | .node i => t ≤ i
  | .data i => t < i
  | .quantum i _ => t < i

theorem held_node (t j : Nat) : Held t j (.node t) := Nat.le_refl t

theorem held_data (t j : Nat) : Held t j (.data t) := Nat.le_refl t

theorem held_quantum (t j : Nat) : Held t j (.quantum t j) := Or.inr ⟨rfl, Nat.le_refl j⟩

theorem heldNode_self (t : Nat) : HeldNode t (.node t) := Nat.le_refl t

instance (t j : Nat) : DecidablePred (Held t j) := fun p => by
  cases p <;> unfold Held <;> infer_instance

instance (t : Nat) : DecidablePred (HeldNode t) := fun p => by
  cases p <;> unfold HeldNode <;> infer_instance

/-- What is owned with the places in `P` still held. -/
abbrev OwnsPart (δ : Dims) (s : Store) (place : Place → Option Addr) (P : Place → Prop)
    [DecidablePred P] (m : Mem) : Prop :=
  Owns (restrict P place) (restrict P (s.content δ place)) m.heap

/-- A place still held is live. -/
theorem OwnsPart.live {P : Place → Prop} [DecidablePred P] (h : OwnsPart δ s place P m) {p : Place}
    (hp : P p) {a : Addr} (ha : place p = some a) : m.heap.blocks a ≠ none :=
  (h.live_iff a).mpr ⟨p, by rw [restrict_of_mem place hp]; exact ha⟩

theorem OwnsPart.holds {P : Place → Prop} [DecidablePred P] (h : OwnsPart δ s place P m) {p : Place}
    (hp : P p) {a : Addr} (ha : place p = some a) : m.heap.blocks a = s.content δ place p := by
  rw [Owns.holds (p := p) h (by rw [restrict_of_mem place hp]; exact ha), restrict_of_mem _ hp]

/-- Predicates that agree where something is placed own the same. -/
theorem OwnsPart.congr {P P' : Place → Prop} [DecidablePred P] [DecidablePred P']
    (h₀ : RepOf δ s place m₀) (h : OwnsPart δ s place P m)
    (hP : ∀ q, place q ≠ none → (P' q ↔ P q)) : OwnsPart δ s place P' m :=
  Owns.congr h (restrict_congr hP)
    (restrict_congr fun q hq => hP q ((h₀.owns.ne_none_iff q).mp hq))

theorem kfree_eq {p : Option Addr} (hp : ∀ a, p = some a → m.heap.blocks a ≠ none) :
    m.kfree p = .ok { m with heap := m.heap.freeOpt p } := by
  cases p with
  | none => rfl
  | some a =>
    have := Option.ne_none_iff_isSome.mp (hp a rfl)
    simp [Mem.kfree, this, Heap.freeOpt]

/-! ## The inner loop -/

/-- The inner loop frees the quanta of node `t` from slot `j` on, each once. -/
theorem trimSlots_spec (h₀ : RepOf δ s place m₀) {t : Nat} {d : Addr}
    (hd : place (.data t) = some d) : ∀ (n j : Nat) {m : Mem}, j + n = δ.slots →
    OwnsPart δ s place (Held t j) m →
    ∃ m' ids, trimSlots d n j m = .ok m' ∧ OwnsPart δ s place (Held t δ.slots) m' ∧
      Frees m.heap ids m'.heap ∧ m'.container = m.container
  | 0, j, m, hj, h => by
    have : j = δ.slots := by omega
    subst this
    exact ⟨m, [], rfl, h, Frees.refl _, rfl⟩
  | n + 1, j, m, hj, h => by
    have hblk := h.holds (held_data t _) hd
    rw [Store.content, if_pos (h₀.data_of_some hd)] at hblk
    have hload : m.loadSlot d (j : Nat) = .ok (place (.quantum t j)) := by
      have hj : j < δ.slots := by omega
      simp [Mem.loadSlot, hblk, hj]
    have hlive : ∀ a, place (.quantum t j) = some a → m.heap.blocks a ≠ none :=
      fun a ha => h.live (held_quantum t j) ha
    have hdrop : OwnsPart δ s place (Held t (j + 1))
        { m with heap := m.heap.freeOpt (place (.quantum t j)) } := by
      refine Owns.dropRestrict h₀.owns.ne_none_iff h (held_quantum t j) ?_
      intro q _
      cases q with
      | node i => simp [Held]
      | data i => simp [Held]
      | quantum i l => simp only [Held, ne_eq, Place.quantum.injEq]; omega
    obtain ⟨m', ids, he, ho, hf, hc⟩ := trimSlots_spec h₀ hd n (j + 1) (by omega) hdrop
    refine ⟨m', ids ++ (place (.quantum t j)).toList, ?_, ho, (Frees.freeOpt hlive).trans hf, hc⟩
    rw [trimSlots, hload, ok_bind, kfree_eq hlive, ok_bind]
    exact he

/-! ## One node -/

/-- The node as it stands when its array is gone. -/
def bareQset (place : Place → Option Addr) (t : Nat) : Block :=
  .qset { data := none, next := place (.node (t + 1)) }

/-- What is owned when of node `t` only the bare node is left. -/
abbrev OwnsBare (δ : Dims) (s : Store) (place : Place → Option Addr) (t : Nat) (m : Mem) : Prop :=
  Owns (restrict (HeldNode t) place)
    (Function.update (restrict (HeldNode t) (s.content δ place)) (.node t)
      (some (bareQset place t))) m.heap

theorem OwnsPart.loadQset (h₀ : RepOf δ s place m₀) {t : Nat} {a : Addr}
    (ha : place (.node t) = some a) (h : OwnsPart δ s place (Held t 0) m) :
    m.loadQset a = .ok { data := place (.data t), next := place (.node (t + 1)) } := by
  have hblk := h.holds (held_node t _) ha
  rw [Store.content, if_pos (h₀.node_lt ha)] at hblk
  simp [Mem.loadQset, hblk]

/-- A node without an array has nothing to free but itself. -/
theorem OwnsPart.bare (h₀ : RepOf δ s place m₀) {t : Nat} {a : Addr}
    (ha : place (.node t) = some a) (hd : place (.data t) = none)
    (h : OwnsPart δ s place (Held t 0) m) : OwnsBare δ s place t m := by
  have hn : OwnsPart δ s place (HeldNode t) m := by
    refine h.congr h₀ ?_
    intro q hne
    cases q with
    | node i => exact Iff.rfl
    | data i =>
      have : i ≠ t := by
        rintro rfl
        exact hne hd
      simp only [Held, HeldNode]
      omega
    | quantum i l =>
      have : i ≠ t := by
        rintro rfl
        exact hne (h₀.quantum_none hd l)
      simp only [Held, HeldNode]
      omega
  refine Owns.congr hn rfl ?_
  rw [Function.update_eq_self_iff, restrict_of_mem _ (heldNode_self t), Store.content,
    if_pos (h₀.node_lt ha), hd, bareQset]

/-- Behind the inner loop, freeing the array leaves the node alone. -/
theorem OwnsPart.dropData (h₀ : RepOf δ s place m₀) {t : Nat} {d : Addr}
    (hd : place (.data t) = some d) (h : OwnsPart δ s place (Held t δ.slots) m) :
    OwnsPart δ s place (HeldNode t) { m with heap := m.heap.freeOpt (some d) } := by
  rw [← hd]
  refine Owns.dropRestrict h₀.owns.ne_none_iff h (held_data t _) ?_
  intro q hne
  cases q with
  | node i => simp [Held, HeldNode]
  | data i => simp only [Held, HeldNode, ne_eq, Place.data.injEq]; omega
  | quantum i l =>
    -- all slots are below `δ.slots`, so none of node `t` is held any more
    obtain ⟨b, hb⟩ := Option.ne_none_iff_exists'.mp hne
    have := h₀.quantum_lt hb
    simp only [Held, HeldNode, ne_eq, reduceCtorEq, not_false_eq_true, and_true]; omega

theorem trimData_spec (h₀ : RepOf δ s place m₀) {t : Nat} {a : Addr} (ha : place (.node t) = some a)
    (h : OwnsPart δ s place (Held t 0) m) :
    ∃ m' ids, trimData δ.qset a m = .ok m' ∧ OwnsBare δ s place t m' ∧
      Frees m.heap ids m'.heap ∧ m'.container = m.container := by
  unfold trimData
  rw [h.loadQset h₀ ha, ok_bind]
  cases hd : place (.data t) with
  | none => exact ⟨m, [], rfl, h.bare h₀ ha hd, Frees.refl _, rfl⟩
  | some d =>
    obtain ⟨m₁, ids, he, ho, hf, hc⟩ := trimSlots_spec h₀ hd δ.slots 0 (by omega) h
    have hlive : ∀ c, some d = some c → m₁.heap.blocks c ≠ none := by
      rintro c ⟨⟩
      exact ho.live (held_data t _) hd
    have hn := ho.dropData h₀ hd
    have ha' : restrict (HeldNode t) place (.node t) = some a :=
      (restrict_of_mem place (heldNode_self t)).trans ha
    have hfree : Frees m.heap ([] ++ ((some d).toList ++ ids))
        ((m₁.heap.freeOpt (some d)).store a (bareQset place t)) :=
      (hf.trans (Frees.freeOpt hlive)).trans (Frees.store _ (hn.live (heldNode_self t) ha))
    refine ⟨{ m₁ with heap := (m₁.heap.freeOpt (some d)).store a (bareQset place t) }, _, ?_,
      Owns.store hn ha' (bareQset place t), hfree, hc⟩
    show (trimSlots d δ.slots 0 m >>= _) = _
    rw [he, ok_bind, kfree_eq hlive, ok_bind]
    rfl

/-! ## The outer loop -/

/-- Past the last node nothing is held. -/
theorem held_end (h₀ : RepOf δ s place m₀) (p : Place) :
    restrict (Held s.len 0) place p = none := by
  unfold restrict
  split
  · next hp =>
    cases p with
    | node i => exact h₀.node_none hp
    | data i => exact h₀.data_none hp
    | quantum i l =>
      refine h₀.quantum_none (h₀.data_none ?_) l
      simp only [Held] at hp
      omega
  · rfl

/-- Freeing the bare node `t` leaves what is held at the start of the next round. -/
theorem OwnsBare.drop {t : Nat} {a : Addr} (ha : place (.node t) = some a)
    (h : OwnsBare δ s place t m) :
    OwnsPart δ s place (Held (t + 1) 0) { m with heap := m.heap.freeOpt (some a) } := by
  have hd := Owns.drop h (.node t)
  rw [restrict_of_mem place (heldNode_self t), ha, Function.update_idem] at hd
  have hcut : ∀ q, Held (t + 1) 0 q ↔ HeldNode t q ∧ q ≠ .node t := by
    intro q
    cases q with
    | node i => simp only [Held, HeldNode, ne_eq, Place.node.injEq]; omega
    | data i => exact ⟨fun hi => ⟨hi, Place.noConfusion⟩, fun hi => hi.1⟩
    | quantum i l =>
      simp only [Held, HeldNode, ne_eq, reduceCtorEq, not_false_eq_true, and_true]
      omega
  exact hd.congr (restrict_remove fun q _ => hcut q) (restrict_remove fun q _ => hcut q)

/-- The outer loop from node `t` on frees what it still holds, and leaves nothing. -/
theorem trimNodes_spec (h₀ : RepOf δ s place m₀) : ∀ (r t fuel : Nat) {m : Mem}, t + r = s.len →
    r ≤ fuel → OwnsPart δ s place (Held t 0) m →
    ∃ m' ids, trimNodes δ.qset fuel (place (.node t)) m = .ok m' ∧
      (∀ a, m'.heap.blocks a = none) ∧ Frees m.heap ids m'.heap ∧ m'.container = m.container
  | 0, t, fuel, m, hr, _, h => by
    obtain rfl : t = s.len := hr
    refine ⟨m, [], ?_, Owns.no_blocks h (held_end h₀), Frees.refl _, rfl⟩
    rw [h₀.node_none (Nat.le_refl _)]
    cases fuel <;> rfl
  | r + 1, t, fuel, m, hr, hfuel, h => by
    -- one round is `trimData`, then the node itself; the rest is the induction
    obtain ⟨f, rfl⟩ : ∃ f, fuel = f + 1 := ⟨fuel - 1, by omega⟩
    obtain ⟨a, ha⟩ := Option.isSome_iff_exists.mp ((h₀.node_isSome t).mpr (by omega))
    obtain ⟨m₁, ids₁, he₁, ho₁, hf₁, hc₁⟩ := trimData_spec h₀ ha h
    have ha₁ : restrict (HeldNode t) place (.node t) = some a :=
      (restrict_of_mem place (heldNode_self t)).trans ha
    have hblk : m₁.heap.blocks a = some (bareQset place t) := by
      rw [ho₁.holds ha₁, Function.update_self]
    have hlive : ∀ c, some a = some c → m₁.heap.blocks c ≠ none := by
      intro c hc
      rw [← Option.some.inj hc, hblk]
      simp
    obtain ⟨m', ids, he, hno, hf, hc⟩ := trimNodes_spec h₀ r (t + 1) f (by omega) (by omega)
      (ho₁.drop ha)
    refine ⟨m', _, ?_, hno, (hf₁.trans (Frees.freeOpt hlive)).trans hf, hc.trans hc₁⟩
    rw [ha, trimNodes, he₁, ok_bind]
    simp only [Mem.loadQset, hblk, bareQset, ok_bind]
    rw [kfree_eq hlive, ok_bind]
    exact he

/--
**`mev_trim` ends, frees exactly the live blocks, each once, and leaves the empty container.**
-/
theorem mevTrim_spec (h : RepOf δ s place m) :
    ∃ m' ids, mevTrim m = .ok m' ∧ Rep s.trim (fun _ => none) m' ∧
      (∀ a, m'.heap.blocks a = none) ∧ Frees m.heap ids m'.heap ∧
      m'.container = m.container.reset := by
  have hall : OwnsPart δ s place (Held 0 0) m := by
    have hmem : ∀ q, Held 0 0 q := by
      intro q
      cases q with
      | node i => exact Nat.zero_le i
      | data i => exact Nat.zero_le i
      | quantum i l => simp only [Held]; omega
    exact Owns.congr h.owns (funext fun q => restrict_of_mem place (hmem q))
      (funext fun q => restrict_of_mem _ (hmem q))
  have hfuel : s.len ≤ m.heap.calls + 1 := by
    rw [h.calls]
    exact Nat.le_succ_of_le h.wf.len_le
  obtain ⟨m', ids, he, hno, hf, hc⟩ :=
    trimNodes_spec h s.len 0 (m.heap.calls + 1) (by omega) hfuel hall
  refine ⟨{ m' with container := m'.container.reset }, ids, ?_, ?_, hno, hf, by rw [hc]⟩
  · unfold mevTrim
    rw [h.qset, h.head, he, ok_bind]
  · refine ⟨Store.WfOf.trim _ s, ?_, rfl, rfl, rfl, rfl, ?_⟩
    · refine (Owns.nothing hno).congr rfl ?_
      funext p
      cases p <;> simp [Store.content, Store.trim]
    · rw [hf.calls, h.calls]
      rfl

end LkmSandbox.Mev
