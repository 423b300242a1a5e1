import Mathlib.Data.List.Nodup
import Mathlib.Logic.Function.Basic
import Mathlib.Tactic.Common

/-!
# A heap of identified blocks and its owners

An allocator hands out a fresh identity with every call, so a block that was freed is never
confused with a later one. Over the heap stands an *ownership*: a partial map from keys (places
of a data structure) to identities, together with what each key's block has to hold.

* `Heap.alloc` / `Heap.store` / `Heap.free` — the three operations on blocks
* `Owns` — the keys place exactly the live blocks, each at one key only
* `Owns.alloc` / `Owns.store` / `Owns.drop` — how an ownership follows the operations
* `Owns.dropRestrict` — the step of a loop that frees everything
* `Frees` — which identities a stretch of a run has freed, each once
-/

namespace Lib

/-- The identity of a block: the number of the allocation call that returned it. -/
abbrev Addr := Nat

/-- Live blocks, the number of allocation calls so far, and the identities freed (latest first). -/
structure Heap (β : Type) where
  blocks : Addr → Option β
  calls : Nat
  freed : List Addr

namespace Heap

variable {β : Type}

def empty : Heap β := { blocks := fun _ => none, calls := 0, freed := [] }

/-- One allocation call. A failing call returns no block, but it is counted like any other. -/
def alloc (ok : Bool) (b : β) (h : Heap β) : Heap β × Option Addr :=
  if ok then
    ({ h with blocks := Function.update h.blocks h.calls (some b), calls := h.calls + 1 },
      some h.calls)
  else ({ h with calls := h.calls + 1 }, none)

def store (a : Addr) (b : β) (h : Heap β) : Heap β :=
  { h with blocks := Function.update h.blocks a (some b) }

def free (a : Addr) (h : Heap β) : Heap β :=
  { h with blocks := Function.update h.blocks a none, freed := a :: h.freed }

/-- Freeing through a pointer that may be null; a null pointer frees nothing. -/
def freeOpt : Option Addr → Heap β → Heap β
  | none, h => h
  | some a, h => h.free a

@[simp] theorem store_calls (a : Addr) (b : β) (h : Heap β) : (h.store a b).calls = h.calls := rfl

theorem alloc_true (b : β) (h : Heap β) :
    h.alloc true b
      = ({ h with blocks := Function.update h.blocks h.calls (some b), calls := h.calls + 1 },
          some h.calls) := rfl

theorem alloc_false (b : β) (h : Heap β) :
    h.alloc false b = ({ h with calls := h.calls + 1 }, none) := rfl

/-- Identities that have not been handed out hold nothing, before an allocation and after it. -/
theorem alloc_fresh {h : Heap β} (hf : ∀ a, h.calls ≤ a → h.blocks a = none) (ok : Bool) (b : β)
    (a : Addr) (ha : (h.alloc ok b).1.calls ≤ a) : (h.alloc ok b).1.blocks a = none := by
  cases ok with
  | false => exact hf a (Nat.le_of_succ_le ha)
  | true =>
    rw [alloc_true] at ha ⊢
    simp only at ha ⊢
    rw [Function.update_of_ne (Nat.ne_of_gt ha)]
    exact hf a (Nat.le_of_succ_le ha)

theorem store_fresh {h : Heap β} (hf : ∀ a, h.calls ≤ a → h.blocks a = none) {c : Addr}
    (hc : c < h.calls) (b : β) (a : Addr) (ha : (h.store c b).calls ≤ a) :
    (h.store c b).blocks a = none := by
  rw [store_calls] at ha
  rw [store]
  simp only
  rw [Function.update_of_ne (Nat.ne_of_gt (Nat.lt_of_lt_of_le hc ha))]
  exact hf a ha

end Heap

/-! ## Ownership -/

section Ownership

variable {κ β : Type} [DecidableEq κ]

/--
`place` says where each key's block is, `content` what it holds.

Every key with a place has a content and conversely; every live block is at some key, and at one
only. Identities from `calls` on have not been handed out yet.
-/
structure Owns (place : κ → Option Addr) (content : κ → Option β) (h : Heap β) : Prop where
  inj : ∀ {p q : κ} {a : Addr}, place p = some a → place q = some a → p = q
  holds : ∀ {p : κ} {a : Addr}, place p = some a → h.blocks a = content p
  isSome : ∀ p, (place p).isSome = (content p).isSome
  live : ∀ {a : Addr}, h.blocks a ≠ none → ∃ p, place p = some a
  fresh : ∀ {a : Addr}, h.calls ≤ a → h.blocks a = none

/-- Two maps defined at the same keys, both changed at one key. -/
theorem isSome_update {α : Type} {f : κ → Option α} {g : κ → Option β}
    (hs : ∀ q, (f q).isSome = (g q).isSome) (p : κ) {x : Option α} {y : Option β}
    (hxy : x.isSome = y.isSome) (q : κ) :
    (Function.update f p x q).isSome = (Function.update g p y q).isSome := by
  by_cases hqp : q = p
  · subst hqp
    rw [Function.update_self, Function.update_self, hxy]
  · rw [Function.update_of_ne hqp, Function.update_of_ne hqp, hs q]

namespace Owns

variable {place place' : κ → Option Addr} {content content' : κ → Option β} {h : Heap β}

omit [DecidableEq κ] in
theorem nothing (hb : ∀ a, h.blocks a = none) :
    Owns (fun _ : κ => none) (fun _ => none) h where
  inj := by simp
  holds := by simp
  isSome := by simp
  live := fun hl => absurd (hb _) hl
  fresh := fun _ => hb _

omit [DecidableEq κ] in
/-- An ownership is about the two maps as functions, not about how they are written. -/
theorem congr (ho : Owns place content h) (hp : place' = place) (hc : content' = content) :
    Owns place' content' h := by
  subst hp hc
  exact ho

omit [DecidableEq κ] in
theorem ne_none_iff (ho : Owns place content h) (p : κ) : content p ≠ none ↔ place p ≠ none := by
  rw [Option.ne_none_iff_isSome, Option.ne_none_iff_isSome, ho.isSome p]

omit [DecidableEq κ] in
theorem live_iff (ho : Owns place content h) (a : Addr) :
    h.blocks a ≠ none ↔ ∃ p, place p = some a := by
  refine ⟨ho.live, ?_⟩
  rintro ⟨p, hp⟩
  have hs := ho.isSome p
  rw [hp] at hs
  rw [ho.holds hp]
  intro hn
  rw [hn] at hs
  simp at hs

omit [DecidableEq κ] in
theorem lt_calls (ho : Owns place content h) {p : κ} {a : Addr} (hp : place p = some a) :
    a < h.calls := by
  by_contra hge
  exact (ho.live_iff a).mpr ⟨p, hp⟩ (ho.fresh (Nat.le_of_not_lt hge))

omit [DecidableEq κ] in
/-- A failing allocation leaves the ownership as it is. -/
theorem allocFail (ho : Owns place content h) (b : β) : Owns place content (h.alloc false b).1 where
  inj := ho.inj
  holds := ho.holds
  isSome := ho.isSome
  live := ho.live
  fresh := fun ha => Heap.alloc_fresh (fun _ => ho.fresh) false b _ ha

/-- A fresh block is put at a key that had none. -/
theorem alloc (ho : Owns place content h) {p : κ} (hp : place p = none) (b : β) :
    Owns (Function.update place p (some h.calls)) (Function.update content p (some b))
      (h.alloc true b).1 where
  inj := by
    intro q r a hq hr
    -- the address is new, so no other key has it
    by_cases hqp : q = p <;> by_cases hrp : r = p
    · rw [hqp, hrp]
    · subst hqp
      rw [Function.update_self, Option.some.injEq] at hq
      rw [Function.update_of_ne hrp] at hr
      exact absurd (hq ▸ ho.lt_calls hr) (Nat.lt_irrefl _)
    · subst hrp
      rw [Function.update_self, Option.some.injEq] at hr
      rw [Function.update_of_ne hqp] at hq
      exact absurd (hr ▸ ho.lt_calls hq) (Nat.lt_irrefl _)
    · rw [Function.update_of_ne hqp] at hq
      rw [Function.update_of_ne hrp] at hr
      exact ho.inj hq hr
  holds := by
    intro q a hq
    rw [Heap.alloc_true]
    by_cases hqp : q = p
    · subst hqp
      rw [Function.update_self, Option.some.injEq] at hq
      simp [← hq]
    · rw [Function.update_of_ne hqp] at hq
      rw [Function.update_of_ne hqp]
      simp only [Function.update_of_ne (Nat.ne_of_lt (ho.lt_calls hq))]
      exact ho.holds hq
  isSome := isSome_update ho.isSome p rfl
  live := by
    intro a ha
    rw [Heap.alloc_true] at ha
    by_cases hac : a = h.calls
    · exact ⟨p, by simp [hac]⟩
    · simp only [Function.update_of_ne hac] at ha
      obtain ⟨q, hq⟩ := ho.live ha
      have hqp : q ≠ p := by
        intro he
        rw [he, hp] at hq
        simp at hq
      exact ⟨q, by rw [Function.update_of_ne hqp]; exact hq⟩
  fresh := fun ha => Heap.alloc_fresh (fun _ => ho.fresh) true b _ ha

/-- Storing into the block of a key changes that key's content and no other. -/
theorem store (ho : Owns place content h) {p : κ} {a : Addr} (hp : place p = some a) (b : β) :
    Owns place (Function.update content p (some b)) (h.store a b) where
  inj := ho.inj
  holds := by
    intro q c hq
    simp only [Heap.store]
    by_cases hqp : q = p
    · subst hqp
      rw [hp, Option.some.injEq] at hq
      simp [hq]
    · have hca : c ≠ a := fun he => hqp (ho.inj hq (he ▸ hp))
      rw [Function.update_of_ne hca, Function.update_of_ne hqp]
      exact ho.holds hq
  isSome := by
    have hs := isSome_update ho.isSome p (x := some a) (y := some b) rfl
    rwa [← hp, Function.update_eq_self] at hs
  live := by
    intro c hc
    simp only [Heap.store] at hc
    by_cases hca : c = a
    · exact ⟨p, by rw [hca]; exact hp⟩
    · rw [Function.update_of_ne hca] at hc
      exact ho.live hc
  fresh := fun ha => Heap.store_fresh (fun _ => ho.fresh) (ho.lt_calls hp) b _ ha

/-- Freeing what a key places takes the key out; a key without a place frees nothing. -/
theorem drop (ho : Owns place content h) (p : κ) :
    Owns (Function.update place p none) (Function.update content p none)
      (h.freeOpt (place p)) := by
  cases hp : place p with
  | none =>
    have hc : content p = none := not_not.mp fun hne => (ho.ne_none_iff p).mp hne hp
    refine ho.congr ?_ ?_
    · rw [← hp, Function.update_eq_self]
    · rw [← hc, Function.update_eq_self]
  | some a =>
    refine ⟨?_, ?_, ?_, ?_, ?_⟩
    · intro q r c hq hr
      by_cases hqp : q = p
      · simp [hqp] at hq
      · by_cases hrp : r = p
        · simp [hrp] at hr
        · rw [Function.update_of_ne hqp] at hq
          rw [Function.update_of_ne hrp] at hr
          exact ho.inj hq hr
    · intro q c hq
      by_cases hqp : q = p
      · simp [hqp] at hq
      · rw [Function.update_of_ne hqp] at hq ⊢
        have hca : c ≠ a := fun he => hqp (ho.inj hq (he ▸ hp))
        simp only [Heap.freeOpt, Heap.free]
        rw [Function.update_of_ne hca]
        exact ho.holds hq
    · exact isSome_update ho.isSome p rfl
    · intro c hc
      simp only [Heap.freeOpt, Heap.free] at hc
      by_cases hca : c = a
      · simp [hca] at hc
      · rw [Function.update_of_ne hca] at hc
        obtain ⟨q, hq⟩ := ho.live hc
        have hqp : q ≠ p := by
          intro he
          rw [he, hp, Option.some.injEq] at hq
          exact hca hq.symm
        exact ⟨q, by rw [Function.update_of_ne hqp]; exact hq⟩
    · intro c hc
      simp only [Heap.freeOpt, Heap.free] at hc ⊢
      by_cases hca : c = a
      · simp [hca]
      · rw [Function.update_of_ne hca]
        exact ho.fresh hc

omit [DecidableEq κ] in
/-- When no key has a place, no block is live. -/
theorem no_blocks (ho : Owns place content h) (hn : ∀ p, place p = none) (a : Addr) :
    h.blocks a = none := by
  by_contra hl
  obtain ⟨p, hp⟩ := ho.live hl
  rw [hn p] at hp
  simp at hp

end Owns

/-- A map cut down to the keys in `P`. -/
def restrict {α : Type} (P : κ → Prop) [DecidablePred P] (f : κ → Option α) : κ → Option α :=
  fun p => if P p then f p else none

omit [DecidableEq κ] in
theorem restrict_of_mem {α : Type} {P : κ → Prop} [DecidablePred P] (f : κ → Option α) {p : κ}
    (hp : P p) : restrict P f p = f p := if_pos hp

omit [DecidableEq κ] in
/-- Keys without a value do not count. -/
theorem restrict_congr {α : Type} {P P' : κ → Prop} [DecidablePred P] [DecidablePred P']
    {f : κ → Option α} (hP : ∀ q, f q ≠ none → (P' q ↔ P q)) : restrict P' f = restrict P f := by
  funext q
  unfold restrict
  rcases eq_or_ne (f q) none with hq | hq
  · simp [hq]
  · simp [hP q hq]

/-- Cutting one key more. -/
theorem restrict_remove {α : Type} {P P' : κ → Prop} [DecidablePred P] [DecidablePred P']
    {f : κ → Option α} {p : κ} (hP : ∀ q, f q ≠ none → (P' q ↔ P q ∧ q ≠ p)) :
    restrict P' f = Function.update (restrict P f) p none := by
  funext q
  rcases eq_or_ne q p with rfl | hqp
  · rw [Function.update_self]
    unfold restrict
    rcases eq_or_ne (f q) none with hq | hq
    · simp [hq]
    · simp [hP q hq]
  · rw [Function.update_of_ne hqp]
    unfold restrict
    rcases eq_or_ne (f q) none with hq | hq
    · simp [hq]
    · simp [hP q hq, hqp]

/--
Freeing one key after another, `P` being the keys still held. `P'` is `P` without `p`, where it
matters: at keys that have a place at all.
-/
theorem Owns.dropRestrict {place : κ → Option Addr} {content : κ → Option β} {h : Heap β}
    {P P' : κ → Prop} [DecidablePred P] [DecidablePred P']
    (hs : ∀ q, content q ≠ none ↔ place q ≠ none)
    (ho : Owns (restrict P place) (restrict P content) h) {p : κ} (hp : P p)
    (hP : ∀ q, place q ≠ none → (P' q ↔ P q ∧ q ≠ p)) :
    Owns (restrict P' place) (restrict P' content) (h.freeOpt (place p)) := by
  have hd := ho.drop p
  rw [restrict_of_mem place hp] at hd
  exact hd.congr (restrict_remove hP) (restrict_remove fun q hq => hP q ((hs q).mp hq))

end Ownership

/-! ## What a stretch of a run frees -/

section Freeing

variable {β : Type}

/-- From `h` to `h'` exactly the blocks `ids` were freed, each once, and nothing was allocated. -/
structure Frees (h : Heap β) (ids : List Addr) (h' : Heap β) : Prop where
  freed : h'.freed = ids ++ h.freed
  nodup : ids.Nodup
  wasLive : ∀ a ∈ ids, h.blocks a ≠ none
  live : ∀ a, h'.blocks a ≠ none ↔ h.blocks a ≠ none ∧ a ∉ ids
  calls : h'.calls = h.calls

namespace Frees

variable {h h₁ h₂ : Heap β}

theorem refl (h : Heap β) : Frees h [] h where
  freed := rfl
  nodup := List.nodup_nil
  wasLive := by simp
  live := by simp
  calls := rfl

theorem trans {l₁ l₂ : List Addr} (f₁ : Frees h l₁ h₁) (f₂ : Frees h₁ l₂ h₂) :
    Frees h (l₂ ++ l₁) h₂ where
  freed := by rw [f₂.freed, f₁.freed, List.append_assoc]
  nodup := by
    rw [List.nodup_append']
    refine ⟨f₂.nodup, f₁.nodup, ?_⟩
    intro a h₂a h₁a
    exact ((f₁.live a).mp (f₂.wasLive a h₂a)).2 h₁a
  wasLive := by
    intro a ha
    rcases List.mem_append.mp ha with ha | ha
    · exact ((f₁.live a).mp (f₂.wasLive a ha)).1
    · exact f₁.wasLive a ha
  live := by
    intro a
    rw [f₂.live, f₁.live, List.mem_append, not_or, and_assoc, and_comm (a := a ∉ l₁)]
  calls := f₂.calls.trans f₁.calls

theorem free {a : Addr} (ha : h.blocks a ≠ none) : Frees h [a] (h.free a) where
  freed := rfl
  nodup := List.nodup_singleton a
  wasLive := by simpa using ha
  live := by
    intro c
    by_cases hca : c = a
    · subst hca; simp [Heap.free]
    · simp [Heap.free, hca]
  calls := rfl

/-- Freeing through a pointer that is null or points to a live block. -/
theorem freeOpt {p : Option Addr} (hp : ∀ a, p = some a → h.blocks a ≠ none) :
    Frees h p.toList (h.freeOpt p) := by
  cases p with
  | none => exact refl h
  | some a => exact free (hp a rfl)

/-- Overwriting a live block frees nothing. -/
theorem store {a : Addr} (b : β) (ha : h.blocks a ≠ none) : Frees h [] (h.store a b) where
  freed := rfl
  nodup := List.nodup_nil
  wasLive := by simp
  live := by
    intro c
    by_cases hca : c = a
    · subst hca; simpa [Heap.store] using ha
    · simp [Heap.store, Function.update_of_ne hca]
  calls := rfl

/-- When nothing is live in the end, the identities freed are those that were live. -/
theorem mem_iff_live {ids : List Addr} (f : Frees h ids h₁) (hn : ∀ a, h₁.blocks a = none)
    (a : Addr) : a ∈ ids ↔ h.blocks a ≠ none := by
  refine ⟨f.wasLive a, ?_⟩
  intro hl
  by_contra hm
  exact (f.live a).mpr ⟨hl, hm⟩ (hn a)

end Frees

end Freeing

end Lib
