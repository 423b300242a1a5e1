import LkmSandbox.Device.Sessions
import LkmSandbox.Lib.Fifo

/-!
# The cursor of the message device

`message_ptr` is the only end-of-file mark that `lkm_device` has, and `device_read` rewinds it on
entry. Read call by call, the device hands out the message over and over: an endless line.

* `cursor_sound` — the cursor stays in the buffer, and how the calls cut the line does not matter
* `no_byte_lost_iff` — a run hands out the line without a gap iff no `put_user` of it fails
* `reading_never_ends` — no client that reads until a call returns 0 ever stops
-/

namespace LkmSandbox.Device

open Lib

/-! ## The endless line -/

/-- The `n` bytes from the `off`-th on of the message repeated without end. -/
def endless (off n : Nat) : List UInt8 :=
  window (fun i => message.getD i 0) message.length off n

@[simp] theorem endless_length (off n : Nat) : (endless off n).length = n := window_length

theorem endless_append (off m n : Nat) :
    endless off (m + n) = endless off m ++ endless (off + m) n := window_append

theorem endless_mod (off n : Nat) : endless (off % message.length) n = endless off n := window_mod

/-- Within one line, it is a part of the message. -/
theorem endless_eq_take_drop {off n : Nat} (h : off + n ≤ message.length) :
    endless off n = (message.drop off).take n := window_eq_take_drop h

/-! ## What a call touches -/

/-- The indices of the bytes that `readLoop` hands to `put_user`, one that fails included. -/
def handedLoop (d : Device) (putFails : Nat → Bool) : Nat → Nat → Nat → List Nat
  | 0, _, _ => []
  | len + 1, ptr, bytesRead =>
    match d.fetch ptr with
    | .error _ => []
    | .ok c =>
      if c = 0 then []
      else if putFails bytesRead then [ptr]
      else ptr :: d.handedLoop putFails len (ptr + 1) (bytesRead + 1)

/-- The indices of the bytes that a call hands to `put_user`. -/
def handed (d : Device) (req : Request) : List Nat :=
  match d.fetch d.messagePtr with
  | .error _ => []
  | .ok c => d.handedLoop req.putFails req.len (if c = 0 then 0 else d.messagePtr) 0

/--
What `message_ptr` points to at entry and each time it has been counted up. Rewinding sets it to 0.
-/
def pointers (d : Device) (req : Request) : List Nat :=
  d.messagePtr :: (d.handed req).map (· + 1)

/-- What the replies say has been read. -/
def total (replies : List Reply) : Int := (replies.map Reply.retval).sum

/-- From here on, requests that come to the same total get the same bytes, however they are cut. -/
def ChunkingIndependent (d : Device) : Prop :=
  ∀ (lens₁ lens₂ : List Nat) (d₁ d₂ : Device) (rs₁ rs₂ : List Reply),
    runE Request.call d (lens₁.map Request.clean) = .ok (d₁, rs₁) →
    runE Request.call d (lens₂.map Request.clean) = .ok (d₂, rs₂) →
    total rs₁ = total rs₂ → received rs₁ = received rs₂

/-! ## Losing bytes -/

/--
A run has handed out the endless line from the cursor on, and the cursor is at the first byte that
it has not.
-/
def Gapless (d : Device) (reqs : List Request) : Prop :=
  ∃ d' rs, runE Request.call d reqs = .ok (d', rs) ∧
    received rs = endless d.offset (received rs).length ∧
    d'.offset = (d.offset + (received rs).length) % message.length

/-- The call `req`, made after `pre`, comes to a `put_user` that fails. -/
def ComesToFault (d : Device) (pre : List Request) (req : Request) : Prop :=
  ∃ d' rs, runE Request.call d pre = .ok (d', rs) ∧
    ∃ k < min req.len (message.length - d'.offset), req.putFails k = true

/-! ## Reading to the end of the file -/

/-- A client that reads until a call returns 0, with `fuel` calls of lengths `lens` at most. -/
def readToEnd (fuel : Nat) (lens : Nat → Nat) (d : Device) :
    Except Fault (Option (Device × List Reply)) :=
  runUntil (fun d len => Request.call d (.clean len)) (fun r => r.retval = 0) fuel lens d

/-- The client stops, with each byte of the message received at most once. -/
def EndsCleanly (d : Device) (lens : Nat → Nat) : Prop :=
  ∃ fuel d' rs, readToEnd fuel lens d = .ok (some (d', rs)) ∧ (received rs).Subperm message

/-! ## Every call -/

theorem stored_le (putFails : Nat → Bool) (n : Nat) : stored putFails n ≤ n := by
  induction n generalizing putFails with
  | zero => exact Nat.le_refl 0
  | succ n ih =>
    rw [stored_succ]
    split
    · exact Nat.zero_le _
    · exact Nat.succ_le_succ (ih _)

/-- All `n` stores come before a failing one iff none of them fails. -/
theorem stored_eq_iff (putFails : Nat → Bool) (n : Nat) :
    stored putFails n = n ↔ ¬ ∃ k < n, putFails k = true := by
  induction n generalizing putFails with
  | zero => simp [stored_zero]
  | succ n ih =>
    rw [stored_succ]
    by_cases hf : putFails 0 = true
    · rw [if_pos hf]
      exact iff_of_false (by omega) fun h => h ⟨0, Nat.zero_lt_succ n, hf⟩
    · rw [if_neg hf, Nat.add_left_inj, ih]
      refine not_congr ⟨fun ⟨k, hk, hfail⟩ => ⟨k + 1, by omega, hfail⟩, ?_⟩
      rintro ⟨k, hk, hfail⟩
      cases k with
      | zero => exact absurd hfail hf
      | succ k => exact ⟨k, by omega, hfail⟩

/-- Up to the first store that fails, and with it, as many stores succeed as do of all. -/
theorem stored_min_succ (putFails : Nat → Bool) (n : Nat) :
    stored putFails (min (stored putFails n + 1) n) = stored putFails n := by
  induction n generalizing putFails with
  | zero => rfl
  | succ n ih =>
    rw [stored_succ]
    by_cases hf : putFails 0 = true
    · rw [if_pos hf, Nat.zero_add, Nat.min_eq_left (Nat.succ_le_succ (Nat.zero_le n)),
        stored_succ, if_pos hf]
    · rw [if_neg hf, Nat.succ_min_succ, stored_succ, if_neg hf, ih]

theorem received_append_singleton (rs : List Reply) (r : Reply) :
    received (rs ++ [r]) = received rs ++ r.delivered := by
  unfold received
  rw [List.flatMap_append, List.flatMap_singleton]

variable {d : Device}

theorem Loaded.messageBuffer_eq (h : d.Loaded) : d.messageBuffer = message ++ [0] :=
  h.buffer

/-- The loop hands out the bytes that it counts the cursor past. -/
theorem handedLoop_eq (h : d.Loaded) (putFails : Nat → Bool) : ∀ (len ptr bytesRead : Nat),
    ptr ≤ message.length →
    let n := min len (message.length - ptr)
    d.handedLoop putFails len ptr bytesRead
      = List.range' ptr (min (stored (fun j => putFails (bytesRead + j)) n + 1) n)
  | 0, ptr, bytesRead, _ => by simp [handedLoop]
  | len + 1, ptr, bytesRead, hptr => by
    intro n
    rw [handedLoop]
    -- a byte of the line, or the NUL behind it
    rcases Nat.lt_or_eq_of_le hptr with hlt | rfl
    · obtain ⟨hc, hne⟩ := h.fetch_of_lt hlt
      have hn : n = min len (message.length - (ptr + 1)) + 1 := by omega
      rw [hc, hn, stored_succ]
      simp only [if_neg hne, Nat.add_zero]
      by_cases hf : putFails bytesRead = true
      · rw [if_pos hf, if_pos hf, Nat.zero_add, Nat.min_eq_left (Nat.succ_le_succ (Nat.zero_le _))]
        rfl
      · rw [if_neg hf, if_neg hf, handedLoop_eq h putFails len (ptr + 1) (bytesRead + 1) hlt,
          Nat.succ_min_succ, List.range'_succ]
        simp only [Nat.add_assoc, Nat.add_comm 1]
    · have hn : n = 0 := by omega
      rw [h.fetch_end, hn, Nat.min_zero]
      rfl

/-- **What a call hands out**: the bytes from the one it starts with, as far as the cursor gets. -/
theorem handed_eq (h : d.Loaded) (req : Request) :
    d.handed req = List.range' d.offset (taken req.len req.putFails d.offset) := by
  obtain ⟨c, hc, hstart⟩ := h.fetch_start
  unfold handed
  rw [hc]
  simp only [hstart]
  rw [handedLoop_eq h req.putFails req.len d.offset 0 (Nat.le_of_lt d.offset_lt)]
  simp only [Nat.zero_add]
  rfl

/-- The bytes of the line at `n` places from `off` on. -/
theorem map_range'_message {off n : Nat} (h : off + n ≤ message.length) :
    (List.range' off n).map (message.getD · 0) = endless off n := by
  rw [endless_eq_take_drop h]
  refine List.ext_getElem (by simp; omega) ?_
  intro i hi hi'
  rw [List.length_map, List.length_range'] at hi
  have hlt : off + i < message.length := by omega
  simp [List.getElem?_eq_getElem hlt]

/-- **What a call delivers** of what it hands out: the bytes before the first that fails. -/
theorem delivered_eq (h : d.Loaded) (req : Request) :
    ((d.handed req).take (stored req.putFails (d.handed req).length)).map (message.getD · 0)
      = endless d.offset (stored req.putFails (min req.len (message.length - d.offset))) := by
  have hle := stored_le req.putFails (min req.len (message.length - d.offset))
  have hlt := d.offset_lt
  rw [handed_eq h, List.length_range', taken, stored_min_succ,
    List.take_range'_of_length_ge (by omega), map_range'_message (by omega)]

/-- **No byte behind the line is handed out.** -/
theorem handed_lt (h : d.Loaded) (req : Request) : ∀ i ∈ d.handed req, i < message.length := by
  intro i hi
  have hlt := d.offset_lt
  rw [handed_eq h, List.mem_range'_1] at hi
  unfold taken at hi
  omega

theorem pointers_le (h : d.Loaded) (req : Request) : ∀ i ∈ d.pointers req, i ≤ message.length := by
  intro i hi
  rcases List.mem_cons.mp hi with rfl | hi
  · exact h.ptr_le
  · obtain ⟨j, hj, rfl⟩ := List.mem_map.mp hi
    exact handed_lt h req j hj

/-- **A call** hands out the next bytes of the endless line, up to the first it cannot store. -/
theorem call_eq (h : d.Loaded) (req : Request) :
    let n := min req.len (message.length - d.offset)
    Request.call d req
      = .ok ({ d with messagePtr := d.offset + min (stored req.putFails n + 1) n },
          { retval := stored req.putFails n
            delivered := endless d.offset (stored req.putFails n) }) := by
  intro n
  have hle : stored req.putFails n ≤ n := stored_le ..
  have hlt := d.offset_lt
  rw [endless_eq_take_drop (by omega)]
  exact deviceRead_spec h req.len req.putFails

theorem clean_call_eq (h : d.Loaded) (len : Nat) :
    let n := min len (message.length - d.offset)
    Request.call d (.clean len)
      = .ok ({ d with messagePtr := d.offset + n },
          { retval := n, delivered := endless d.offset n }) := by
  intro n
  have hcall := call_eq h (.clean len)
  simp only [Request.clean, stored_never] at hcall ⊢
  rw [hcall, Nat.min_eq_right (Nat.le_succ _)]

/-- How much of the line a call starts with: all of it at the NUL. -/
theorem Loaded.rest_eq (h : d.Loaded) : message.length - d.offset =
    if d.messagePtr = message.length then message.length
      else message.length - d.messagePtr := by
  unfold offset
  split
  · next heq => rw [heq, Nat.mod_self, Nat.sub_zero]
  · next hne => rw [Nat.mod_eq_of_lt (Nat.lt_of_le_of_ne h.ptr_le hne)]

theorem loaded_at (h : d.Loaded) {n : Nat} (hn : d.offset + n ≤ message.length) :
    ({ d with messagePtr := d.offset + n } : Device).Loaded := ⟨h.buffer, hn⟩

/-! ## Runs without a gap -/

theorem Gapless.nil (d : Device) : d.Gapless [] :=
  ⟨d, [], rfl, rfl, (Nat.mod_eq_of_lt d.offset_lt).symm⟩

theorem reads_loaded (h : d.Loaded) {reqs : List Request} {d' : Device} {rs : List Reply}
    (hrun : runE Request.call d reqs = .ok (d', rs)) : d'.Loaded := by
  obtain ⟨d₁, rs₁, hrun₁, h₁, -⟩ := reads_spec reqs h
  cases hrun.symm.trans hrun₁
  exact h₁

/-- One more call keeps a run without a gap iff each store of it succeeds. -/
theorem gapless_append_singleton_iff (h : d.Loaded) {pre : List Request} {req : Request}
    (hpre : d.Gapless pre) : d.Gapless (pre ++ [req]) ↔ ¬ d.ComesToFault pre req := by
  obtain ⟨d₁, rs, hrun, hrec, hoff⟩ := hpre
  have h₁ := reads_loaded h hrun
  have hcall := call_eq h₁ req
  have hlt := d₁.offset_lt
  have hle := stored_le req.putFails (min req.len (message.length - d₁.offset))
  have hfault : d.ComesToFault pre req ↔
      ∃ k < min req.len (message.length - d₁.offset), req.putFails k = true := by
    constructor
    · rintro ⟨d₂, rs₂, hrun₂, hk⟩
      cases hrun.symm.trans hrun₂
      exact hk
    · exact fun hk => ⟨d₁, rs, hrun, hk⟩
  rw [hfault, ← stored_eq_iff]
  dsimp only at hcall
  generalize hn : min req.len (message.length - d₁.offset) = n at hcall hle ⊢
  generalize stored req.putFails n = k at hcall hle ⊢
  have hrun' := runE_append_singleton hrun hcall
  have hnext : (d.offset + (received rs).length + k) % message.length
      = (d₁.offset + k) % message.length := by rw [hoff, Nat.mod_add_mod]
  constructor
  · -- behind a fault the cursor is one byte further than what has been handed out
    rintro ⟨d₂, rs₂, hrun₂, -, hoff₂⟩
    cases hrun'.symm.trans hrun₂
    rw [received_append_singleton, List.length_append, endless_length, ← Nat.add_assoc,
      hnext] at hoff₂
    by_contra hne
    have hskip : (d₁.offset + min (k + 1) n) % message.length = (d₁.offset + k) % message.length :=
      hoff₂
    rw [show min (k + 1) n = k + 1 by omega, show message.length = 14 from rfl] at hskip
    omega
  · rintro rfl
    refine ⟨_, _, hrun', ?_, ?_⟩
    · rw [received_append_singleton, List.length_append, endless_length, endless_append, ← hrec,
        ← endless_mod (d.offset + _), ← hoff]
    · rw [received_append_singleton, List.length_append, endless_length, ← Nat.add_assoc, hnext,
        Nat.min_eq_right (Nat.le_succ _)]
      rfl

theorem clean_gapless (h : d.Loaded) (lens : List Nat) : d.Gapless (lens.map Request.clean) := by
  induction lens using List.reverseRecOn with
  | nil => exact Gapless.nil d
  | append_singleton lens len ih =>
    rw [List.map_append, List.map_singleton, gapless_append_singleton_iff h ih]
    rintro ⟨_, _, _, _, _, hfail⟩
    cases hfail

/-- The return values of a run count the bytes it has stored. -/
theorem total_eq_length (h : d.Loaded) (reqs : List Request) {d' : Device} {rs : List Reply}
    (hrun : runE Request.call d reqs = .ok (d', rs)) : total rs = (received rs).length := by
  induction reqs using List.reverseRecOn generalizing d' rs with
  | nil =>
    cases hrun
    rfl
  | append_singleton reqs req ih =>
    obtain ⟨d₁, rs₁, hrun₁, h₁, -⟩ := reads_spec reqs h
    cases hrun.symm.trans (runE_append_singleton hrun₁ (call_eq h₁ req))
    rw [received_append_singleton, List.length_append, endless_length, Nat.cast_add, ← ih hrun₁]
    simp [total]

theorem chunkingIndependent (h : d.Loaded) : d.ChunkingIndependent := by
  intro lens₁ lens₂ d₁ d₂ rs₁ rs₂ hrun₁ hrun₂ htotal
  obtain ⟨_, _, hrun₁', hrec₁, -⟩ := clean_gapless h lens₁
  obtain ⟨_, _, hrun₂', hrec₂, -⟩ := clean_gapless h lens₂
  cases hrun₁.symm.trans hrun₁'
  cases hrun₂.symm.trans hrun₂'
  rw [total_eq_length h _ hrun₁, total_eq_length h _ hrun₂, Nat.cast_inj] at htotal
  rw [hrec₁, hrec₂, htotal]

/-! ## Main results -/

/--
**The cursor and the calls.** After load and any calls: `message_ptr` is at a byte of the message or
at the NUL behind it, and stays there during any further call, which hands no byte from the NUL on
to `put_user`, delivers those before the first that fails, and returns how many they are. A call
without faults returns the next bytes, up to the end of the line.
-/
theorem cursor_sound (paramMajorNum : Int) (answer : Except ErrCode Nat) (r : Registry)
    (reqs : List Request) :
    ∃ d rs, runE Request.call (deviceInitSub paramMajorNum answer r).2.1 reqs = .ok (d, rs) ∧
      d.messageBuffer = message ++ [0] ∧ (∀ c ∈ message, c ≠ 0) ∧
      d.messagePtr ≤ message.length ∧
      (∀ req, ∃ d' r, Request.call d req = .ok (d', r) ∧
        d.handed req = List.range' d.offset (d'.messagePtr - d.offset) ∧
        r.delivered = ((d.handed req).take (stored req.putFails (d.handed req).length)).map
          (message.getD · 0) ∧
        r.retval = r.delivered.length ∧
        (∀ i ∈ d.handed req, i < message.length) ∧
        ∀ i ∈ d.pointers req, i ≤ message.length) ∧
      (∀ len, ∃ d', Request.call d (.clean len) =
        let n := min len
          (if d.messagePtr = message.length then message.length
            else message.length - d.messagePtr)
        .ok (d', { retval := n, delivered := endless d.messagePtr n })) ∧
      d.ChunkingIndependent := by
  obtain ⟨d, rs, hrun, h, -⟩ := reads_spec reqs (deviceInitSub_loaded paramMajorNum answer r)
  refine ⟨d, rs, hrun, h.messageBuffer_eq, message_ne_zero, h.ptr_le, ?_,
    ?_, chunkingIndependent h⟩
  · intro req
    refine ⟨_, _, call_eq h req, ?_, (delivered_eq h req).symm, ?_, handed_lt h req,
      pointers_le h req⟩
    · rw [handed_eq h, Nat.add_sub_cancel_left]
      rfl
    · rw [endless_length]
  · intro len
    rw [← h.rest_eq, clean_call_eq h len]
    dsimp only
    rw [← endless_mod d.messagePtr]
    exact ⟨_, rfl⟩

/--
**When no byte is lost.** After each call of a run from load, what has been handed out is the
endless line from its start on, and the cursor is at the first byte missing, iff no call of the run
comes to a `put_user` that fails.
-/
theorem no_byte_lost_iff (paramMajorNum : Int) (answer : Except ErrCode Nat) (r : Registry)
    (reqs : List Request) :
    let d := (deviceInitSub paramMajorNum answer r).2.1
    d.offset = 0 ∧ ((∀ pre, pre <+: reqs → d.Gapless pre) ↔
      ∀ pre req, pre ++ [req] <+: reqs → ¬ d.ComesToFault pre req) := by
  intro d
  refine ⟨deviceInitSub_offset .., forall_prefix_iff (Gapless.nil d) ?_⟩
  intro pre req _ hpre
  exact gapless_append_singleton_iff (deviceInitSub_loaded ..) hpre

/-- A read of three bytes whose second store fails: the read after it starts one byte too far. -/
theorem fault_skips_byte :
    ¬ ∀ pre, pre <+: [⟨3, fun k => k == 1⟩, .clean 14] →
      (deviceInitSub 0 (.ok 240) Registry.empty).2.1.Gapless pre := by
  intro hall
  obtain ⟨d', rs, hrun, hrec, -⟩ := hall _ (List.prefix_refl _)
  have hrun' : runE Request.call (deviceInitSub 0 (.ok 240) Registry.empty).2.1
      [⟨3, fun k => k == 1⟩, .clean 14] = .ok (_, [⟨1, message.take 1⟩, ⟨12, message.drop 2⟩]) :=
    rfl
  cases hrun.symm.trans hrun'
  revert hrec
  decide

/-- Wherever the cursor is, a request for at least one byte gets one. -/
theorem clean_call_pos (h : d.Loaded) {len : Nat} (hlen : 1 ≤ len) :
    ∃ d' r, Request.call d (.clean len) = .ok (d', r) ∧ d'.Loaded ∧ r.retval ≠ 0 := by
  have hlt := d.offset_lt
  refine ⟨_, _, clean_call_eq h len, loaded_at h (by omega), ?_⟩
  show ((min len (message.length - d.offset) : Nat) : Int) ≠ 0
  omega

theorem readToEnd_eq_none (h : d.Loaded) {lens : Nat → Nat} (hlens : ∀ k, 1 ≤ lens k)
    (fuel : Nat) : readToEnd fuel lens d = .ok none :=
  runUntil_never (I := Loaded) (P := fun len => 1 ≤ len)
    (fun h hlen => clean_call_pos h hlen) fuel hlens h

theorem not_endsCleanly (h : d.Loaded) {lens : Nat → Nat} (hlens : ∀ k, 1 ≤ lens k) :
    ¬ d.EndsCleanly lens := by
  rintro ⟨fuel, d', rs, hend, -⟩
  rw [readToEnd_eq_none h hlens fuel] at hend
  cases hend

/--
**There is no end of the file.** After load and any calls, a client that reads until a call returns
0 does not stop after any number of calls, whatever lengths it asks for.
-/
theorem reading_never_ends (paramMajorNum : Int) (answer : Except ErrCode Nat) (r : Registry)
    (reqs : List Request) (lens : Nat → Nat) (hlens : ∀ k, 1 ≤ lens k) :
    ∃ d rs, runE Request.call (deviceInitSub paramMajorNum answer r).2.1 reqs = .ok (d, rs) ∧
      (∀ fuel, readToEnd fuel lens d = .ok none) ∧ ¬ d.EndsCleanly lens := by
  obtain ⟨d, rs, hrun, h, -⟩ := reads_spec reqs (deviceInitSub_loaded paramMajorNum answer r)
  exact ⟨d, rs, hrun, readToEnd_eq_none h hlens, not_endsCleanly h hlens⟩

theorem reading_never_ends_blocks :
    ∃ d rs, runE Request.call (deviceInitSub 0 (.ok 240) Registry.empty).2.1
        [⟨3, fun k => k == 1⟩] = .ok (d, rs) ∧
      (∀ fuel, readToEnd fuel (fun _ => 4096) d = .ok none) ∧
      ¬ d.EndsCleanly fun _ => 4096 :=
  reading_never_ends 0 (.ok 240) Registry.empty _ _ fun _ => by decide

/-- Reading the fresh device in blocks of 4096 bytes does not end. -/
theorem cat_never_ends :
    ¬ (deviceInitSub 0 (.ok 240) Registry.empty).2.1.EndsCleanly fun _ => 4096 :=
  not_endsCleanly (deviceInitSub_loaded ..) fun _ => by decide

end LkmSandbox.Device
