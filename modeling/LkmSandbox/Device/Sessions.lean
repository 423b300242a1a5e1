import LkmSandbox.Device.Driver
import LkmSandbox.Lib.Run

/-!
# Sessions on the message device

A session opens the device, reads and releases it. Neither opening nor releasing touches
`message_ptr`, so a session starts where the one before left off. This file says after which
histories a new session cannot tell.

* `session_spec` — a session is never refused after completed ones, and moves the offset by what its
  requests take of the line
* `sessions_independent_iff` — new sessions after two histories are alike, and start with the whole
  message, iff both histories leave off at the end of a line
-/

namespace LkmSandbox.Device

open Lib

/-! ## Sessions -/

/-- One call of `device_read`. -/
structure Request where
  len : Nat
  putFails : Nat → Bool

/-- A call in which every store succeeds. -/
def Request.clean (len : Nat) : Request := { len, putFails := fun _ => false }

def Request.call (d : Device) (req : Request) : Except Fault (Device × Reply) :=
  d.deviceRead req.len req.putFails

/-- The calls of a session. `none` stands for a `device_open` that is refused. -/
def session (d : Device) (reqs : List Request) : Except Fault (Device × Option (List Reply)) :=
  let (rc, d) := d.deviceOpen
  if rc ≠ 0 then .ok (d, none)
  else do
    let (d, replies) ← runE Request.call d reqs
    .ok (d.deviceRelease.2, some replies)

/-- What a session of requests without faults is given after a history of sessions. -/
def newSession (d : Device) (history : List (List Request)) (lens : List Nat) :
    Except Fault (Option (List Reply)) := do
  let (d, _) ← runE session d history
  let (_, replies) ← d.session (lens.map Request.clean)
  .ok replies

/-- All bytes that a session has received. -/
def received (replies : List Reply) : List UInt8 := replies.flatMap Reply.delivered

/-- The bytes up to the first newline. -/
def firstLine (bytes : List UInt8) : List UInt8 := bytes.takeWhile (· ≠ 10) ++ [10]

/-- A new session is served, and the first line it reads is the message. -/
def StartsWithMessage (d : Device) (history : List (List Request)) : Prop :=
  ∀ lens, ∃ replies, newSession d history lens = .ok (some replies) ∧
    (10 ∈ received replies → firstLine (received replies) = message)

/-- New sessions after the two histories get the same, and start with the message. -/
def Independent (d : Device) (h₁ h₂ : List (List Request)) : Prop :=
  (∀ lens, newSession d h₁ lens = newSession d h₂ lens) ∧
    d.StartsWithMessage h₁ ∧ d.StartsWithMessage h₂

/-! ## The offset after a history -/

/-- The offset after a request, from the offset before it. -/
def Request.next (off : Nat) (req : Request) : Nat :=
  (off + taken req.len req.putFails off) % message.length

/--
Going through the requests in order, each of which takes of the line what is left of it, at most its
length and at most one byte that cannot be stored, the last byte taken ends a line.
-/
def EndsLine (history : List (List Request)) : Prop := history.flatten.foldl Request.next 0 = 0

variable {d : Device}

/-- No session is open. -/
structure Ready (d : Device) : Prop extends Loaded d where
  closed : d.deviceOpenCount = 0

theorem deviceRead_next (h : d.Loaded) (req : Request) :
    ∃ d' r, Request.call d req = .ok (d', r) ∧ d'.Loaded ∧
      d'.offset = req.next d.offset ∧ d'.deviceOpenCount = d.deviceOpenCount := by
  refine ⟨_, _, deviceRead_spec h req.len req.putFails, ⟨h.buffer, ?_⟩, rfl, rfl⟩
  have hlt := d.offset_lt
  show d.offset + taken _ _ _ ≤ _
  unfold taken
  omega

theorem reads_spec (reqs : List Request) : ∀ {d : Device}, d.Loaded →
    ∃ d' rs, runE Request.call d reqs = .ok (d', rs) ∧
      d'.Loaded ∧ d'.offset = reqs.foldl Request.next d.offset ∧
      d'.deviceOpenCount = d.deviceOpenCount := by
  intro d h
  refine runE_foldl (f := Request.next) (P := fun _ => True)
    (R := fun (d₁ : Device) (off : Nat) =>
      d₁.Loaded ∧ d₁.offset = off ∧ d₁.deviceOpenCount = d.deviceOpenCount)
    ?_ reqs (fun _ _ => trivial) ⟨h, rfl, rfl⟩
  rintro d₁ _ req ⟨h₁, rfl, hcount₁⟩ -
  obtain ⟨d₂, r, hread, h₂, hoff₂, hcount₂⟩ := deviceRead_next h₁ req
  exact ⟨d₂, r, hread, h₂, hoff₂, hcount₂.trans hcount₁⟩

theorem session_eq (h : d.Ready) {reqs : List Request} {d' : Device} {rs : List Reply}
    (hrun : runE Request.call { d with deviceOpenCount := d.deviceOpenCount + 1 } reqs
      = .ok (d', rs)) : d.session reqs = .ok (d'.deviceRelease.2, some rs) := by
  have hopen : d.deviceOpen = (0, { d with deviceOpenCount := d.deviceOpenCount + 1 }) := by
    unfold deviceOpen
    rw [if_neg (by rw [h.closed]; omega)]
  unfold session
  rw [hopen]
  simp only [ne_eq, not_true_eq_false, if_false, hrun]
  rfl

/-- **A session** is served, and leaves the device free and further on in the line. -/
theorem session_spec (h : d.Ready) (reqs : List Request) :
    ∃ d' rs, d.session reqs = .ok (d', some rs) ∧ d'.Ready ∧
      d'.offset = reqs.foldl Request.next d.offset := by
  have hopened : ({ d with deviceOpenCount := d.deviceOpenCount + 1 } : Device).Loaded :=
    ⟨h.buffer, h.ptr_le⟩
  obtain ⟨d₁, rs, hrun, h₁, hoff, hcount⟩ := reads_spec reqs hopened
  refine ⟨d₁.deviceRelease.2, rs, session_eq h hrun, ⟨⟨h₁.buffer, h₁.ptr_le⟩, ?_⟩, hoff⟩
  show d₁.deviceOpenCount - 1 = 0
  rw [hcount]
  show d.deviceOpenCount + 1 - 1 = 0
  rw [h.closed]
  rfl

theorem history_spec (history : List (List Request)) : ∀ {d : Device}, d.Ready →
    ∃ d' rs, runE session d history = .ok (d', rs) ∧ d'.Ready ∧
      d'.offset = history.flatten.foldl Request.next d.offset := by
  intro d h
  rw [List.foldl_flatten]
  refine runE_foldl (f := fun off reqs => reqs.foldl Request.next off) (P := fun _ => True)
    (R := fun (d₁ : Device) (off : Nat) => d₁.Ready ∧ d₁.offset = off)
    ?_ history (fun _ _ => trivial) ⟨h, rfl⟩
  rintro d₁ _ reqs ⟨h₁, rfl⟩ -
  obtain ⟨d₂, rs, hs, h₂, hoff₂⟩ := session_spec h₁ reqs
  exact ⟨d₂, some rs, hs, h₂, hoff₂⟩

theorem deviceInitSub_ready (paramMajorNum : Int) (answer : Except ErrCode Nat) (r : Registry) :
    (deviceInitSub paramMajorNum answer r).2.1.Ready :=
  ⟨deviceInitSub_loaded .., by unfold deviceInitSub; simp only; split <;> rfl⟩

/-! ## What a new session reads -/

/-- What calls without faults reply, from an offset on. -/
def repliesFrom (off : Nat) : List Nat → List Reply
  | [] => []
  | len :: lens =>
    let n := min len (message.length - off)
    { retval := n, delivered := (message.drop off).take n } ::
      repliesFrom ((off + n) % message.length) lens

theorem taken_clean (len off : Nat) :
    taken len (fun _ => false) off = min len (message.length - off) := by
  unfold taken
  rw [stored_never]
  omega

theorem clean_reads (lens : List Nat) : ∀ {d : Device}, d.Loaded →
    ∃ d', runE Request.call d (lens.map Request.clean)
      = .ok (d', repliesFrom d.offset lens) := by
  induction lens with
  | nil => exact fun _ => ⟨_, rfl⟩
  | cons len lens ih =>
    intro d h
    have hread := deviceRead_spec h len fun _ => false
    simp only [stored_never, taken_clean] at hread
    obtain ⟨d₁, r, hread', h₁, -, -⟩ := deviceRead_next h (.clean len)
    cases hread'.symm.trans hread
    obtain ⟨d', hrun⟩ := ih h₁
    exact ⟨d', runE_cons hread hrun⟩

/-- A new session starts at the offset that the history has left. -/
theorem newSession_eq (h : d.Ready) (history : List (List Request)) (lens : List Nat) :
    newSession d history lens
      = .ok (some (repliesFrom (history.flatten.foldl Request.next d.offset) lens)) := by
  obtain ⟨d₁, rs, hrun, h₁, hoff⟩ := history_spec history h
  have hopened : ({ d₁ with deviceOpenCount := d₁.deviceOpenCount + 1 } : Device).Loaded :=
    ⟨h₁.buffer, h₁.ptr_le⟩
  obtain ⟨d₂, hreads⟩ := clean_reads lens hopened
  unfold newSession
  rw [hrun, ← hoff]
  simp only [bind, Except.bind, session_eq h₁ hreads]
  rfl

/-- From the start of a line, what is received is the message over and over. -/
theorem received_repliesFrom (lens : List Nat) : ∀ off < message.length, ∃ k rest,
    message.drop off ++ (List.replicate k message).flatten
      = received (repliesFrom off lens) ++ rest := by
  induction lens with
  | nil => exact fun off _ => ⟨0, _, rfl⟩
  | cons len lens ih =>
    intro off hoff
    obtain ⟨k, rest, heq⟩ := ih ((off + min len (message.length - off)) % message.length)
      (Nat.mod_lt _ (by decide))
    show ∃ k rest, _ = ((message.drop off).take (min len (message.length - off)) ++
      received (repliesFrom _ lens)) ++ rest
    -- the call stops within the line, or takes it to its end and the next one starts a new line
    rcases Nat.lt_or_ge len (message.length - off) with hlt | hge
    · refine ⟨k, rest, ?_⟩
      rw [Nat.min_eq_left (Nat.le_of_lt hlt), Nat.mod_eq_of_lt (by omega)] at heq
      rw [Nat.min_eq_left (Nat.le_of_lt hlt), Nat.mod_eq_of_lt (by omega), List.append_assoc, ← heq,
        ← List.append_assoc, ← List.drop_drop, List.take_append_drop]
    · refine ⟨k + 1, rest, ?_⟩
      have hwrap : off + (message.length - off) = message.length := by omega
      rw [Nat.min_eq_right hge, hwrap, Nat.mod_self, List.drop_zero] at heq
      rw [Nat.min_eq_right hge, hwrap, Nat.mod_self, List.append_assoc, ← heq,
        List.take_of_length_le (by simp), List.replicate_succ, List.flatten_cons]

theorem firstLine_append {a : List UInt8} (ha : 10 ∈ a) (b : List UInt8) :
    firstLine (a ++ b) = firstLine a := by
  unfold firstLine
  congr 1
  induction a with
  | nil => exact absurd ha List.not_mem_nil
  | cons c a ih =>
    rw [List.cons_append, List.takeWhile_cons, List.takeWhile_cons]
    by_cases hc : c = 10
    · simp [hc]
    · rw [ih ((List.mem_cons.mp ha).resolve_left (Ne.symm hc))]

/-- A session that starts a line reads the message first, and no other session does. -/
theorem startsWithMessage_iff (h : d.Ready) (history : List (List Request)) :
    d.StartsWithMessage history ↔ history.flatten.foldl Request.next d.offset = 0 := by
  have hlt : history.flatten.foldl Request.next d.offset < message.length := by
    obtain ⟨d', -, -, -, hoff⟩ := history_spec history h
    rw [← hoff]
    exact d'.offset_lt
  unfold StartsWithMessage
  generalize hoff : history.flatten.foldl Request.next d.offset = off at hlt
  constructor
  · intro hstart
    obtain ⟨replies, hserved, hline⟩ := hstart [message.length]
    rw [newSession_eq h, hoff] at hserved
    cases hserved
    -- a read of the rest of a line that is not the whole one gives it away
    have hrest : ∀ off < message.length, off ≠ 0 →
        10 ∈ received (repliesFrom off [message.length]) ∧
          firstLine (received (repliesFrom off [message.length])) ≠ message := by decide
    by_contra hne
    obtain ⟨hmem, hfirst⟩ := hrest off hlt hne
    exact hfirst (hline hmem)
  · rintro rfl lens
    refine ⟨_, by rw [newSession_eq h, hoff], ?_⟩
    intro hmem
    obtain ⟨k, rest, heq⟩ := received_repliesFrom lens 0 hlt
    rw [← firstLine_append hmem rest, ← heq, List.drop_zero, firstLine_append (by decide)]
    decide

/--
**When sessions are independent.** For any two histories of completed sessions after load: new
sessions are alike and start with the message iff both histories leave off at the end of a line.
-/
theorem sessions_independent_iff (paramMajorNum : Int) (answer : Except ErrCode Nat)
    (r : Registry) (h₁ h₂ : List (List Request)) :
    Independent (deviceInitSub paramMajorNum answer r).2.1 h₁ h₂ ↔ EndsLine h₁ ∧ EndsLine h₂ := by
  have hready := deviceInitSub_ready paramMajorNum answer r
  have hzero := deviceInitSub_offset paramMajorNum answer r
  generalize (deviceInitSub paramMajorNum answer r).2.1 = d at hready hzero
  unfold Independent EndsLine
  rw [startsWithMessage_iff hready, startsWithMessage_iff hready, hzero]
  constructor
  · rintro ⟨-, hends⟩
    exact hends
  · rintro ⟨he₁, he₂⟩
    refine ⟨?_, he₁, he₂⟩
    intro lens
    rw [newSession_eq hready, newSession_eq hready, hzero, he₁, he₂]

/-- After a session that has read one byte, a new session is not given the whole message. -/
theorem one_byte_read_shows :
    ¬ Independent (deviceInitSub 0 (.ok 240) Registry.empty).2.1 [] [[.clean 1]] := by
  rintro ⟨hsame, -⟩
  have hdiff : newSession (deviceInitSub 0 (.ok 240) Registry.empty).2.1 [] [20]
        = .ok (some [{ retval := 14, delivered := message }]) ∧
      newSession (deviceInitSub 0 (.ok 240) Registry.empty).2.1 [[.clean 1]] [20]
        = .ok (some [{ retval := 13, delivered := message.drop 1 }]) := ⟨rfl, rfl⟩
  have heq := hsame [20]
  rw [hdiff.1, hdiff.2] at heq
  simp at heq

end LkmSandbox.Device
