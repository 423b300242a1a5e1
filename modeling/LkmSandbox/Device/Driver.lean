import LkmSandbox.Registry
import Mathlib.Data.List.Range
import Mathlib.Data.List.TakeDrop

/-!
# The message device

`lkm_device` hands out one line of text, over and over. Where in the line the next read starts is
kept in `message_ptr`, a variable of the module.

* `Device.Loaded` — what holds of the variables once `device_init_sub` has run
* `Device.deviceRead_spec` — what one `device_read` does, whatever its length and wherever a
  `put_user` fails
-/

namespace LkmSandbox

/-! ## Variables of the module -/

/-- `MESSAGE` -/
def message : List UInt8 := cString "Hello, Linux!\n"

/-- `MESSAGE_BUFFER_LENGTH` -/
abbrev messageBufferLength : Nat := 15

/-- `PROC_FILE_NAME` -/
def procFileName : String := "lkm_device_major"

/-- The variables. `messagePtr` is the index in `messageBuffer` that `message_ptr` points to. -/
structure Device where
  messageBuffer : List UInt8
  messagePtr : Nat
  deviceOpenCount : Int
  majorNum : Int
deriving DecidableEq

namespace Device

/-- A use of `messageBuffer` outside it. -/
inductive Fault where
  | outOfRange (index : Nat)
deriving DecidableEq

/-- What a read returns and what it has stored in user space by then. -/
structure Reply where
  retval : Int
  delivered : List UInt8
deriving DecidableEq

/-! ## Loading and unloading -/

/-- `device_init_sub`, where the variables are as they are at load. -/
def deviceInitSub (paramMajorNum : Int) (answer : Except ErrCode Nat) (r : Registry) :
    Int × Device × Registry :=
  let d : Device :=
    { messageBuffer := strncpy message messageBufferLength
      messagePtr := 0
      deviceOpenCount := 0
      majorNum := (r.registerChrdev answer paramMajorNum).1 }
  let r := (r.registerChrdev answer paramMajorNum).2
  if d.majorNum < 0 then (-1, d, r) else (0, d, r)

/-- `proc_init_sub` -/
def procInitSub (answer : Bool) (r : Registry) : Int × Registry :=
  let (entry, r) := r.procCreateSingle answer procFileName
  if entry = false then (-1, r) else (0, r)

/-- `lkm_device_init`, given what `register_chrdev` and `proc_create_single` answer. -/
def lkmDeviceInit (paramMajorNum : Int) (chrdev : Except ErrCode Nat) (proc : Bool)
    (r : Registry) : Int × Device × Registry :=
  let (rc, d, r) := deviceInitSub paramMajorNum chrdev r
  if rc < 0 then (-1, d, r)
  else
    let (rc, r) := procInitSub proc r
    if rc < 0 then (-2, d, r) else (0, d, r)

/-- `lkm_device_exit` -/
def lkmDeviceExit (d : Device) (r : Registry) : Registry :=
  (r.unregisterChrdev d.majorNum).removeProcEntry procFileName

/-! ## Operations -/

/-- `*(message_buffer + i)` -/
def fetch (d : Device) (i : Nat) : Except Fault UInt8 :=
  match d.messageBuffer[i]? with
  | some c => .ok c
  | none => .error (.outOfRange i)

/--
The loop of `device_read`, with `len` bytes to go and `bytesRead` stored. `putFails k` says whether
the `k`-th `put_user` of the call returns `-EFAULT`.
-/
def readLoop (d : Device) (putFails : Nat → Bool) :
    Nat → Nat → Nat → List UInt8 → Except Fault (Nat × Nat × List UInt8)
  | 0, ptr, bytesRead, delivered => .ok (ptr, bytesRead, delivered)
  | len + 1, ptr, bytesRead, delivered => do
    let c ← d.fetch ptr
    if c = 0 then .ok (ptr, bytesRead, delivered)
    -- the argument `*(message_ptr++)` is evaluated, and so counted up, before the store can fail
    else if putFails bytesRead then .ok (ptr + 1, bytesRead, delivered)
    else d.readLoop putFails len (ptr + 1) (bytesRead + 1) (delivered ++ [c])

/-- `device_read` -/
def deviceRead (len : Nat) (putFails : Nat → Bool) (d : Device) :
    Except Fault (Device × Reply) := do
  let c ← d.fetch d.messagePtr
  let ptr := if c = 0 then 0 else d.messagePtr
  let (ptr, bytesRead, delivered) ← d.readLoop putFails len ptr 0 []
  .ok ({ d with messagePtr := ptr }, { retval := bytesRead, delivered })

/-- `device_write` -/
def deviceWrite (d : Device) : Int × Device := (-einval, d)

/-- `device_open` -/
def deviceOpen (d : Device) : Int × Device :=
  if d.deviceOpenCount > 0 then (-ebusy, d)
  else (0, { d with deviceOpenCount := d.deviceOpenCount + 1 })

/-- `device_release` -/
def deviceRelease (d : Device) : Int × Device :=
  (0, { d with deviceOpenCount := d.deviceOpenCount - 1 })

/-! ## What a read does -/

/-- The buffer holds the message and the pointer is at one of its bytes or at the NUL. -/
structure Loaded (d : Device) : Prop where
  buffer : d.messageBuffer = strncpy message messageBufferLength
  ptr_le : d.messagePtr ≤ message.length

theorem deviceInitSub_loaded (paramMajorNum : Int) (answer : Except ErrCode Nat) (r : Registry) :
    (deviceInitSub paramMajorNum answer r).2.1.Loaded := by
  unfold deviceInitSub
  simp only
  split <;> exact ⟨rfl, Nat.zero_le _⟩

/-- The first NUL is behind the message. -/
theorem message_ne_zero (c : UInt8) (hc : c ∈ message) : c ≠ 0 := by
  have hall : message.all (fun c => c != 0) = true := by decide
  simpa using List.all_eq_true.mp hall c hc

/-- How many of `n` stores come before the first that fails. -/
def stored (putFails : Nat → Bool) (n : Nat) : Nat := ((List.range n).find? putFails).getD n

theorem stored_zero (putFails : Nat → Bool) : stored putFails 0 = 0 := rfl

theorem stored_succ (putFails : Nat → Bool) (n : Nat) :
    stored putFails (n + 1)
      = if putFails 0 then 0 else stored (fun k => putFails (k + 1)) n + 1 := by
  unfold stored
  rw [List.range_succ_eq_map, List.find?_cons]
  cases putFails 0 with
  | true => rfl
  | false =>
    rw [List.find?_map]
    show (Option.map Nat.succ ((List.range n).find? fun k => putFails (k + 1))).getD (n + 1) = _
    cases (List.range n).find? fun k => putFails (k + 1) <;> rfl

@[simp] theorem stored_never (n : Nat) : stored (fun _ => false) n = n := by
  induction n with
  | zero => rfl
  | succ n ih => rw [stored_succ, ih, if_neg Bool.false_ne_true]

variable {d : Device}

theorem Loaded.fetch_of_lt (h : d.Loaded) {i : Nat} (hi : i < message.length) :
    d.fetch i = .ok message[i] ∧ message[i] ≠ 0 := by
  have hget : d.messageBuffer[i]? = some message[i] := by
    rw [h.buffer, strncpy, List.take_of_length_le (by decide), List.getElem?_append_left hi,
      List.getElem?_eq_getElem hi]
  exact ⟨by rw [fetch, hget], message_ne_zero _ (List.getElem_mem hi)⟩

theorem Loaded.fetch_end (h : d.Loaded) : d.fetch message.length = .ok 0 := by
  rw [fetch, h.buffer]
  rfl

/--
The loop from byte `ptr` of the line: it stops at the end of the line, after `len` bytes, or behind
the first byte that it cannot store.
-/
theorem readLoop_spec (h : d.Loaded) (putFails : Nat → Bool) : ∀ (len ptr bytesRead : Nat)
    (delivered : List UInt8), ptr ≤ message.length →
    let n := min len (message.length - ptr)
    let k := stored (fun j => putFails (bytesRead + j)) n
    d.readLoop putFails len ptr bytesRead delivered
      = .ok (ptr + min (k + 1) n, bytesRead + k, delivered ++ (message.drop ptr).take k)
  | 0, ptr, bytesRead, delivered, _ => by
    simp [readLoop, stored_zero]
  | len + 1, ptr, bytesRead, delivered, hptr => by
    intro n k
    -- a byte of the line, or the NUL behind it
    rcases Nat.lt_or_eq_of_le hptr with hlt | rfl
    · obtain ⟨hc, hne⟩ := h.fetch_of_lt hlt
      have hn : n = min len (message.length - (ptr + 1)) + 1 := by omega
      rw [readLoop, hc]
      show (if message[ptr] = 0 then _ else _) = _
      rw [if_neg hne]
      by_cases hf : putFails bytesRead = true
      · have hk : k = 0 := by
          show stored _ n = 0
          rw [hn, stored_succ, Nat.add_zero, if_pos hf]
        rw [if_pos hf, hk, hn]
        simp
      · have hk : k = stored (fun j => putFails (bytesRead + 1 + j))
            (min len (message.length - (ptr + 1))) + 1 := by
          show stored _ n = _
          rw [hn, stored_succ, Nat.add_zero, if_neg hf]
          simp only [Nat.add_assoc, Nat.add_comm 1]
        rw [if_neg hf, readLoop_spec h putFails len (ptr + 1) (bytesRead + 1) _ hlt, hk, hn]
        simp only [List.drop_eq_getElem_cons hlt, List.take_succ_cons, List.append_assoc,
          List.singleton_append, Except.ok.injEq, Prod.mk.injEq, and_true]
        omega
    · rw [readLoop, h.fetch_end]
      have hn : n = 0 := by omega
      have hk : k = 0 := by
        show stored _ n = 0
        rw [hn, stored_zero]
      rw [hk, hn]
      simp [bind, Except.bind]

/-- Where in the line the next read starts: at the NUL it goes back to the first byte. -/
def offset (d : Device) : Nat := d.messagePtr % message.length

theorem deviceInitSub_offset (paramMajorNum : Int) (answer : Except ErrCode Nat) (r : Registry) :
    (deviceInitSub paramMajorNum answer r).2.1.offset = 0 := by
  unfold deviceInitSub
  simp only
  split <;> rfl

/-- How much a request takes of the line, from `off` on: what it delivers and a byte it cannot. -/
def taken (len : Nat) (putFails : Nat → Bool) (off : Nat) : Nat :=
  min (stored putFails (min len (message.length - off)) + 1) (min len (message.length - off))

theorem offset_lt (d : Device) : d.offset < message.length := Nat.mod_lt _ (by decide)

/-- The byte a read looks at first decides where it starts. -/
theorem Loaded.fetch_start (h : d.Loaded) :
    ∃ c, d.fetch d.messagePtr = .ok c ∧ (if c = 0 then 0 else d.messagePtr) = d.offset := by
  unfold offset
  rcases Nat.lt_or_eq_of_le h.ptr_le with hlt | heq
  · obtain ⟨hc, hne⟩ := h.fetch_of_lt hlt
    exact ⟨_, hc, by rw [if_neg hne, Nat.mod_eq_of_lt hlt]⟩
  · rw [heq]
    exact ⟨0, h.fetch_end, by rw [if_pos rfl, Nat.mod_self]⟩

/-- **A read.** It delivers the next bytes of the line, up to the first that cannot be stored. -/
theorem deviceRead_spec (h : d.Loaded) (len : Nat) (putFails : Nat → Bool) :
    let k := stored putFails (min len (message.length - d.offset))
    d.deviceRead len putFails
      = .ok ({ d with messagePtr := d.offset + taken len putFails d.offset },
          { retval := k, delivered := (message.drop d.offset).take k }) := by
  intro k
  obtain ⟨c, hc, hstart⟩ := h.fetch_start
  unfold deviceRead
  rw [hc]
  simp only [bind, Except.bind]
  rw [hstart, readLoop_spec h putFails len d.offset 0 [] (Nat.le_of_lt d.offset_lt)]
  simp only [Nat.zero_add, List.nil_append]
  rfl

end Device

end LkmSandbox
