import LkmSandbox.Mev.LastWrite

/-!
# Open files

`mev_fops` as programs meet it. Each open file has a position, which the kernel keeps and passes by
reference, and the flags it was opened with, which say whether it may be read or written; `pread`
and `pwrite` pass a position of the caller's own. A program sees what its requests return, and
`View` is what it can tell from that: where its files stand, how long the contents are, and what
they are. `files_tell` says that all of it is so.
-/

namespace LkmSandbox.Mev

open Lib

/-! ## The rest of `mev_fops` -/

/-- What is returned, and `file->f_pos` afterwards. -/
def mevLlseek (fPos : Nat) (_offset : Int) (_whence : Int) : Int × Nat := (0, fPos)

def mevIoctl (_cmd : UInt32) (_arg : Nat) : Int := 0

def mevRelease : Int := 0

/-! ## Requests -/

def ebadf : Int := 9

/-- A request for an open file. With `pos`, the caller passes a position of its own. -/
inductive Request where
  | mevOpen (fFlags : UInt32)
  | mevRelease (file : Nat)
  | mevLlseek (file : Nat) (offset whence : Int)
  | mevIoctl (file : Nat) (cmd : UInt32) (arg : Nat)
  | mevRead (file : Nat) (pos : Option Nat) (count uncopied : Nat)
  | mevWrite (file : Nat) (pos : Option Nat) (count : Nat) (buf : Nat → UInt8) (copy : UserCopy)

/-- The kernel caps the size of a read, and a position is one that the list can cover. -/
def Request.Capped : Request → Prop
  | .mevRead _ pos count _ => count < 2 ^ 31 ∧ ∀ p ∈ pos, p < 2 ^ 63
  | .mevWrite _ pos _ _ _ => ∀ p ∈ pos, p < listSpan
  | _ => True

/-- What the kernel keeps of an open file. -/
structure OpenFile where
  fPos : Nat
  fFlags : UInt32

/-- `FMODE_READ`, as the kernel gets it from `O_ACCMODE`. -/
def OpenFile.mayRead (f : OpenFile) : Bool := (f.fFlags + 1) &&& 1 != 0

/-- `FMODE_WRITE` -/
def OpenFile.mayWrite (f : OpenFile) : Bool := (f.fFlags + 1) &&& 2 != 0

/-- The device and its open files. The next to be opened is `opened`. -/
structure Files where
  mem : Mem
  opened : Nat
  file : Nat → Option OpenFile

namespace Files

def start : Files := { mem := trimmed, opened := 0, file := fun _ => none }

/-- What a call that takes no position returns. -/
def plain (retval : Int) : Reply := { retval, fPos := 0, delivered := [] }

/--
The kernel refuses what the file was not opened for. The position is the file's own, and then moves,
unless the caller passes one.
-/
def transfer (s : Files) (file : Nat) (may : OpenFile → Bool) (pos : Option Nat)
    (io : Nat → Mem → Except Fault (Mem × Reply)) : Except Fault (Files × Reply) :=
  match s.file file with
  | none => .ok (s, plain (-ebadf))
  | some f =>
    if may f then do
      let (m, r) ← io (pos.getD f.fPos) s.mem
      .ok ({ s with mem := m,
                    file := if pos.isNone then
                        Function.update s.file file (some { f with fPos := r.fPos })
                      else s.file }, r)
    else .ok (s, plain (-ebadf))

def step (env : Env) (s : Files) : Request → Except Fault (Files × Reply)
  | .mevOpen fFlags => do
    let m ← mevOpen fFlags s.mem
    .ok ({ mem := m, opened := s.opened + 1,
           file := Function.update s.file s.opened (some { fPos := 0, fFlags }) }, plain 0)
  | .mevRelease file =>
    match s.file file with
    | none => .ok (s, plain (-ebadf))
    | some _ => .ok ({ s with file := Function.update s.file file none }, plain mevRelease)
  | .mevLlseek file offset whence =>
    match s.file file with
    | none => .ok (s, plain (-ebadf))
    | some f =>
      let (retval, fPos) := mevLlseek f.fPos offset whence
      .ok ({ s with file := Function.update s.file file (some { f with fPos }) }, plain retval)
  | .mevIoctl file cmd arg =>
    match s.file file with
    | none => .ok (s, plain (-ebadf))
    | some _ => .ok (s, plain (mevIoctl cmd arg))
  | .mevRead file pos count uncopied =>
    s.transfer file OpenFile.mayRead pos fun p m => mevRead env p count uncopied m
  | .mevWrite file pos count buf copy =>
    s.transfer file OpenFile.mayWrite pos fun p m => mevWrite env p count buf copy m

end Files

/-! ## What a program can tell -/

/-- The size after one more call. -/
def toldSize (size : Nat) : Call × Reply → Nat
  | (.mevOpen fFlags, _) => if mevIoIsWronly fFlags then 0 else size
  | (.mevTrim, _) => 0
  | (.mevRead .., _) => size
  | (.mevWrite p .., r) => if r.retval < 0 then size else max size (p + r.retval.toNat)

/-- What the requests and what they returned tell: the contents where `byte` knows them. -/
structure View where
  opened : Nat
  file : Nat → Option OpenFile
  size : Nat
  byte : Nat → Option UInt8

namespace View

def start : View := { opened := 0, file := fun _ => none, size := 0, byte := fun _ => none }

def tell (v : View) (e : Call × Reply) : View :=
  { v with size := toldSize v.size e, byte := fun x => known x (v.byte x) e }

/-- A file that was opened for this moves by what was returned. -/
def transfer (v : View) (file : Nat) (may : OpenFile → Bool) (pos : Option Nat) (call : Nat → Call)
    (r : Reply) : View :=
  match v.file file with
  | none => v
  | some f =>
    if may f then
      { v.tell (call (pos.getD f.fPos), r) with
          file := if pos.isNone then
              Function.update v.file file (some { f with fPos := f.fPos + r.retval.toNat })
            else v.file }
    else v

section

variable {v : View} {file : Nat} {may : OpenFile → Bool} {f : OpenFile} {pos : Option Nat}
  {call : Nat → Call} {r : Reply}

theorem transfer_closed (h : v.file file = none) : v.transfer file may pos call r = v := by
  unfold transfer
  rw [h]

theorem transfer_barred (h : v.file file = some f) (hmay : ¬ may f = true) :
    v.transfer file may pos call r = v := by
  unfold transfer
  rw [h]
  exact if_neg hmay

theorem transfer_own (h : v.file file = some f) (hmay : may f = true) :
    v.transfer file may none call r = { v.tell (call f.fPos, r) with
      file := Function.update v.file file (some { f with fPos := f.fPos + r.retval.toNat }) } := by
  unfold transfer
  rw [h]
  exact if_pos hmay

theorem transfer_at (h : v.file file = some f) (hmay : may f = true) (q : Nat) :
    v.transfer file may (some q) call r = v.tell (call q, r) := by
  unfold transfer
  rw [h]
  exact if_pos hmay

end

def next (v : View) : Request × Reply → View
  | (.mevOpen fFlags, r) =>
    { v.tell (.mevOpen fFlags, r) with
        opened := v.opened + 1
        file := Function.update v.file v.opened (some { fPos := 0, fFlags }) }
  | (.mevRelease file, _) => { v with file := Function.update v.file file none }
  | (.mevLlseek .., _) => v
  | (.mevIoctl .., _) => v
  | (.mevRead file pos count uncopied, r) =>
    v.transfer file OpenFile.mayRead pos (.mevRead · count uncopied) r
  | (.mevWrite file pos count buf copy, r) =>
    v.transfer file OpenFile.mayWrite pos (.mevWrite · count buf copy) r

end View

/-- The view after requests that returned this. -/
def view (history : List (Request × Reply)) : View := history.foldl View.next View.start

/-- What a read at `p` has to return, its copy being good. -/
structure View.Expects (v : View) (p count : Nat) (r : Reply) : Prop where
  ended : v.size ≤ p → r.retval = 0
  going : (v.byte p).isSome →
    r.retval = (min (min count (v.size - p)) (4000 - p % 4000) : Nat)
  length : r.delivered.length = r.retval.toNat
  bytes : ∀ k w u, r.delivered[k]? = some w → v.byte (p + k) = some u → w = u

/-! ## One call -/

variable {env : Env} {m : Mem} {s : Store}

/-- The size is what is told, whatever the call. -/
theorem Store.step_size (env : Env) (s : Store) (c : Call) :
    (s.step env c).1.size = toldSize s.size (c, (s.step env c).2) := by
  cases c with
  | mevOpen fFlags =>
    unfold Store.step toldSize
    simp only
    split <;> rfl
  | mevRead p count uncopied => exact s.lookup_size env p
  | mevWrite p count buf copy =>
    unfold Store.step toldSize
    simp only
    rcases s.write_cases env p count buf copy with ⟨-, hw⟩ | ⟨-, -, hw⟩ | ⟨-, -, hw⟩
    · rw [hw]
      exact s.allocate_size env _
    · rw [hw]
      exact s.allocate_size env _
    · rw [hw]
      simp only [show ¬ ((Store.chunk p count : Nat) : Int) < 0 by omega, if_false,
        Int.toNat_natCast]
      exact congrArg (max · _) (s.allocate_size env _)
  | mevTrim => rfl

/-- A call moves the position by what it returns, and that is a quantum at most. -/
def Reply.Moves (p : Nat) (r : Reply) : Prop := r.fPos = p + r.retval.toNat ∧ r.retval ≤ 4000

theorem Reply.Moves.stays (p : Nat) {retval : Int} (h : retval ≤ 0) (bytes : List UInt8) :
    Reply.Moves p { retval, fPos := p, delivered := bytes } :=
  ⟨by show p = p + retval.toNat; omega, by show retval ≤ 4000; omega⟩

theorem Reply.Moves.advances (p : Nat) {n : Nat} (h : n ≤ 4000) (bytes : List UInt8) :
    Reply.Moves p { retval := n, fPos := p + n, delivered := bytes } :=
  ⟨by show p + n = p + (n : Int).toNat; rw [Int.toNat_natCast], by show (n : Int) ≤ 4000; omega⟩

theorem Store.chunk_le_quantum (p count : Nat) : Store.chunk p count ≤ 4000 := by
  unfold Store.chunk
  omega

theorem Store.read_moves (s : Store) (p count uncopied : Nat) :
    Reply.Moves p (s.read p count uncopied) := by
  unfold Store.read
  split
  · exact .stays p (Int.le_refl 0) _
  · split
    · exact .stays p (Int.le_refl 0) _
    · dsimp only [readReply]
      split
      · exact .stays p (by decide) _
      · exact .advances p (Store.chunk_le_quantum p _) _

theorem Store.write_moves (env : Env) (s : Store) (p count : Nat) (buf : Nat → UInt8)
    (copy : UserCopy) : Reply.Moves p (s.write env p count buf copy).2 := by
  rcases s.write_cases env p count buf copy with ⟨-, hw⟩ | ⟨-, -, hw⟩ | ⟨-, -, hw⟩
  · rw [hw]
    exact .stays p (by decide) _
  · rw [hw]
    exact .stays p (by decide) _
  · rw [hw]
    exact .advances p (Store.chunk_le_quantum p _) _

/-- The container has this size and, as far as they are known, these bytes. -/
def Tells (m : Mem) (size : Nat) (byte : Nat → Option UInt8) : Prop :=
  ∃ s : Store, Represents m s ∧ Known byte s ∧ s.size = size ∧ size ≤ listSpan

theorem Tells.start : Tells trimmed 0 fun _ => none :=
  ⟨Store.empty, represents_trimmed, fun _ _ hx => (nomatch hx), rfl, Nat.zero_le _⟩

variable {size : Nat} {byte : Nat → Option UInt8}

theorem Tells.step (h : Tells m size byte) (env : Env) {c : Call} (hc : c.Held) :
    ∃ m' r, Mev.step env m c = .ok (m', r) ∧
      Tells m' (toldSize size (c, r)) (fun x => known x (byte x) (c, r)) ∧
      ∃ s : Store, r = (s.step env c).2 := by
  obtain ⟨s, hrep, hknown, rfl, hle⟩ := h
  obtain ⟨m', he, hrep'⟩ := step_simulates env hrep hc.valid
  exact ⟨m', _, he, ⟨_, hrep', hknown.step env hc, s.step_size env c,
    s.step_size env c ▸ s.step_size_le env hc hle⟩, s, rfl⟩

/-- **What a read has to return, it returns.** -/
theorem Tells.read (h : Tells m size byte) (env : Env) {p count : Nat} (hp : p < 2 ^ 63)
    (hc : count < 2 ^ 31) {v : View} (hsize : v.size = size) (hbyte : v.byte = byte) :
    ∃ m' r, mevRead env p count 0 m = .ok (m', r) ∧ v.Expects p count r := by
  subst hsize hbyte
  obtain ⟨s, hrep, hknown, hsize, hle⟩ := h
  obtain ⟨m', r, s', he, -, -, hread⟩ := hrep.read (by omega) env hp hc 0
  refine ⟨m', r, he, ?_, ?_, hread.length, ?_⟩
  · intro hend
    rw [hread.of_stops (Or.inl (show s.size ≤ p by omega))]
  · intro hsome
    obtain ⟨u, hu⟩ := Option.isSome_iff_exists.mp hsome
    obtain ⟨hb, hlt⟩ := hknown p u hu
    rw [(hread.of_not_stops (Store.not_stops hb hlt)).2.1, ← hsize]
    rfl
  · intro k w u hw hu
    have hb := hread.delivered hw
    rw [s.flat_byte, (hknown _ _ hu).1] at hb
    exact (Option.some.inj hb).symm

/-! ## Requests, one after another -/

/-- The view is right, and no position leaves the range in `n` more requests. -/
structure Agrees (n : Nat) (s : Files) (v : View) : Prop where
  opened : s.opened = v.opened
  file : s.file = v.file
  tells : Tells s.mem v.size v.byte
  few : n < 2 ^ 32 * 1000
  room : ∀ file f, s.file file = some f → f.fPos + 4000 * n < listSpan

theorem Agrees.start {n : Nat} (h : n < 2 ^ 32 * 1000) : Agrees n Files.start View.start where
  opened := rfl
  file := rfl
  tells := .start
  few := h
  room := fun _ _ hf => (nomatch hf)

section

variable {n : Nat} {s : Files} {v : View}

theorem Agrees.later (h : Agrees (n + 1) s v) : Agrees n s v where
  opened := h.opened
  file := h.file
  tells := h.tells
  few := Nat.lt_of_succ_lt h.few
  room := by
    intro file f hf
    have := h.room file f hf
    omega

/-- What is there after an update is new or was there. -/
theorem update_eq_some {α : Type} {g : Nat → Option α} {file other : Nat} {q : α} {p : Option α}
    (h : Function.update g file p other = some q) : p = some q ∨ g other = some q := by
  by_cases heq : other = file
  · rw [heq, Function.update_self] at h
    exact Or.inl h
  · rw [Function.update_of_ne heq] at h
    exact Or.inr h

theorem update_of_eq {α : Type} {g : Nat → Option α} {file : Nat} {p : Option α}
    (h : g file = p) : Function.update g file p = g := by
  rw [← h, Function.update_eq_self]

/-- One file is opened, closed or moves. -/
theorem Agrees.move (h : Agrees (n + 1) s v) {file opened opened' size : Nat}
    {p : Option OpenFile} {m : Mem} {byte : Nat → Option UInt8} (hopened : opened = opened')
    (hm : Tells m size byte) (hp : ∀ f ∈ p, f.fPos + 4000 * n < listSpan) :
    Agrees n { mem := m, opened, file := Function.update s.file file p }
      { opened := opened', file := Function.update v.file file p, size, byte } where
  opened := hopened
  file := by rw [h.file]
  tells := hm
  few := h.later.few
  room := by
    intro other f hf
    rcases update_eq_some hf with hnew | hold
    · exact hp f hnew
    · exact h.later.room other f hold

/-- A read or a write of a file, at its own position or at one that is passed. -/
theorem Agrees.transfer (h : Agrees (n + 1) s v) (env : Env) (file : Nat) (may : OpenFile → Bool)
    {pos : Option Nat} (call : Nat → Call) (hown : ∀ p, p < listSpan → (call p).Held)
    (hpos : ∀ p ∈ pos, (call p).Held)
    (hmoves : ∀ p (st : Store), Reply.Moves p (st.step env (call p)).2) :
    ∃ s' r, s.transfer file may pos (fun p m => step env m (call p)) = .ok (s', r) ∧
      Agrees n s' (v.transfer file may pos call r) := by
  unfold Files.transfer
  cases hfile : s.file file with
  | none =>
    have hview : v.file file = none := h.file ▸ hfile
    exact ⟨s, _, rfl, by rw [View.transfer_closed hview]; exact h.later⟩
  | some f =>
    have hview : v.file file = some f := h.file ▸ hfile
    have hf := h.room file f hfile
    by_cases hmay : may f = true
    · cases pos with
      | none =>
        obtain ⟨m, r, he, hm, st, rfl⟩ := h.tells.step env (hown f.fPos (by omega))
        obtain ⟨hmove, hle⟩ := hmoves f.fPos st
        simp only [hmay, if_true, Option.getD_none, he, ok_bind]
        refine ⟨_, _, rfl, ?_⟩
        rw [View.transfer_own hview hmay, ← hmove]
        refine h.move h.opened hm ?_
        intro g hg
        cases hg
        show (st.step env (call f.fPos)).2.fPos + 4000 * n < listSpan
        omega
      | some q =>
        obtain ⟨m, r, he, hm, -⟩ := h.tells.step env (hpos q rfl)
        simp only [hmay, if_true, Option.getD_some, he, ok_bind]
        refine ⟨_, _, rfl, ?_⟩
        rw [View.transfer_at hview hmay]
        exact { h.later with tells := hm }
    · simp only [if_neg hmay]
      refine ⟨s, _, rfl, ?_⟩
      rw [View.transfer_barred hview hmay]
      exact h.later

/-- **One request.** -/
theorem Agrees.step (h : Agrees (n + 1) s v) (env : Env) {req : Request} (hreq : req.Capped) :
    ∃ s' r, s.step env req = .ok (s', r) ∧ Agrees n s' (v.next (req, r)) := by
  cases req with
  | mevOpen fFlags =>
    obtain ⟨m, r, he, hm, -⟩ := h.tells.step env (c := .mevOpen fFlags) trivial
    rw [Files.step]
    simp only [Mev.step] at he
    cases hopen : mevOpen fFlags s.mem with
    | error e =>
      rw [hopen] at he
      cases he
    | ok m' =>
      rw [hopen] at he
      cases he
      refine ⟨_, _, rfl, ?_⟩
      rw [View.next, ← h.opened]
      refine h.move rfl hm ?_
      intro f hf
      cases hf
      have := h.few
      show 0 + 4000 * n < listSpan
      unfold listSpan
      omega
  | mevRelease file =>
    rw [Files.step]
    cases hfile : s.file file with
    | none =>
      refine ⟨_, _, rfl, ?_⟩
      rw [View.next, ← h.file, update_of_eq hfile]
      exact { h.later with file := rfl }
    | some f =>
      refine ⟨_, _, rfl, h.move h.opened h.tells ?_⟩
      intro g hg
      cases hg
  -- the file stays where it is
  | mevLlseek file offset whence =>
    rw [Files.step]
    cases hfile : s.file file with
    | none => exact ⟨_, _, rfl, h.later⟩
    | some f =>
      refine ⟨_, _, rfl, ?_⟩
      simp only [update_of_eq hfile]
      exact h.later
  | mevIoctl file cmd arg =>
    rw [Files.step]
    cases hfile : s.file file with
    | none => exact ⟨_, _, rfl, h.later⟩
    | some f => exact ⟨_, _, rfl, h.later⟩
  | mevRead file pos count uncopied =>
    exact h.transfer env file _ (.mevRead · count uncopied)
      (fun p hp => valid_of_lt_listSpan hp) hreq.2 fun p st => st.read_moves p count uncopied
  | mevWrite file pos count buf copy =>
    exact h.transfer env file _ (.mevWrite · count buf copy) (fun p hp => hp) hreq
      fun p st => st.write_moves env p count buf copy

end

end LkmSandbox.Mev
