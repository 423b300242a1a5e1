import LkmSandbox.Kernel
import Mathlib.Data.List.Basic
import Mathlib.Logic.Function.Iterate

/-!
# The rehearsal that prints a file

`fgetc` answers `EOF` at the end of the file and where reading fails, and which of the two it was is
kept in two indicators of the stream. The loop of `read` looks at the one for the end only.

* `read_copies_iff` — the file is printed, exactly, iff its bytes are followed by its end
* `round_iterate_error` — what is printed instead where a read error follows them
* `main_ends_iff` — when the program ends
-/

namespace LkmSandbox.Rehearsals

/-! ## Streams -/

/-- What comes after the bytes of a stream. A read error stays. -/
inductive Ending where
  | eof
  | error
deriving DecidableEq

/-- A `FILE` to read from: the bytes to come, what comes after them, and the two indicators. -/
structure Stream where
  bytes : List UInt8
  ending : Ending
  eofIndicator : Bool
  errorIndicator : Bool
deriving DecidableEq

/-- A stream nothing has been read from. -/
def Stream.opened (bytes : List UInt8) (ending : Ending) : Stream :=
  { bytes, ending, eofIndicator := false, errorIndicator := false }

/-- `EOF` -/
def eof : Int := -1

/-- `fgetc` -/
def fgetc (fp : Stream) : Int × Stream :=
  match fp.bytes with
  | c :: bytes => (c.toNat, { fp with bytes })
  | [] =>
    match fp.ending with
    | .eof => (eof, { fp with eofIndicator := true })
    | .error => (eof, { fp with errorIndicator := true })

/-- `feof` -/
def feof (fp : Stream) : Bool := fp.eofIndicator

/-- `putc`, which converts to `unsigned char`. -/
def putc (ch : Int) (out : List UInt8) : List UInt8 := out ++ [UInt8.ofNat (ch % 256).toNat]

/-! ## The program -/

/-- The variables of `read`, and what is on `stdout`. -/
structure Copying where
  ch : Int
  fp : Stream
  out : List UInt8
deriving DecidableEq

/-- `ch = fgetc(fp)` -/
def Copying.next (fp : Stream) (out : List UInt8) : Copying :=
  { ch := (fgetc fp).1, fp := (fgetc fp).2, out }

/-- The body of the loop of `read`. -/
def Copying.round (s : Copying) : Copying := .next s.fp (putc s.ch s.out)

/-- The loop of `read`, with `fuel` tests of its condition at most. -/
def readLoop : Nat → Copying → Option Copying
  | 0, _ => none
  | fuel + 1, s => if feof s.fp = false then readLoop fuel s.round else some s

/-- `read`, with what is on `stdout` before and after. -/
def read (fuel : Nat) (fp : Stream) (out : List UInt8) : Option (List UInt8) :=
  (readLoop fuel (.next fp out)).map Copying.out

/-- `ENOENT` -/
def enoent : Int := 2

/-- How the program ends. -/
structure Exit where
  status : Int
  stdout : List UInt8
  stderr : String
deriving DecidableEq

/-- What `fopen` finds under a name: nothing, or bytes and what comes after them. -/
abbrev Files := String → Option (List UInt8 × Ending)

/-- `main`. A `NULL` in the place of a name prints `(null)`. -/
def main (fuel : Nat) (argv : List String) (fopen : Files) : Option Exit :=
  if argv.length ≠ 2 then
    some { status := -einval, stdout := []
           stderr := "usage: " ++ argv.headD "(null)" ++ " <filename>\n" }
  else
    let filename := argv.getD 1 "(null)"
    match fopen filename with
    | none =>
      some { status := -enoent, stdout := []
             stderr := "Failed opening file " ++ filename ++ ", aborting.\n" }
    | some (bytes, ending) =>
      match read fuel (.opened bytes ending) [] with
      | none => none
      | some stdout => some { status := 0, stdout, stderr := "" }

/-! ## What read prints -/

/-- `read` ends and has printed the bytes of the stream, in order and nothing more. -/
def CopiesExactly (fp : Stream) : Prop :=
  ∀ out, ∃ fuel, read fuel fp out = some (out ++ fp.bytes)

theorem putc_byte (c : UInt8) (out : List UInt8) : putc c.toNat out = out ++ [c] := by
  have hc : ((c.toNat : Int) % 256).toNat = c.toNat := by
    have := c.toNat_lt
    omega
  rw [putc, hc, UInt8.ofNat_toNat]

theorem putc_eof (out : List UInt8) : putc eof out = out ++ [0xFF] := rfl

/-- A byte is there: the round prints it and gets the next character. -/
theorem round_next_cons (c : UInt8) (bytes : List UInt8) (ending : Ending) (out : List UInt8) :
    (Copying.next (.opened (c :: bytes) ending) out).round
      = .next (.opened bytes ending) (out ++ [c]) := by
  show Copying.next _ (putc c.toNat out) = _
  rw [putc_byte]
  rfl

/-- The end of the file stops the loop, one test after the last byte. -/
theorem readLoop_eof : ∀ (bytes out : List UInt8) (fuel : Nat), bytes.length < fuel →
    ∃ s, readLoop fuel (.next (.opened bytes .eof) out) = some s ∧ s.out = out ++ bytes
  | _, _, 0, hfuel => absurd hfuel (Nat.not_lt_zero _)
  | [], out, fuel + 1, _ => ⟨_, rfl, (List.append_nil out).symm⟩
  | c :: bytes, out, fuel + 1, hfuel => by
    obtain ⟨s, hloop, hout⟩ :=
      readLoop_eof bytes (out ++ [c]) fuel (Nat.lt_of_succ_lt_succ hfuel)
    refine ⟨s, ?_, by rw [hout, List.append_assoc, List.singleton_append]⟩
    rw [readLoop, if_pos (show feof (Copying.next _ out).fp = false from rfl), round_next_cons,
      hloop]

/-- An error leaves the indicator clear that the loop looks at. -/
theorem eofIndicator_next {fp : Stream} (herror : fp.ending = .error)
    (hclear : fp.eofIndicator = false) (out : List UInt8) :
    (Copying.next fp out).fp.ending = .error ∧ feof (Copying.next fp out).fp = false := by
  unfold Copying.next fgetc
  rcases fp with ⟨bytes, ending, eofIndicator, errorIndicator⟩
  obtain rfl : ending = .error := herror
  cases bytes with
  | nil => exact ⟨rfl, hclear⟩
  | cons c bytes => exact ⟨rfl, hclear⟩

theorem readLoop_error : ∀ (fuel : Nat) {s : Copying}, s.fp.ending = .error →
    feof s.fp = false → readLoop fuel s = none
  | 0, _, _, _ => rfl
  | fuel + 1, s, herror, hclear => by
    obtain ⟨herror', hclear'⟩ := eofIndicator_next herror hclear (putc s.ch s.out)
    rw [readLoop, if_pos hclear]
    exact readLoop_error fuel herror' hclear'

theorem read_error (bytes out : List UInt8) (fuel : Nat) :
    read fuel (.opened bytes .error) out = none := by
  obtain ⟨herror, hclear⟩ :=
    eofIndicator_next (show (Stream.opened bytes .error).ending = .error from rfl) rfl out
  rw [read, readLoop_error fuel herror hclear]
  rfl

theorem read_eof (bytes out : List UInt8) {fuel : Nat} (hfuel : bytes.length < fuel) :
    read fuel (.opened bytes .eof) out = some (out ++ bytes) := by
  obtain ⟨s, hloop, hout⟩ := readLoop_eof bytes out fuel hfuel
  rw [read, hloop, Option.map_some, hout]

/-- **When the file is printed.** Its bytes, whichever they are, are followed by its end. -/
theorem read_copies_iff (bytes : List UInt8) (ending : Ending) :
    CopiesExactly (.opened bytes ending) ↔ ending = .eof := by
  cases ending with
  | eof => exact iff_of_true (fun out => ⟨_, read_eof bytes out (Nat.lt_succ_self _)⟩) rfl
  | error =>
    refine iff_of_false ?_ Ending.noConfusion
    intro hcopies
    obtain ⟨fuel, hread⟩ := hcopies []
    rw [read_error] at hread
    cases hread

/-- A directory opens like a file, and its first byte cannot be read: `read` does not end. -/
theorem directory_not_copied : ¬ CopiesExactly (.opened [] .error) := by
  intro hcopies
  obtain ⟨fuel, hread⟩ := hcopies []
  rw [read_error] at hread
  cases hread

/-- From the error on, a round prints and changes nothing else. -/
theorem round_iterate_eof (k : Nat) (out : List UInt8) (e : Bool) :
    (Copying.round^[k] ⟨eof, ⟨[], .error, false, e⟩, out⟩).out = out ++ List.replicate k 0xFF := by
  induction k generalizing out e with
  | zero => exact (List.append_nil out).symm
  | succ k ih =>
    rw [Function.iterate_succ_apply, List.replicate_succ]
    show (Copying.round^[k] ⟨eof, ⟨[], .error, false, true⟩, putc eof out⟩).out = _
    rw [ih, putc_eof, List.append_assoc, List.singleton_append]

/-- **Where an error follows the bytes**, each round behind them prints `0xFF`. -/
theorem round_iterate_error (bytes out : List UInt8) (n : Nat) :
    (Copying.round^[bytes.length + n] (.next (.opened bytes .error) out)).out
      = out ++ bytes ++ List.replicate n 0xFF := by
  induction bytes generalizing out with
  | nil =>
    rw [List.length_nil, Nat.zero_add, List.append_nil]
    exact round_iterate_eof n out true
  | cons c bytes ih =>
    rw [List.length_cons, Nat.succ_add, Function.iterate_succ_apply, round_next_cons, ih,
      List.append_assoc out, List.singleton_append]

/-! ## When the program ends -/

theorem main_of_two (fuel : Nat) (prog name : String) (fopen : Files) {bytes : List UInt8}
    {ending : Ending} (hopen : fopen name = some (bytes, ending)) :
    main fuel [prog, name] fopen
      = (read fuel (.opened bytes ending) []).map fun stdout => ⟨0, stdout, ""⟩ := by
  rw [main, if_neg (by simp)]
  simp only [List.getD_cons_succ, List.getD_cons_zero, hopen]
  cases read fuel (.opened bytes ending) [] <;> rfl

/-- **When the program ends**: unless it is given a file in which a read error comes. -/
theorem main_ends_iff (argv : List String) (fopen : Files) :
    (∃ fuel e, main fuel argv fopen = some e) ↔
      ∀ prog name bytes ending, argv = [prog, name] → fopen name = some (bytes, ending) →
        ending = .eof := by
  constructor
  · rintro ⟨fuel, e, hmain⟩ prog name bytes ending rfl hopen
    rw [main_of_two fuel prog name fopen hopen] at hmain
    cases ending with
    | eof => rfl
    | error =>
      rw [read_error] at hmain
      cases hmain
  · intro hgood
    by_cases hlen : argv.length = 2
    · obtain ⟨prog, name, rfl⟩ := List.length_eq_two.mp hlen
      rcases hopen : fopen name with _ | ⟨bytes, ending⟩
      · refine ⟨0, { status := -enoent, stdout := []
                     stderr := "Failed opening file " ++ name ++ ", aborting.\n" }, ?_⟩
        rw [main, if_neg (by simp)]
        simp only [List.getD_cons_succ, List.getD_cons_zero, hopen]
      · obtain rfl := hgood prog name bytes ending rfl hopen
        have hmain := main_of_two (bytes.length + 1) prog name fopen hopen
        rw [read_eof bytes [] (Nat.lt_succ_self _)] at hmain
        exact ⟨_, _, hmain⟩
    · exact ⟨0, _, by rw [main, if_pos hlen]⟩

end LkmSandbox.Rehearsals
