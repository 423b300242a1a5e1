import LkmSandbox.Lib.Lines
import LkmSandbox.Lib.Run
import LkmSandbox.Rehearsals.Read

/-!
# The rehearsal that writes to a file

`write` puts a message and a newline at the end of a file. What it wrote is printed by `read`, the
rehearsal of `LkmSandbox/Rehearsals/Read.lean`. Two names may lead to the same file; which file a
name leads to is up to the system.

* `file_after` — what any runs of `write` leave in a file
* `read_after_writes` — what `read` prints then, and when its lines are the messages
-/

namespace LkmSandbox.Rehearsals.Write

open Lib

/-! ## The program -/

/-- `EACCES` -/
def eacces : Int := 13

/-- The bytes of an argument, less the NUL that ends it. -/
def bytesOf (arg : String) : List UInt8 := arg.toUTF8.data.toList

/-- What `write` prints: `"%s\n"` -/
def write (message : String) : List UInt8 := bytesOf message ++ [10]

section Program

variable {ι : Type} [DecidableEq ι]

/-- The files there are, and what is in each. -/
abbrev Disk (ι : Type) := ι → Option (List UInt8 × Ending)

/-- `fopen` with `"r"`: the file that a name leads to. -/
def opened (lookup : String → ι) (disk : Disk ι) : Files := fun filename => disk (lookup filename)

/-- `fopen` with `"a"` makes the file where there is none, and what is printed goes to its end. -/
def append (disk : Disk ι) (file : ι) (text : List UInt8) : Disk ι :=
  let old := (disk file).getD ([], .eof)
  Function.update disk file (some (old.1 ++ text, old.2))

/--
`main`, given which file a name leads to, whether `fopen` succeeds and how many bytes get to the
file until `fclose` has returned. Nothing looks at what `fprintf` and `fclose` return.
-/
def main (lookup : String → ι) (argv : List String) (granted : Bool) (stored : Nat)
    (disk : Disk ι) : Exit × Disk ι :=
  if argv.length ≠ 3 then
    ({ status := -einval, stdout := []
       stderr := "usage: " ++ argv.headD "(null)" ++ " <filename> \"<message>\"\n" }, disk)
  else
    let filename := argv.getD 1 "(null)"
    let message := argv.getD 2 "(null)"
    if granted = false then
      ({ status := -eacces, stdout := []
         stderr := "Failed opening file " ++ filename ++ ", aborting.\n" }, disk)
    else
      ({ status := 0, stdout := [], stderr := "" },
        append disk (lookup filename) ((write message).take stored))

/-! ## Runs of the program -/

/-- A run: its arguments, and what the system does. -/
structure Invocation where
  argv : List String
  granted : Bool
  stored : Nat

/-- The message of a run that opens its file, with the name of the file. -/
def Invocation.target (r : Invocation) : Option (String × String) :=
  match r.argv with
  | [_, filename, message] => if r.granted then some (filename, message) else none
  | _ => none

/-- The message that a run has for `file`. -/
def Invocation.messageFor (lookup : String → ι) (file : ι) (r : Invocation) : Option String :=
  match r.target with
  | some (filename, message) => if lookup filename = file then some message else none
  | none => none

/-- All that a run prints gets to the file. -/
def Invocation.Whole (r : Invocation) : Prop :=
  ∀ t ∈ r.target, (write t.2).length ≤ r.stored

def Invocation.run (lookup : String → ι) (disk : Disk ι) (r : Invocation) : Disk ι × Exit :=
  ((main lookup r.argv r.granted r.stored disk).2, (main lookup r.argv r.granted r.stored disk).1)

/-- The files after runs. -/
def after (lookup : String → ι) (disk : Disk ι) (runs : List Invocation) : Disk ι :=
  (Lib.run (Invocation.run lookup) disk runs).1

/-- The messages for a file, under whatever name, in the order of the runs. -/
def messagesFor (lookup : String → ι) (file : ι) (runs : List Invocation) : List String :=
  runs.filterMap (Invocation.messageFor lookup file)

/-- What is in a file; nothing, where there is none. -/
def contentOf (disk : Disk ι) (file : ι) : List UInt8 := ((disk file).map Prod.fst).getD []

/-- No read error comes in the file. -/
def Readable (disk : Disk ι) (file : ι) : Prop :=
  ∀ bytes ending, disk file = some (bytes, ending) → ending = .eof

/-- What gets to `file` of a run that opens it. -/
def Invocation.textFor (lookup : String → ι) (file : ι) (r : Invocation) : Option (List UInt8) :=
  (r.messageFor lookup file).map fun message => (write message).take r.stored

end Program

/-- What runs have added to a file that was as `old` says. -/
def added (old : Option (List UInt8 × Ending)) (texts : List (List UInt8)) :
    Option (List UInt8 × Ending) :=
  if texts = [] then old
  else some ((old.getD ([], .eof)).1 ++ texts.flatten, (old.getD ([], .eof)).2)

/-! ## What runs leave -/

variable {ι : Type} [DecidableEq ι] {lookup : String → ι} {file : ι} {disk : Disk ι}

/-- **A run** adds to the file it is told, and leaves the others alone. -/
theorem run_file (lookup : String → ι) (file : ι) (r : Invocation) (disk : Disk ι) :
    (r.run lookup disk).1 file = added (disk file) (r.textFor lookup file).toList := by
  obtain ⟨argv, granted, stored⟩ := r
  rcases argv with _ | ⟨prog, _ | ⟨filename, _ | ⟨message, _ | ⟨more, rest⟩⟩⟩⟩
  · rfl
  · rfl
  · rfl
  · cases granted with
    | false => rfl
    | true =>
      unfold Invocation.run Invocation.textFor Invocation.messageFor Invocation.target
      by_cases hfile : lookup filename = file
      · subst hfile
        simp only [if_true]
        show Function.update disk (lookup filename) _ (lookup filename) = _
        rw [Function.update_self]
        simp [added]
      · simp only [hfile, if_true, if_false]
        exact Function.update_of_ne (Ne.symm hfile) _ _
  · have hlen : (prog :: filename :: message :: more :: rest).length ≠ 3 := by
      simp only [List.length_cons]
      omega
    unfold Invocation.run main
    rw [if_pos hlen]
    rfl

/-- Adding and adding again. -/
theorem added_append (old : Option (List UInt8 × Ending)) (ts us : List (List UInt8)) :
    added (added old ts) us = added old (ts ++ us) := by
  unfold added
  by_cases hts : ts = []
  · rw [if_pos hts, hts, List.nil_append]
  · by_cases hus : us = []
    · rw [if_pos hus, hus, List.append_nil]
    · have hboth : ts ++ us ≠ [] := List.append_ne_nil_of_left_ne_nil hts us
      rw [if_neg hts, if_neg hus, if_neg hboth, List.flatten_append, ← List.append_assoc]
      rfl

/-- **What runs leave in a file**: what was in it, and what of each message has got there. -/
theorem file_after : ∀ (runs : List Invocation) (disk : Disk ι),
    after lookup disk runs file
      = added (disk file) (runs.filterMap (Invocation.textFor lookup file))
  | [], _ => rfl
  | r :: runs, disk => by
    have hcons : (r :: runs).filterMap (Invocation.textFor lookup file)
        = (r.textFor lookup file).toList ++ runs.filterMap (Invocation.textFor lookup file) := by
      rw [List.filterMap_cons]
      cases r.textFor lookup file <;> rfl
    show after lookup (r.run lookup disk).1 runs file = _
    rw [file_after runs, run_file, added_append, hcons]

theorem Invocation.Whole.take {r : Invocation} (h : r.Whole) {message : String}
    (hm : r.messageFor lookup file = some message) :
    (write message).take r.stored = write message := by
  unfold Invocation.messageFor at hm
  split at hm
  · next filename message' ht =>
    split at hm
    · cases hm
      exact List.take_of_length_le (h _ ht)
    · cases hm
  · cases hm

/-- Where all gets there, these are the messages as lines. -/
theorem texts_of_whole {runs : List Invocation} (h : ∀ r ∈ runs, r.Whole) :
    runs.filterMap (Invocation.textFor lookup file)
      = (messagesFor lookup file runs).map write := by
  unfold messagesFor
  rw [List.map_filterMap]
  refine List.filterMap_congr ?_
  intro r hr
  unfold Invocation.textFor
  cases hm : r.messageFor lookup file with
  | none => rfl
  | some message => rw [Option.map_some, Option.map_some, (h r hr).take hm]

theorem flatten_write (messages : List String) :
    (messages.map write).flatten = writeLines 10 (messages.map bytesOf) := by
  unfold writeLines
  rw [List.flatMap_map]
  rfl

omit [DecidableEq ι] in
theorem getD_fst (disk : Disk ι) (file : ι) :
    ((disk file).getD ([], .eof)).1 = contentOf disk file := by
  unfold contentOf
  cases disk file <;> rfl

omit [DecidableEq ι] in
theorem Readable.ending (h : Readable disk file) : ((disk file).getD ([], .eof)).2 = .eof := by
  rcases hfile : disk file with _ | ⟨bytes, ending⟩
  · rfl
  · exact h bytes ending hfile

omit [DecidableEq ι] in
/-- A file that is there after runs can be read if it could be read before. -/
theorem Readable.added (h : Readable disk file) {texts : List (List UInt8)}
    (hthere : ¬ (disk file = none ∧ texts = [])) :
    added (disk file) texts = some (contentOf disk file ++ texts.flatten, .eof) := by
  rw [← h.ending, ← getD_fst]
  unfold Write.added
  by_cases htexts : texts = []
  · rw [if_pos htexts, htexts, List.flatten_nil, List.append_nil]
    rcases hfile : disk file with _ | old
    · exact absurd ⟨hfile, htexts⟩ hthere
    · rfl
  · rw [if_neg htexts]

/-! ## What is read then -/

theorem main_of_missing {files : Files} (prog : String) {name : String}
    (hopen : files name = none) :
    ∃ e, Rehearsals.main 0 [prog, name] files = some e ∧ e.status = -enoent := by
  refine ⟨⟨-enoent, [], "Failed opening file " ++ name ++ ", aborting.\n"⟩, ?_, rfl⟩
  rw [Rehearsals.main, if_neg (by simp)]
  simp only [List.getD_cons_succ, List.getD_cons_zero, hopen]

/-- What `read` prints of a file that can be read. -/
theorem main_of_readable {files : Files} (prog : String) {name : String} {bytes : List UInt8}
    (hopen : files name = some (bytes, .eof)) :
    Rehearsals.main (bytes.length + 1) [prog, name] files = some ⟨0, bytes, ""⟩ := by
  rw [main_of_two _ prog name files hopen, read_eof bytes [] (Nat.lt_succ_self _)]
  rfl

/--
**What has been written is read.** Of a file that can be read, after any runs of `write` all of
whose output gets to its file: `read` ends, and prints what was in the file and then the messages
for it, under whatever name they came, each with a newline. The lines it prints are those from
before and the messages iff the file ended a line and no message has a newline in it. Without file
and messages, it does not find the file.
-/
theorem read_after_writes (lookup : String → ι) (disk : Disk ι) (prog name : String)
    (hgood : Readable disk (lookup name)) (runs : List Invocation)
    (hwhole : ∀ r ∈ runs, r.Whole) :
    ∃ fuel e, Rehearsals.main fuel [prog, name] (opened lookup (after lookup disk runs)) = some e ∧
      if disk (lookup name) = none ∧ messagesFor lookup (lookup name) runs = [] then
        e.status = -enoent
      else e.status = 0 ∧ e.stderr = "" ∧
        e.stdout = contentOf disk (lookup name)
          ++ writeLines 10 ((messagesFor lookup (lookup name) runs).map bytesOf) ∧
        (lines 10 e.stdout = lines 10 (contentOf disk (lookup name))
            ++ (messagesFor lookup (lookup name) runs).map bytesOf
          ↔ messagesFor lookup (lookup name) runs = [] ∨
            (EndsLine 10 (contentOf disk (lookup name)) ∧
              ∀ message ∈ messagesFor lookup (lookup name) runs, 10 ∉ bytesOf message)) := by
  generalize hfile : lookup name = file at hgood ⊢
  have hafter : opened lookup (after lookup disk runs) name
      = added (disk file) ((messagesFor lookup file runs).map write) := by
    unfold opened
    rw [hfile, file_after, texts_of_whole hwhole]
  split
  · next hnone =>
    obtain ⟨hmissing, hmessages⟩ := hnone
    rw [hmissing, hmessages] at hafter
    obtain ⟨e, hmain, hstatus⟩ := main_of_missing prog hafter
    exact ⟨0, e, hmain, hstatus⟩
  · next hthere =>
    rw [hgood.added fun h => hthere ⟨h.1, List.map_eq_nil_iff.mp h.2⟩, flatten_write] at hafter
    refine ⟨_, _, main_of_readable prog hafter, rfl, rfl, rfl, ?_⟩
    by_cases hmessages : messagesFor lookup file runs = []
    · rw [hmessages]
      refine iff_of_true ?_ (Or.inl rfl)
      rw [List.map_nil, List.append_nil]
      exact congrArg _ (List.append_nil _)
    · rw [lines_writeLines_iff _ (mt List.map_eq_nil_iff.mp hmessages), List.forall_mem_map]
      exact (or_iff_right hmessages).symm

/-- The name of a file, less the directory we are in. -/
def stripDot (name : String) : String := if name = "./log" then "log" else name

/-- Three runs, the second for another file, where there was no file. -/
theorem read_after_writes_log :
    let disk : Disk String := fun _ => none
    let runs : List Invocation := [⟨["write", "./log", "Hi"], true, 3⟩,
      ⟨["write", "a", "b"], true, 2⟩, ⟨["write", "log", "there"], true, 9⟩]
    ∃ fuel e,
      Rehearsals.main fuel ["read", "log"] (opened stripDot (after stripDot disk runs)) = some e ∧
      if disk (stripDot "log") = none ∧ messagesFor stripDot (stripDot "log") runs = [] then
        e.status = -enoent
      else e.status = 0 ∧ e.stderr = "" ∧
        e.stdout = contentOf disk (stripDot "log")
          ++ writeLines 10 ((messagesFor stripDot (stripDot "log") runs).map bytesOf) ∧
        (lines 10 e.stdout = lines 10 (contentOf disk (stripDot "log"))
            ++ (messagesFor stripDot (stripDot "log") runs).map bytesOf
          ↔ messagesFor stripDot (stripDot "log") runs = [] ∨
            (EndsLine 10 (contentOf disk (stripDot "log")) ∧
              ∀ message ∈ messagesFor stripDot (stripDot "log") runs, 10 ∉ bytesOf message)) := by
  refine read_after_writes stripDot (fun _ => none) "read" "log" (fun _ _ h => nomatch h) _ ?_
  intro r hr t ht
  simp only [List.mem_cons, List.not_mem_nil, or_false] at hr
  rcases hr with rfl | rfl | rfl
  · cases ht
    decide
  · cases ht
    decide
  · cases ht
    decide

end LkmSandbox.Rehearsals.Write
