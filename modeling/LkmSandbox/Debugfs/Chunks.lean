import LkmSandbox.Debugfs.Message

/-!
# Writers of the message in debugfs

A program that writes a text hands it over in chunks, call after call, until all is taken or a call
takes nothing. Behind the last byte of the buffer `debug_write` takes nothing and returns 0, and a
chunk longer than the buffer is refused as a whole.

* `writeAll_spec` — chunks that fit leave the text over the old bytes, as far as the buffer goes
* `writeAll_refused` — a first chunk that does not fit leaves the buffer as it is
* `read_after_jobs` — what a reader gets after any such programs, whatever chunks all of them use
-/

namespace LkmSandbox.Debugfs

open Lib

/-! ## Writers -/

/-- A writer, the position it has come to and what it has not handed over yet. -/
structure Writer where
  file : Debugfs
  position : Int
  rest : List UInt8

/-- What a call returns, and how much is left to write then. -/
structure WriteReply where
  retval : Int
  left : Nat

/-- The next chunk, of `size` bytes if there are as many. -/
def Writer.call (s : Writer) (size : Nat) : Except Empty (Writer × WriteReply) :=
  let (file, retval, position) := s.file.debugWrite ⟨s.position, s.rest.take size, .ok⟩
  let rest := s.rest.drop retval.toNat
  .ok ({ file, position, rest }, { retval, left := rest.length })

/-- All is written, or nothing is taken any more. -/
def WriteReply.Last (r : WriteReply) : Prop := r.retval ≤ 0 ∨ r.left = 0

instance : DecidablePred WriteReply.Last := fun _ => inferInstanceAs (Decidable (_ ∨ _))

/-- Write `text` from `position` on, with `fuel` calls at most. -/
def writeAll (m : Debugfs) (fuel : Nat) (position : Nat) (text : List UInt8) (sizes : Nat → Nat) :
    Except Empty (Option (Writer × List WriteReply)) :=
  runUntil Writer.call WriteReply.Last fuel sizes { file := m, position, rest := text }

/-! ## One chunk -/

variable {m : Debugfs}

/-- The buffer with a text over its bytes from `pos` on, as far as it goes. -/
def overlay (pos : Nat) (text buffer : List UInt8) : List UInt8 :=
  storeAt pos text.length (fun i => text[i]?) buffer

theorem storeAt_getElem? (pos n : Nat) (src : Nat → Option UInt8) (buffer : List UInt8) (i : Nat) :
    (storeAt pos n src buffer)[i]?
      = buffer[i]?.map fun c => if pos ≤ i ∧ i < pos + n then (src (i - pos)).getD c else c := by
  rw [storeAt, List.getElem?_mapIdx]

theorem overlay_nil (pos : Nat) (buffer : List UInt8) : overlay pos [] buffer = buffer := by
  refine List.ext_getElem? ?_
  intro i
  rw [overlay, storeAt_getElem?, List.length_nil]
  simp

/-- One text after another is both at once. -/
theorem overlay_append (pos : Nat) (a b buffer : List UInt8) :
    overlay (pos + a.length) b (overlay pos a buffer) = overlay pos (a ++ b) buffer := by
  refine List.ext_getElem? ?_
  intro i
  simp only [overlay, storeAt_getElem?, Option.map_map, List.length_append]
  refine congrArg (fun f => buffer[i]?.map f) (funext ?_)
  intro c
  show (if pos + a.length ≤ i ∧ _ then _ else if pos ≤ i ∧ _ then _ else c) = _
  by_cases hlo : pos ≤ i
  · rcases Nat.lt_or_ge i (pos + a.length) with hin | hout
    · rw [if_neg (by omega), if_pos ⟨hlo, hin⟩, if_pos ⟨hlo, by omega⟩,
        List.getElem?_append_left (by omega)]
    · rw [if_neg (show ¬ (pos ≤ i ∧ i < pos + a.length) by omega),
        List.getElem?_append_right (by omega), Nat.sub_sub]
      by_cases hb : i < pos + a.length + b.length
      · rw [if_pos ⟨hout, hb⟩, if_pos ⟨hlo, by omega⟩]
        dsimp only
        rw [if_neg (by omega)]
      · rw [if_neg (by omega), if_neg (by omega)]
  · rw [if_neg (by omega), if_neg (by omega), if_neg (by omega)]

/-- What is behind the end of the buffer is not stored. -/
theorem overlay_take {pos : Nat} {text buffer : List UInt8} {n : Nat}
    (hn : buffer.length ≤ pos + n) :
    overlay pos (text.take n) buffer = overlay pos text buffer := by
  refine List.ext_getElem? ?_
  intro i
  rw [overlay, overlay, storeAt_getElem?, storeAt_getElem?]
  rcases Nat.lt_or_ge i buffer.length with hi | hi
  · rw [List.getElem?_eq_getElem hi, Option.map_some, Option.map_some]
    refine congrArg some ?_
    by_cases hin : pos ≤ i ∧ i < pos + (text.take n).length
    · have hlen := hin.2
      rw [List.length_take] at hlen
      rw [if_pos hin, if_pos ⟨hin.1, by omega⟩, List.getElem?_take_of_lt (by omega)]
    · rw [if_neg hin]
      rw [List.length_take] at hin
      by_cases hin' : pos ≤ i ∧ i < pos + text.length
      · omega
      · rw [if_neg hin']
  · rw [List.getElem?_eq_none hi]
    rfl

theorem storeAt_congr {pos n : Nat} {src src' : Nat → Option UInt8} (buffer : List UInt8)
    (h : ∀ i < n, src i = src' i) : storeAt pos n src buffer = storeAt pos n src' buffer := by
  refine List.ext_getElem? ?_
  intro i
  rw [storeAt_getElem?, storeAt_getElem?]
  refine congrArg (fun f => buffer[i]?.map f) (funext ?_)
  intro c
  by_cases hin : pos ≤ i ∧ i < pos + n
  · rw [if_pos hin, if_pos hin, h _ (by omega)]
  · rw [if_neg hin, if_neg hin]

/-- **A chunk that is not longer than the buffer** is taken as far as the buffer goes. -/
theorem debugWrite_chunk (m : Debugfs) (pos : Nat) {data : List UInt8}
    (hle : data.length ≤ lkmDebugfsContentLen) :
    let n := min data.length (lkmDebugfsContentLen - pos)
    m.debugWrite ⟨pos, data, .ok⟩
      = ({ m with content := overlay pos (data.take n) m.content }, (n : Int),
          ((pos + n : Nat) : Int)) := by
  intro n
  unfold debugWrite simpleWriteToBuffer
  dsimp only
  rw [if_neg (by omega), if_neg (by omega)]
  by_cases hnone : (pos : Int) ≥ lkmDebugfsContentLen ∨ data.length = 0
  · have hn : n = 0 := by omega
    rw [if_pos hnone, hn, List.take_zero, overlay_nil]
    rfl
  · have hcount : (if data.length > lkmDebugfsContentLen - (pos : Int).toNat then
        lkmDebugfsContentLen - (pos : Int).toNat else data.length) = n := by
      rw [Int.toNat_natCast]
      split <;> omega
    have hn : (data.take n).length = n := List.length_take_of_le (by omega)
    rw [if_neg hnone, hcount, Int.toNat_natCast, overlay, hn]
    simp only [UserCopy.ok, Nat.zero_min, Nat.sub_zero]
    rw [if_neg (by omega), Nat.cast_add]
    refine congrArg (fun c => ({ m with content := c }, (n : Int), (pos : Int) + n)) ?_
    show storeAt pos n (fun i => if i < n then data[i]? else none) m.content = _
    refine storeAt_congr _ ?_
    intro i hi
    rw [if_pos hi, List.getElem?_take_of_lt hi]

/-- A chunk that is longer is refused, whatever place there is for it. -/
theorem debugWrite_refused (m : Debugfs) (position : Int) {data : List UInt8} (copy : UserCopy)
    (hgt : lkmDebugfsContentLen < data.length) :
    m.debugWrite ⟨position, data, copy⟩ = (m, -einval, position) := if_pos hgt

/-! ## All chunks -/

/-- How much of a text there is place for. -/
def room (pos : Nat) (text : List UInt8) : Nat := min text.length (lkmDebugfsContentLen - pos)

/-- What a writer has done when it stops: from `s` to `s'`. -/
structure Done (s s' : Writer) : Prop where
  file : s'.file = { s.file with
    content := overlay s.position.toNat s.rest s.file.content }
  rest : s'.rest = s.rest.drop (room s.position.toNat s.rest)

/-- A text that is put over the buffer in two parts. -/
theorem overlay_split {pos n : Nat} {text : List UInt8} (buffer : List UInt8)
    (hn : n ≤ text.length) :
    overlay (pos + n) (text.drop n) (overlay pos (text.take n) buffer)
      = overlay pos text buffer := by
  have happ := overlay_append pos (text.take n) (text.drop n) buffer
  rwa [List.length_take_of_le hn, List.take_append_drop] at happ

theorem room_drop {pos n : Nat} {text : List UInt8} (hn : n ≤ room pos text) :
    n + room (pos + n) (text.drop n) = room pos text := by
  unfold room at hn ⊢
  rw [List.length_drop]
  omega

/-- What one call takes of the text. -/
theorem Writer.call_eq (file : Debugfs) (pos : Nat) (rest : List UInt8) {size : Nat}
    (hsize : size ≤ lkmDebugfsContentLen) :
    let n := min size (room pos rest)
    Writer.call ⟨file, pos, rest⟩ size
      = .ok (⟨{ file with content := overlay pos (rest.take n) file.content }, (pos + n : Nat),
          rest.drop n⟩, ⟨n, (rest.drop n).length⟩) := by
  intro n
  have hchunk : (rest.take size).length = min size rest.length := List.length_take
  have hwrite := debugWrite_chunk file pos (show (rest.take size).length ≤ _ by omega)
  have hn : min (rest.take size).length (lkmDebugfsContentLen - pos) = n := by
    rw [hchunk, Nat.min_assoc]
    rfl
  dsimp only at hwrite
  rw [hn, List.take_take, Nat.min_eq_left (Nat.min_le_left size _)] at hwrite
  unfold Writer.call
  dsimp only
  rw [hwrite]
  rfl

/-- **A call** takes a part of the text, and nothing only if all that has a place is taken. -/
theorem Writer.call_spec {s : Writer} {size : Nat} (hs : s.file.Sized ∧ 0 ≤ s.position)
    (hsize : 1 ≤ size ∧ size ≤ lkmDebugfsContentLen) :
    ∃ s' r, s.call size = .ok (s', r) ∧
      ((r.Last ∧ Done s s') ∨
        (¬ r.Last ∧ (s'.file.Sized ∧ 0 ≤ s'.position) ∧ s'.rest.length < s.rest.length ∧
          ∀ s'', Done s' s'' → Done s s'')) := by
  obtain ⟨file, position, rest⟩ := s
  obtain ⟨hsized, hpos⟩ := hs
  obtain ⟨pos, rfl⟩ := Int.eq_ofNat_of_zero_le hpos
  have hlen : file.content.length = lkmDebugfsContentLen := hsized
  have hcall := Writer.call_eq file pos rest hsize.2
  have hroom : room pos rest = min rest.length (lkmDebugfsContentLen - pos) := rfl
  generalize hn : min size (room pos rest) = n at hcall
  refine ⟨_, _, hcall, ?_⟩
  by_cases hlast : n = 0 ∨ rest.length ≤ n
  · have hall : n = room pos rest := by omega
    refine Or.inl ⟨?_, ?_, congrArg rest.drop hall⟩
    · refine hlast.imp ?_ ?_
      · intro h
        show (n : Int) ≤ 0
        omega
      · intro h
        exact List.length_eq_zero_iff.mpr (List.drop_of_length_le h)
    · show ({ file with content := _ } : Debugfs) = { file with content := overlay pos rest _ }
      rcases Nat.lt_or_ge n rest.length with hlt | hge
      · rw [overlay_take (by omega)]
      · rw [List.take_of_length_le hge]
  · obtain ⟨hpos, hleft⟩ := not_or.mp hlast
    refine Or.inr ⟨?_, ⟨?_, ?_⟩, ?_, ?_⟩
    · rintro (hzero | hzero)
      · have : (n : Int) ≤ 0 := hzero
        omega
      · have hdrop : (rest.drop n).length = 0 := hzero
        rw [List.length_drop] at hdrop
        omega
    · exact (storeAt_length ..).trans hsized
    · show (0 : Int) ≤ (pos + n : Nat)
      omega
    · show (rest.drop n).length < rest.length
      rw [List.length_drop]
      omega
    -- what is done from there is done from here
    · intro s'' hdone
      obtain ⟨hfile, hrest⟩ := hdone
      refine ⟨hfile.trans ?_, hrest.trans ?_⟩
      · show ({ file with content := overlay (pos + n) _ _ } : Debugfs) = _
        rw [overlay_split _ (by omega)]
        rfl
      · show (rest.drop n).drop (room (pos + n) (rest.drop n)) = rest.drop (room pos rest)
        rw [List.drop_drop, room_drop (by omega)]

/-- **A writer** of chunks that fit stops, having put its text over the bytes that were there. -/
theorem writeAll_spec (h : m.Sized) (position : Nat) (text : List UInt8) {sizes : Nat → Nat}
    (hsizes : ∀ k, 1 ≤ sizes k ∧ sizes k ≤ lkmDebugfsContentLen) :
    ∃ fuel s rs, m.writeAll fuel position text sizes = .ok (some (s, rs)) ∧
      s.file = { m with content := overlay position text m.content } ∧
      s.rest = text.drop (room position text) := by
  have hstart : m.Sized ∧ 0 ≤ (position : Int) := ⟨h, Int.natCast_nonneg _⟩
  have hend : ∃ s rs, runUntil Writer.call WriteReply.Last (text.length + 1) sizes
      { file := m, position, rest := text } = .ok (some (s, rs)) ∧
        Done { file := m, position, rest := text } s :=
    runUntil_reaches (I := fun s : Writer => s.file.Sized ∧ 0 ≤ s.position)
      (P := fun size => 1 ≤ size ∧ size ≤ lkmDebugfsContentLen) (f := fun s => s.rest.length)
      (Q := fun s s' _ => Done s s')
      (fun hs hsize => by
        obtain ⟨s', r, hcall, hlast | ⟨hgo, hs', hless, hdone⟩⟩ := Writer.call_spec hs hsize
        · exact ⟨s', r, hcall, Or.inl hlast⟩
        · exact ⟨s', r, hcall, Or.inr ⟨hgo, hs', hless, fun s'' _ => hdone s''⟩⟩)
      _ hsizes hstart (Nat.lt_succ_self _)
  obtain ⟨s, rs, hrun, hdone⟩ := hend
  exact ⟨_, s, rs, hrun, hdone.file, hdone.rest⟩

/-- **A first chunk that does not fit** is the last, and nothing of the text is stored. -/
theorem writeAll_refused (m : Debugfs) (position : Nat) {text : List UInt8} {sizes : Nat → Nat}
    (hgt : lkmDebugfsContentLen < min (sizes 0) text.length) (fuel : Nat) :
    m.writeAll (fuel + 1) position text sizes
      = .ok (some (⟨m, position, text⟩, [⟨-einval, text.length⟩])) := by
  have hlen : lkmDebugfsContentLen < (text.take (sizes 0)).length := by
    rwa [List.length_take]
  have hcall : Writer.call ⟨m, position, text⟩ (sizes 0)
      = .ok (⟨m, position, text⟩, ⟨-einval, text.length⟩) := by
    unfold Writer.call
    dsimp only
    rw [debugWrite_refused m _ _ hlen]
    rfl
  have hlast : WriteReply.Last ⟨-einval, text.length⟩ := Or.inl (show -einval ≤ 0 by decide)
  unfold writeAll
  rw [runUntil, hcall]
  simp only [if_pos hlast]

/-! ## Writers one after another -/

/-- A program that writes: what, where, and in chunks of which sizes. -/
structure Job where
  position : Nat
  text : List UInt8
  sizes : Nat → Nat

/-- Every chunk fits. -/
def Job.Fits (j : Job) : Prop := ∀ k, 1 ≤ j.sizes k ∧ j.sizes k ≤ lkmDebugfsContentLen

/-- The first chunk does not fit. -/
def Job.Refused (j : Job) : Prop := lkmDebugfsContentLen < min (j.sizes 0) j.text.length

instance (j : Job) : Decidable j.Refused := inferInstanceAs (Decidable (_ < _))

/-- The programs run to their ends, one after another. -/
inductive Jobs : Debugfs → List Job → Debugfs → Prop where
  | nil (m : Debugfs) : Jobs m [] m
  | cons {m m' : Debugfs} {j : Job} {js : List Job} {fuel : Nat} {s : Writer}
      {rs : List WriteReply} (h : m.writeAll fuel j.position j.text j.sizes = .ok (some (s, rs)))
      (hrest : Jobs s.file js m') : Jobs m (j :: js) m'

/-- What a program leaves of the buffer. -/
def Job.leaves (buffer : List UInt8) (j : Job) : List UInt8 :=
  if j.Refused then buffer else overlay j.position j.text buffer

theorem Job.spec (h : m.Sized) {j : Job} (hj : j.Fits ∨ j.Refused) :
    ∃ fuel s rs, m.writeAll fuel j.position j.text j.sizes = .ok (some (s, rs)) ∧
      s.file = { m with content := j.leaves m.content } := by
  unfold Job.leaves
  by_cases hrefused : j.Refused
  · rw [if_pos hrefused]
    exact ⟨1, _, _, writeAll_refused m j.position hrefused 0, rfl⟩
  · rw [if_neg hrefused]
    obtain ⟨fuel, s, rs, hrun, hfile, -⟩ :=
      writeAll_spec h j.position j.text (hj.resolve_right hrefused)
    exact ⟨fuel, s, rs, hrun, hfile⟩

theorem Job.leaves_length (buffer : List UInt8) (j : Job) :
    (j.leaves buffer).length = buffer.length := by
  unfold Job.leaves
  split
  · rfl
  · exact storeAt_length ..

theorem jobs_spec : ∀ {js : List Job} {m : Debugfs}, m.Sized → (∀ j ∈ js, j.Fits ∨ j.Refused) →
    Jobs m js { m with content := js.foldl Job.leaves m.content }
  | [], m, _, _ => .nil m
  | j :: js, m, h, hjs => by
    obtain ⟨hj, hjs⟩ := List.forall_mem_cons.mp hjs
    obtain ⟨fuel, s, rs, hrun, hfile⟩ := Job.spec h hj
    have hsized : s.file.Sized := by
      rw [hfile]
      exact (Job.leaves_length ..).trans h
    have hrest := jobs_spec hsized hjs
    rw [hfile] at hrest
    exact .cons hrun (by rw [hfile]; exact hrest)

theorem Jobs.unique {js : List Job} {m m₁ m₂ : Debugfs} (h₁ : Jobs m js m₁) (h₂ : Jobs m js m₂) :
    m₁ = m₂ := by
  induction h₁ with
  | nil m =>
    cases h₂
    rfl
  | cons hrun _ ih =>
    cases h₂ with
    | cons hrun' hrest' =>
      cases runUntil_unique hrun hrun'
      exact ih hrest'

/--
**Reading after writers.** After a load and any calls of `debug_write`, programs write texts one
after another, each in chunks that fit, or with a first chunk that does not, and their user copies
succeed: all of them stop, and leave one buffer, in which each text of chunks that fit is over what
was there before it. Any reader gets this buffer, whatever chunks it asks for.
-/
theorem read_after_jobs (answers : DebugfsAnswers) (r : Registry) (writes : List Write)
    (jobs : List Job) (hjobs : ∀ j ∈ jobs, j.Fits ∨ j.Refused) :
    ∃ m, (∀ m', Jobs (after answers r writes) jobs m' ↔ m' = m) ∧
      m.content = jobs.foldl Job.leaves (after answers r writes).content ∧
      ∀ sizes : Nat → Nat, (∀ k, 1 ≤ sizes k) → ∃ fuel s rs,
        m.readToEnd fuel sizes = .ok (some (s, rs)) ∧
          rs.flatMap BufferRead.delivered = m.content := by
  have hsized := after_sized answers r writes
  have hrun := jobs_spec hsized hjobs
  have hlength : ∀ (js : List Job) (buffer : List UInt8),
      (js.foldl Job.leaves buffer).length = buffer.length := by
    intro js
    induction js with
    | nil => exact fun _ => rfl
    | cons j js ih => exact fun buffer => (ih _).trans (Job.leaves_length buffer j)
  have hleft : Sized { after answers r writes with
      content := jobs.foldl Job.leaves (after answers r writes).content } :=
    (hlength jobs _).trans hsized
  refine ⟨_, fun m' => ⟨fun hm' => hm'.unique hrun, ?_⟩, rfl, fun sizes hsizes =>
    readToEnd_spec hleft hsizes⟩
  rintro rfl
  exact hrun

/-- `Hi` in one chunk behind the first word, and 300 bytes at once. -/
theorem read_after_jobs_two :
    let jobs : List Job :=
      [⟨7, cString "Hi", fun _ => 200⟩, ⟨0, List.replicate 300 65, fun _ => 4096⟩]
    ∃ m, (∀ m', Jobs (after granted Registry.empty []) jobs m' ↔ m' = m) ∧
      m.content = jobs.foldl Job.leaves (after granted Registry.empty []).content ∧
      ∀ sizes : Nat → Nat, (∀ k, 1 ≤ sizes k) → ∃ fuel s rs,
        m.readToEnd fuel sizes = .ok (some (s, rs)) ∧
          rs.flatMap BufferRead.delivered = m.content := by
  refine read_after_jobs granted Registry.empty [] _ ?_
  refine List.forall_mem_cons.mpr ⟨Or.inl fun _ => (by decide : 1 ≤ 200 ∧ 200 ≤ 200),
    List.forall_mem_cons.mpr ⟨Or.inr ?_, fun _ h => absurd h List.not_mem_nil⟩⟩
  show lkmDebugfsContentLen < min 4096 (List.replicate 300 (65 : UInt8)).length
  rw [List.length_replicate]
  decide

end LkmSandbox.Debugfs
