import LkmSandbox.Mev.Store

/-!
# The store byte by byte

`Store.byte x` is the byte at offset `x` of the device, when its page is there. What a read
delivers and what a write changes is said in offsets here, the page arithmetic is done once.

A write gets its page iff every allocation it makes succeeds (`allocate_page_isSome`).
-/

namespace LkmSandbox.Mev

namespace Store

variable {env : Env} {s : Store}

def byte (s : Store) (x : Nat) : Option UInt8 := (s.page (x / 4000)).map fun b => b (x % 4000)

theorem byte_isSome (s : Store) (x : Nat) : (s.byte x).isSome = (s.page (x / 4000)).isSome := by
  rw [byte, Option.isSome_map]

/-! ## Which allocations succeed -/

/-- All calls of `kmalloc` from number `a` up to `b` succeed. -/
def AllOk (env : Env) (a b : Nat) : Prop := ∀ i, a ≤ i → i < b → env.kmallocOk i = true

theorem allOk_append {a b c : Nat} (hab : a ≤ b) (hbc : b ≤ c) :
    AllOk env a c ↔ AllOk env a b ∧ AllOk env b c := by
  constructor
  · intro h
    exact ⟨fun i h₁ h₂ => h i h₁ (by omega), fun i h₁ h₂ => h i (by omega) h₂⟩
  · rintro ⟨h₁, h₂⟩ i ha hc
    by_cases hb : i < b
    · exact h₁ i ha hb
    · exact h₂ i (by omega) hc

theorem allOk_self (a : Nat) : AllOk env a a := fun i h₁ h₂ => by omega

theorem allOk_succ (a : Nat) : AllOk env a (a + 1) ↔ env.kmallocOk a = true := by
  constructor
  · exact fun h => h a (Nat.le_refl a) (by omega)
  · intro h i h₁ h₂
    rw [show i = a by omega]
    exact h

theorem allOk_cons {a b : Nat} (hab : a < b) :
    AllOk env a b ↔ env.kmallocOk a = true ∧ AllOk env (a + 1) b := by
  rw [allOk_append (Nat.le_succ a) hab, allOk_succ]

theorem le_grow_calls (env : Env) (n : Nat) (s : Store) : s.calls ≤ (s.grow env n).calls := by
  induction n generalizing s with
  | zero => exact Nat.le_refl _
  | succ n ih =>
    rw [grow]
    split
    · exact Nat.le_of_succ_le (ih s.addNode)
    · exact Nat.le_succ _

/-- All nodes asked for are appended iff all allocations succeed. -/
theorem grow_len_eq (env : Env) (n : Nat) (s : Store) :
    (s.grow env n).len = s.len + n ↔ AllOk env s.calls (s.grow env n).calls := by
  induction n generalizing s with
  | zero => exact ⟨fun _ => allOk_self _, fun _ => rfl⟩
  | succ n ih =>
    rw [grow]
    split
    · next hok =>
      have hle := le_grow_calls env n s.addNode
      rw [allOk_cons hle]
      have := ih s.addNode
      simp only [addNode] at this ⊢
      rw [show s.len + (n + 1) = s.len + 1 + n by omega, this]
      exact ⟨fun h => ⟨hok, h⟩, fun h => h.2⟩
    · next hok =>
      constructor
      · intro h
        simp only [countCall] at h
        omega
      · intro h
        exact absurd ((allOk_succ _).mp h) hok

theorem follow_len (env : Env) (n : Nat) (s : Store) :
    n < (s.follow env n).len ↔ AllOk env s.calls (s.follow env n).calls := by
  unfold follow
  rw [← grow_len_eq]
  have h₁ := le_grow_len env s (n + 1 - s.len)
  have h₂ := grow_len_le env s (n + 1 - s.len)
  omega

theorem ensureData_calls (env : Env) (i : Nat) (s : Store) :
    s.calls ≤ (s.ensureData env i).calls ∧
      ((s.ensureData env i).data i = true ↔ AllOk env s.calls (s.ensureData env i).calls) := by
  unfold ensureData
  split
  · next h => exact ⟨Nat.le_refl _, fun _ => allOk_self _, fun _ => h⟩
  · next h =>
    split
    · next hok =>
      refine ⟨Nat.le_succ _, fun _ => (allOk_succ _).mpr hok, ?_⟩
      intro _
      simp [addData]
    · next hok =>
      refine ⟨Nat.le_succ _, fun hd => absurd hd h, ?_⟩
      intro ha
      exact absurd ((allOk_succ _).mp ha) hok

theorem ensurePage_calls (env : Env) (k : Nat) (s : Store) :
    s.calls ≤ (s.ensurePage env k).calls ∧
      (((s.ensurePage env k).page k).isSome ↔
        AllOk env s.calls (s.ensurePage env k).calls) := by
  unfold ensurePage
  split
  · next h => exact ⟨Nat.le_refl _, fun _ => allOk_self _, fun _ => h⟩
  · next h =>
    split
    · next hok =>
      refine ⟨Nat.le_succ _, fun _ => (allOk_succ _).mpr hok, ?_⟩
      intro _
      simp [addPage]
    · next hok =>
      refine ⟨Nat.le_succ _, fun hd => absurd hd h, ?_⟩
      intro ha
      exact absurd ((allOk_succ _).mp ha) hok

/-- **A write gets its page iff every allocation it makes succeeds.** -/
theorem allocate_page_isSome (env : Env) (h : s.Wf) (p : Nat) :
    ((s.allocate env p).page (p / 4000)).isSome ↔
      AllOk env s.calls (s.allocate env p).calls := by
  have hf := follow_len env (p / 4000000) s
  have hfc : s.calls ≤ (s.follow env (p / 4000000)).calls := le_grow_calls env _ s
  have hfw : (s.follow env (p / 4000000)).Wf := h.grow env _
  unfold allocate allocateAt
  simp only
  split
  · next hlt =>
    have hok₁ := hf.mp hlt
    obtain ⟨hdc, hd⟩ := ensureData_calls env (p / 4000000) (s.follow env (p / 4000000))
    have hdw := hfw.ensureData env hlt
    split
    · next hdata =>
      have hok₂ := hd.mp hdata
      obtain ⟨hpc, hp⟩ := ensurePage_calls env (p / 4000)
        ((s.follow env (p / 4000000)).ensureData env (p / 4000000))
      -- the calls of the write are those of its three parts, one after the other
      rw [hp, allOk_append (Nat.le_trans hfc hdc) hpc, allOk_append hfc hdc]
      exact ⟨fun h => ⟨⟨hok₁, hok₂⟩, h⟩, fun h => h.2⟩
    · next hdata =>
      constructor
      · intro hpg
        have := Wf.page_data hdw hpg
        rw [show p / 4000 / 1000 = p / 4000000 by omega] at this
        exact absurd this hdata
      · intro hall
        exact absurd (hd.mpr ((allOk_append hfc hdc).mp hall).2) hdata
  · next hlt =>
    constructor
    · intro hpg
      have := hfw.page_lt hpg
      rw [show p / 4000 / 1000 = p / 4000000 by omega] at this
      exact absurd this hlt
    · intro hall
      exact absurd (hf.mpr hall) hlt

/-! ## What a write changes -/

/-- The pages after the allocations of a write that got its page. -/
theorem allocate_present {p : Nat} (hp : ((s.allocate env p).page (p / 4000)).isSome)
    (k : Nat) : ((s.allocate env p).page k).isSome ↔ (s.page k).isSome ∨ k = p / 4000 := by
  by_cases hk : k = p / 4000
  · subst hk
    simp [hp]
  · simp [allocate_page_of_ne env s hk, hk]

/-- A page after the allocations is one from before, or fresh. -/
theorem allocate_page_cases (env : Env) (s : Store) (a k : Nat) :
    (s.allocate env a).page k = s.page k ∨ ∃ n, (s.allocate env a).page k = some (env.junk n) := by
  unfold allocate allocateAt
  simp only
  split_ifs
  · unfold ensurePage
    split_ifs
    · simp
    · by_cases hk : k = a / 4000
      · subst hk
        exact Or.inr ⟨_, Function.update_self ..⟩
      · simp [addPage, hk]
    · simp [countCall]
  · simp
  · simp

/-- Without its page a write makes no page at all. -/
theorem allocate_page_of_none {p : Nat} (hp : ¬ ((s.allocate env p).page (p / 4000)).isSome) :
    (s.allocate env p).page = s.page := by
  funext k
  by_cases hk : k = p / 4000
  · subst hk
    have hn : (s.allocate env p).page (p / 4000) = none := by simpa using hp
    rw [hn]
    cases hb : s.page (p / 4000) with
    | none => rfl
    | some b =>
      rw [allocate_page_of_some env s hb] at hn
      simp at hn
  · exact allocate_page_of_ne env s hk

theorem byte_allocate_of_some {p x : Nat} {v : UInt8} (hx : s.byte x = some v) :
    (s.allocate env p).byte x = some v := by
  unfold byte at hx ⊢
  cases hb : s.page (x / 4000) with
  | none => rw [hb] at hx; simp at hx
  | some b => rw [allocate_page_of_some env s hb, ← hb]; exact hx

theorem chunk_le (p count : Nat) : p % 4000 + chunk p count ≤ 4000 := by
  unfold chunk
  omega

/-- Bytes outside the range of an overlay are kept. -/
theorem byte_overlay_of_not_mem {p count x : Nat} (src : Nat → Option UInt8)
    (hx : ¬ (p ≤ x ∧ x < p + chunk p count)) :
    (s.overlay (p / 4000) (p % 4000) (chunk p count) src).byte x = s.byte x := by
  have hc := chunk_le p count
  unfold byte overlay
  by_cases hk : x / 4000 = p / 4000
  · simp only [hk, Function.update_self, Option.map_map]
    congr 1
    funext b
    simp only [Function.comp_apply, Mem.overlay]
    rw [if_neg (by omega)]
  · simp [Function.update_of_ne hk]

/-- Bytes inside the range take the value laid over them. -/
theorem byte_overlay_of_mem {p count x : Nat} (src : Nat → Option UInt8)
    (hx : p ≤ x ∧ x < p + chunk p count) :
    (s.overlay (p / 4000) (p % 4000) (chunk p count) src).byte x
      = (s.byte x).map fun v => (src (x - p)).getD v := by
  have hc := chunk_le p count
  have hk : x / 4000 = p / 4000 := by omega
  unfold byte overlay
  simp only [hk, Function.update_self, Option.map_map]
  congr 1
  funext b
  simp only [Function.comp_apply, Mem.overlay]
  rw [if_pos (by omega), show x % 4000 - p % 4000 = x - p by omega]

theorem addrOf_chunk (p count : Nat) : chunk (addrOf p) count = chunk p count := by
  unfold chunk
  rw [addrOf_mod]

@[simp] theorem byte_extend (n x : Nat) : (s.extend n).byte x = s.byte x := rfl

theorem overlay_page_isSome (k k' off n : Nat) (src : Nat → Option UInt8) :
    ((s.overlay k off n src).page k').isSome = (s.page k').isSome := by
  unfold overlay
  by_cases hk : k' = k
  · subst hk; simp
  · simp [hk]

/-- What a write that got its page lays over its range: the user's bytes, or what was left. -/
def laid (p count : Nat) (buf : Nat → UInt8) (copy : UserCopy) : Nat → Option UInt8 :=
  if min copy.uncopied (chunk p count) = 0 then fun i => some (buf i) else copy.clobber

/-- The store after a write that got its page. -/
theorem write_of_isSome {p : Nat}
    (hp : ((s.allocate env (addrOf p)).page (addrOf p / 4000)).isSome) (count : Nat)
    (buf : Nat → UInt8) (copy : UserCopy) :
    (s.write env p count buf copy).1
      = if min copy.uncopied (chunk p count) = 0 then
          ((s.allocate env (addrOf p)).overlay (addrOf p / 4000) (p % 4000) (chunk p count)
            (laid p count buf copy)).extend (p + chunk p count)
        else
          (s.allocate env (addrOf p)).overlay (addrOf p / 4000) (p % 4000) (chunk p count)
            (laid p count buf copy) := by
  unfold write laid
  simp only
  rw [if_pos hp]
  by_cases hleft : min copy.uncopied (chunk p count) = 0
  · rw [if_neg (not_not.mpr hleft), if_pos hleft, if_pos hleft]
  · rw [if_pos hleft, if_neg hleft, if_neg hleft]

theorem write_size {p : Nat} (hp : ((s.allocate env (addrOf p)).page (addrOf p / 4000)).isSome)
    (count : Nat) (buf : Nat → UInt8) (copy : UserCopy) :
    (s.write env p count buf copy).1.size
      = if min copy.uncopied (chunk p count) = 0 then max s.size (p + chunk p count)
        else s.size := by
  rw [write_of_isSome hp]
  split_ifs
  · show max (s.allocate env _).size _ = _
    rw [allocate_size]
  · show (s.allocate env _).size = _
    rw [allocate_size]

/-- The pages there are after a write that got its page. -/
theorem write_page_isSome {p : Nat}
    (hp : ((s.allocate env (addrOf p)).page (addrOf p / 4000)).isSome) (count : Nat)
    (buf : Nat → UInt8) (copy : UserCopy) (k : Nat) :
    ((s.write env p count buf copy).1.page k).isSome
      ↔ (s.page k).isSome ∨ k = addrOf p / 4000 := by
  have hext : ∀ (u : Store) (n : Nat), (u.extend n).page = u.page := fun _ _ => rfl
  rw [← allocate_present hp, write_of_isSome hp]
  split_ifs
  · rw [hext, overlay_page_isSome]
  · rw [overlay_page_isSome]

/-- The bytes after a write that got its page. -/
theorem byte_write {p : Nat} (hp : ((s.allocate env (addrOf p)).page (addrOf p / 4000)).isSome)
    (count : Nat) (buf : Nat → UInt8) (copy : UserCopy) (x : Nat) :
    (s.write env p count buf copy).1.byte x
      = if addrOf p ≤ x ∧ x < addrOf p + chunk p count then
          ((s.allocate env (addrOf p)).byte x).map fun v =>
            (laid p count buf copy (x - addrOf p)).getD v
        else (s.allocate env (addrOf p)).byte x := by
  have hover : (s.write env p count buf copy).1.byte x
      = ((s.allocate env (addrOf p)).overlay (addrOf p / 4000) (p % 4000) (chunk p count)
          (laid p count buf copy)).byte x := by
    rw [write_of_isSome hp]
    split_ifs
    · rw [byte_extend]
    · rfl
  rw [hover, ← addrOf_mod, ← addrOf_chunk]
  split_ifs with hx
  · exact byte_overlay_of_mem _ hx
  · exact byte_overlay_of_not_mem _ hx

/-- **The three ways a write can end.** -/
theorem write_cases (env : Env) (p count : Nat) (buf : Nat → UInt8) (copy : UserCopy) (s : Store) :
    (¬ ((s.allocate env (addrOf p)).page (addrOf p / 4000)).isSome ∧
      s.write env p count buf copy
        = (s.allocate env (addrOf p), { retval := -enomem, fPos := p, delivered := [] })) ∨
    (((s.allocate env (addrOf p)).page (addrOf p / 4000)).isSome ∧
      min copy.uncopied (chunk p count) ≠ 0 ∧
      s.write env p count buf copy
        = ((s.allocate env (addrOf p)).overlay (addrOf p / 4000) (p % 4000) (chunk p count)
            copy.clobber, { retval := -efault, fPos := p, delivered := [] })) ∨
    (((s.allocate env (addrOf p)).page (addrOf p / 4000)).isSome ∧
      min copy.uncopied (chunk p count) = 0 ∧
      s.write env p count buf copy
        = (((s.allocate env (addrOf p)).overlay (addrOf p / 4000) (p % 4000) (chunk p count)
            fun i => some (buf i)).extend (p + chunk p count),
          { retval := (chunk p count : Nat), fPos := p + chunk p count, delivered := [] })) := by
  unfold write
  simp only
  by_cases hp : ((s.allocate env (addrOf p)).page (addrOf p / 4000)).isSome
  · rw [if_pos hp]
    by_cases hleft : min copy.uncopied (chunk p count) = 0
    · rw [if_neg (not_not.mpr hleft)]
      exact Or.inr (Or.inr ⟨hp, hleft, rfl⟩)
    · rw [if_pos hleft]
      exact Or.inr (Or.inl ⟨hp, hleft, rfl⟩)
  · rw [if_neg hp]
    exact Or.inl ⟨hp, rfl⟩

/-- A write that got no page. -/
theorem write_of_none {p : Nat}
    (hp : ¬ ((s.allocate env (addrOf p)).page (addrOf p / 4000)).isSome) (count : Nat)
    (buf : Nat → UInt8) (copy : UserCopy) :
    s.write env p count buf copy
      = (s.allocate env (addrOf p), { retval := -enomem, fPos := p, delivered := [] }) := by
  unfold write
  simp only
  rw [if_neg hp]

end Store

end LkmSandbox.Mev
