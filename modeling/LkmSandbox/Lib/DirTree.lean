import Mathlib.Data.List.Nodup
import Mathlib.Data.List.Perm.Basic
import Mathlib.Data.List.ReduceOption

/-!
# Trees of directories

A tree of named entries, each a directory or a file. A path is the list of its names, the entry's
own name first, so that its tail is the directory it is in; `[]` is the root.

* `DirTree.create` — may be refused, and is refused where the name is taken
* `DirTree.remove` — takes an entry that is there and, if it is a directory, empty
* `DirTree.create_eq` — what a call that makes an entry leaves
* `DirTree.removeAll_restores` — removing what has been added, each entry before the directory it is
  in, gives back the tree as it was
-/

namespace Lib

inductive DirNode (ν : Type) where
  | dir
  | file (content : ν)
deriving DecidableEq

/-- One entry for a path, and each in a directory that is there. -/
@[ext]
structure DirTree (κ ν : Type) where
  entries : List (List κ × DirNode ν)
  nodup : (entries.map Prod.fst).Nodup
  rooted : ∀ e ∈ entries, e.1 ≠ [] ∧ (e.1.tail = [] ∨ (e.1.tail, DirNode.dir) ∈ entries)

namespace DirTree

variable {κ ν : Type}

/-- What a tree cannot be asked to do. -/
inductive Fault (κ : Type) where
  | noDirectory (path : List κ)
  | missing (path : List κ)
  | notEmpty (path : List κ)
deriving DecidableEq

def paths (t : DirTree κ ν) : List (List κ) := t.entries.map Prod.fst

def IsDir (t : DirTree κ ν) (p : List κ) : Prop := p = [] ∨ (p, DirNode.dir) ∈ t.entries

/-- Some entry is in the directory `p`. -/
def HasChild (t : DirTree κ ν) (p : List κ) : Prop := ∃ e ∈ t.entries, e.1.tail = p

instance [DecidableEq κ] [DecidableEq ν] (t : DirTree κ ν) (p : List κ) : Decidable (t.IsDir p) :=
  inferInstanceAs (Decidable (_ ∨ _))

instance [DecidableEq κ] (t : DirTree κ ν) (p : List κ) : Decidable (t.HasChild p) :=
  inferInstanceAs (Decidable (∃ e ∈ t.entries, e.1.tail = p))

/-! ## Adding an entry -/

theorem nodup_insert {t : DirTree κ ν} {p : List κ} (h : p ∉ t.paths) (x : DirNode ν) :
    (((p, x) :: t.entries).map Prod.fst).Nodup := List.nodup_cons.mpr ⟨h, t.nodup⟩

theorem rooted_insert {t : DirTree κ ν} {dir : List κ} (h : t.IsDir dir) (name : κ)
    (x : DirNode ν) : ∀ e ∈ (name :: dir, x) :: t.entries,
      e.1 ≠ [] ∧ (e.1.tail = [] ∨ (e.1.tail, DirNode.dir) ∈ (name :: dir, x) :: t.entries) := by
  intro e he
  rcases List.mem_cons.mp he with rfl | he
  · exact ⟨List.cons_ne_nil _ _, h.imp_right (List.mem_cons_of_mem _)⟩
  · exact (t.rooted e he).imp_right fun hp => hp.imp_right (List.mem_cons_of_mem _)

/-- A new entry `name` in the directory `dir`. -/
def insert (t : DirTree κ ν) (dir : List κ) (name : κ) (x : DirNode ν) (hdir : t.IsDir dir)
    (hfree : name :: dir ∉ t.paths) : DirTree κ ν where
  entries := (name :: dir, x) :: t.entries
  nodup := nodup_insert hfree x
  rooted := rooted_insert hdir name x

/-! ## What has been added -/

/-- `t` is `t₀` with entries at the paths `ps` added to it. -/
def Adds (t₀ t : DirTree κ ν) (ps : List (List κ)) : Prop :=
  ∃ es, t.entries = es ++ t₀.entries ∧ (es.map Prod.fst).Perm ps

variable {t₀ t : DirTree κ ν} {p : List κ} {ps : List (List κ)}

theorem mem_paths_of_mem {e : List κ × DirNode ν} (h : e ∈ t.entries) : e.1 ∈ t.paths :=
  List.mem_map_of_mem h

theorem isDir_insert {dir : List κ} {name : κ} {x : DirNode ν} (hdir : t.IsDir dir)
    (hfree : name :: dir ∉ t.paths) (h : t.IsDir p) : (t.insert dir name x hdir hfree).IsDir p :=
  h.imp_right (List.mem_cons_of_mem _)

namespace Adds

theorem refl (t : DirTree κ ν) : Adds t t [] := ⟨[], rfl, List.Perm.nil⟩

theorem perm {qs : List (List κ)} (h : Adds t₀ t ps) (hperm : ps.Perm qs) : Adds t₀ t qs := by
  obtain ⟨es, heq, hes⟩ := h
  exact ⟨es, heq, hes.trans hperm⟩

theorem eq_of_nil (h : Adds t₀ t []) : t = t₀ := by
  obtain ⟨es, heq, hes⟩ := h
  have hnil : es = [] := List.map_eq_nil_iff.mp hes.eq_nil
  exact DirTree.ext (by rw [heq, hnil, List.nil_append])

theorem insert (h : Adds t₀ t ps) {dir : List κ} {name : κ} {x : DirNode ν} (hdir : t.IsDir dir)
    (hfree : name :: dir ∉ t.paths) :
    Adds t₀ (t.insert dir name x hdir hfree) ((name :: dir) :: ps) := by
  obtain ⟨es, heq, hes⟩ := h
  refine ⟨(name :: dir, x) :: es, ?_, hes.cons _⟩
  show (name :: dir, x) :: t.entries = _
  rw [heq, List.cons_append]

/-- What has been added is there once, and was not there before. -/
theorem nodup_disjoint (h : Adds t₀ t ps) : ps.Nodup ∧ ∀ p ∈ ps, p ∈ t.paths ∧ p ∉ t₀.paths := by
  obtain ⟨es, heq, hes⟩ := h
  have hnodup := t.nodup
  rw [heq, List.map_append, List.nodup_append] at hnodup
  obtain ⟨hnew, -, hdisj⟩ := hnodup
  refine ⟨hes.nodup_iff.mp hnew, ?_⟩
  intro p hp
  have hmem := hes.mem_iff.mpr hp
  refine ⟨?_, fun h₀ => hdisj p hmem p h₀ rfl⟩
  unfold paths
  rw [heq, List.map_append]
  exact List.mem_append_left _ hmem

/-- An added entry has a child only if that has been added too. -/
theorem not_hasChild (h : Adds t₀ t (p :: ps)) (hps : ∀ q ∈ ps, q.tail ≠ p) :
    ¬ t.HasChild p := by
  rintro ⟨e, he, htail⟩
  have hfresh := (h.nodup_disjoint.2 p List.mem_cons_self)
  obtain ⟨es, heq, hes⟩ := h
  rw [heq] at he
  rcases List.mem_append.mp he with hnew | hold
  · rcases List.mem_cons.mp (hes.mem_iff.mp (List.mem_map_of_mem hnew)) with hself | hlater
    · -- an entry is not in itself
      have hne := (t.rooted e (heq ▸ List.mem_append_left _ hnew)).1
      have hlen := congrArg List.length (htail.trans hself.symm)
      rw [List.length_tail] at hlen
      exact hne (List.length_eq_zero_iff.mp (by omega))
    · exact hps e.1 hlater htail
  · rcases (t₀.rooted e hold).2 with hroot | hdir
    · rw [← htail, hroot] at hfresh
      obtain ⟨e', he', hnil⟩ := List.mem_map.mp hfresh.1
      exact (t.rooted e' he').1 hnil
    · rw [htail] at hdir
      exact hfresh.2 (mem_paths_of_mem hdir)

end Adds

/-! ## Operations -/

variable [DecidableEq κ]

/-- The entry at `p`. -/
def get (t : DirTree κ ν) (p : List κ) : Option (DirNode ν) :=
  (t.entries.find? (·.1 = p)).map Prod.snd

theorem get_eq_some_iff {x : DirNode ν} : t.get p = some x ↔ (p, x) ∈ t.entries := by
  unfold get
  rw [Option.map_eq_some_iff]
  constructor
  · rintro ⟨⟨q, y⟩, hfind, rfl⟩
    have hq : q = p := by simpa using List.find?_some hfind
    rw [← hq]
    exact List.mem_of_find?_eq_some hfind
  · intro hmem
    have hsome : (t.entries.find? (·.1 = p)).isSome :=
      List.find?_isSome.mpr ⟨(p, x), hmem, decide_eq_true rfl⟩
    obtain ⟨e, hfind⟩ := Option.isSome_iff_exists.mp hsome
    have hp : e.1 = p := by simpa using List.find?_some hfind
    have he : e = (p, x) :=
      List.inj_on_of_nodup_map t.nodup (List.mem_of_find?_eq_some hfind) hmem hp
    exact ⟨e, hfind, by rw [he]⟩

theorem mem_paths_iff : p ∈ t.paths ↔ ∃ x, t.get p = some x := by
  unfold paths
  rw [List.mem_map]
  constructor
  · rintro ⟨⟨q, x⟩, hmem, rfl⟩
    exact ⟨x, get_eq_some_iff.mpr hmem⟩
  · rintro ⟨x, hx⟩
    exact ⟨(p, x), get_eq_some_iff.mp hx, rfl⟩

theorem nodup_erase (t : DirTree κ ν) (p : List κ) :
    ((t.entries.filter (·.1 ≠ p)).map Prod.fst).Nodup :=
  t.nodup.sublist (List.filter_sublist.map _)

theorem rooted_erase {t : DirTree κ ν} {p : List κ} (h : ¬ t.HasChild p) :
    ∀ e ∈ t.entries.filter (·.1 ≠ p), e.1 ≠ [] ∧
      (e.1.tail = [] ∨ (e.1.tail, DirNode.dir) ∈ t.entries.filter (·.1 ≠ p)) := by
  intro e he
  have hmem := List.mem_of_mem_filter he
  refine (t.rooted e hmem).imp_right fun hp => hp.imp_right ?_
  intro hdir
  exact List.mem_filter.mpr ⟨hdir, decide_eq_true fun heq => h ⟨e, hmem, heq⟩⟩

/-- Without the entry `p`, which has no child. -/
def erase (t : DirTree κ ν) (p : List κ) (h : ¬ t.HasChild p) : DirTree κ ν where
  entries := t.entries.filter (·.1 ≠ p)
  nodup := t.nodup_erase p
  rooted := rooted_erase h

/-- Remove the entry at `p`. -/
def remove (t : DirTree κ ν) (p : List κ) : Except (Fault κ) (DirTree κ ν) :=
  if p ∉ t.paths then .error (.missing p)
  else if h : t.HasChild p then .error (.notEmpty p)
  else .ok (t.erase p h)

def removeAll (t : DirTree κ ν) : List (List κ) → Except (Fault κ) (DirTree κ ν)
  | [] => .ok t
  | p :: ps =>
    match t.remove p with
    | .error e => .error e
    | .ok t' => t'.removeAll ps

/--
Make an entry, where the call is `granted` and the name is not taken. The path of the entry, or
`none` where the call is refused.
-/
def create [DecidableEq ν] (t : DirTree κ ν) (granted : Bool) (dir : List κ) (name : κ)
    (x : DirNode ν) : Except (Fault κ) (DirTree κ ν × Option (List κ)) :=
  if hdir : t.IsDir dir then
    if hfree : name :: dir ∉ t.paths then
      if granted then .ok (t.insert dir name x hdir hfree, some (name :: dir)) else .ok (t, none)
    else .ok (t, none)
  else .error (.noDirectory dir)

theorem Adds.remove (h : Adds t₀ t (p :: ps)) (hps : ∀ q ∈ ps, q.tail ≠ p) :
    ∃ t', t.remove p = .ok t' ∧ Adds t₀ t' ps := by
  have hchild := h.not_hasChild hps
  obtain ⟨hnodup, hfresh⟩ := h.nodup_disjoint
  obtain ⟨hthere, hold⟩ := hfresh p List.mem_cons_self
  refine ⟨t.erase p hchild, ?_, ?_⟩
  · rw [DirTree.remove, if_neg (not_not_intro hthere), dif_neg hchild]
  · obtain ⟨es, heq, hes⟩ := h
    refine ⟨es.filter (·.1 ≠ p), ?_, ?_⟩
    · show t.entries.filter _ = _
      rw [heq, List.filter_append]
      congr 1
      refine List.filter_eq_self.mpr fun e he => decide_eq_true fun hp => hold ?_
      rw [← hp]
      exact mem_paths_of_mem he
    · have hfilter : (es.filter (·.1 ≠ p)).map Prod.fst = (es.map Prod.fst).filter (· ≠ p) := by
        rw [List.filter_map]
        rfl
      rw [hfilter]
      refine (hes.filter _).trans (List.Perm.of_eq ?_)
      rw [List.filter_cons_of_neg (by simp)]
      refine List.filter_eq_self.mpr fun q hq => decide_eq_true ?_
      rintro rfl
      exact (List.nodup_cons.mp hnodup).1 hq

/-- **Restoring.** Everything added is removed, each entry before the directory it is in. -/
theorem removeAll_restores : ∀ {ps : List (List κ)} {t : DirTree κ ν}, Adds t₀ t ps →
    ps.Pairwise (fun p q => q.tail ≠ p) → t.removeAll ps = .ok t₀
  | [], t, h, _ => by rw [removeAll, h.eq_of_nil]
  | p :: ps, t, h, hps => by
    obtain ⟨hp, hps⟩ := List.pairwise_cons.mp hps
    obtain ⟨t', hremove, h'⟩ := h.remove hp
    rw [removeAll, hremove]
    exact removeAll_restores h' hps

/-- A call that makes an entry adds it to what has been added, or is refused. -/
theorem create_spec [DecidableEq ν] {os : List (Option (List κ))}
    (h : Adds t₀ t os.reduceOption) {dir : List κ} (hdir : t.IsDir dir) (granted : Bool) (name : κ)
    (x : DirNode ν) :
    ∃ t' o, t.create granted dir name x = .ok (t', o) ∧ Adds t₀ t' (o :: os).reduceOption ∧
      (∀ p, t.IsDir p → t'.IsDir p) ∧ (∀ p ∈ o, p = name :: dir) ∧
      (x = .dir → t'.IsDir (o.getD [])) := by
  unfold create
  rw [dif_pos hdir]
  by_cases hfree : name :: dir ∉ t.paths
  · rw [dif_pos hfree]
    cases granted with
    | true =>
      refine ⟨_, _, rfl, ?_, fun p => isDir_insert hdir hfree, ?_, ?_⟩
      · rw [List.reduceOption_cons_of_some]
        exact h.insert hdir hfree
      · intro p hp
        exact (Option.mem_some_iff.mp hp).symm
      · rintro rfl
        exact Or.inr List.mem_cons_self
    | false =>
      exact ⟨t, none, rfl, h, fun _ => id, fun _ hp => absurd hp (Option.not_mem_none _),
        fun _ => Or.inl rfl⟩
  · rw [dif_neg hfree]
    exact ⟨t, none, rfl, h, fun _ => id, fun _ hp => absurd hp (Option.not_mem_none _),
        fun _ => Or.inl rfl⟩

end DirTree

end Lib
