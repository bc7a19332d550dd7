import Mathlib.Data.List.Basic
import ShellConfig.Proofs.Files.Walk

/-!
# Single operations on files

What each operation does to a tree with a file in it, and where paths lead in the tree afterwards.
Main statements: `locate_child_iff`, that a path to a name is one to its directory with one more
name; `IsUpdate.locate`, that a change at one place does not change where an entry is; and one lemma
for each of creating, writing, moving and removing a file.
-/

namespace ShellConfig

/-! ### Texts of paths -/

namespace Path

variable {f : Path} {n : Text}

/-- What stands before the last name in the text of a path that is one name longer. -/
def stem (f : Path) : Text := anchorText f.anchor ++ f.names.flatMap (· ++ ['/'])

theorem join_concat (ns : List Text) (n : Text) :
    Text.join ['/'] (ns ++ [n]) = ns.flatMap (· ++ ['/']) ++ n := by
  induction ns with
  | nil => rfl
  | cons m ns ih =>
    have hjoin : Text.join ['/'] (m :: (ns ++ [n])) =
        m ++ (['/'] ++ Text.join ['/'] (ns ++ [n])) := by
      cases ns <;> rfl
    rw [List.cons_append, hjoin, ih]
    simp

theorem text_child (f : Path) (n : Text) : (f.child n).text = f.stem ++ n := by
  unfold text child stem
  cases f.anchor <;> simp [join_concat]

@[simp] theorem parent_child (f : Path) (n : Text) : (f.child n).parent = f := by
  simp [parent, child]

@[simp] theorem name?_child (f : Path) (n : Text) : (f.child n).name? = some n := by
  simp [name?, child]

@[simp] theorem anchor_child (f : Path) (n : Text) : (f.child n).anchor = f.anchor := rfl

@[simp] theorem names_child (f : Path) (n : Text) : (f.child n).names = f.names ++ [n] := rfl

@[simp] theorem withName_child (f : Path) (n w : Text) : (f.child n).withName w = f.child w := by
  simp [withName]

theorem hasNul_child : (f.child n).hasNul = false ↔ f.hasNul = false ∧ Char.ofNat 0 ∉ n := by
  simp [hasNul, child]

@[simp] theorem isNamed_child (f : Path) (n : Text) : (f.child n).isNamed = (n != up) := by
  simp [isNamed]

theorem eq_child (h : f.name? = some n) : f = f.parent.child n := by
  obtain ⟨ns, hns⟩ := List.getLast?_eq_some_iff.1 h
  cases f
  simp_all [parent, child]

end Path

namespace FileTree

theorem byteCount_append (a b : Text) : byteCount (a ++ b) = byteCount a + byteCount b := by
  simp [byteCount, String.ofList_append, String.utf8ByteSize_append]

theorem byteCount_cons (c : Char) (t : Text) : byteCount (c :: t) = c.utf8Size + byteCount t := by
  rw [← List.singleton_append, byteCount_append]
  simp [byteCount]

theorem byteCount_eq_length {t : Text} (h : ∀ c ∈ t, c.utf8Size = 1) : byteCount t = t.length := by
  induction t with
  | nil => rfl
  | cons c t ih =>
    rw [byteCount_cons, h c (by simp), ih fun d hd => h d (by simp [hd]), List.length_cons]
    omega

theorem byteCount_text_child (f : Path) (n : Text) :
    byteCount (f.child n).text = byteCount f.stem + byteCount n := by
  rw [Path.text_child, byteCount_append]

theorem byteCount_text_le (f : Path) : byteCount f.text ≤ max 1 (byteCount f.stem) := by
  rcases List.eq_nil_or_concat f.names with hns | ⟨ns, n, hns⟩
  · cases f with
    | mk anchor names =>
      subst hns
      cases anchor <;> decide
  · have hf : f = (⟨f.anchor, ns⟩ : Path).child n := by
      cases f
      simp_all [Path.child]
    have hstem : f.stem = (⟨f.anchor, ns⟩ : Path).stem ++ (n ++ ['/']) := by
      simp [Path.stem, hns]
    rw [hf, Path.text_child, ← hf, hstem]
    simp only [byteCount_append]
    omega

/-! ### Trees that differ in one place -/

/-- A tree that holds something else at one place, and is otherwise the same. -/
structure IsUpdate (t u : FileTree) (q : Place) (v : Option Node) : Prop where
  node? : ∀ p, u.node? p = if p = q then v else t.node? p
  workingPlace : u.workingPlace = t.workingPlace
  draw : u.draw = t.draw
  length_le : u.nodes.length ≤ t.nodes.length + 1

/-- A tree that holds the same everywhere. -/
structure Alike (t u : FileTree) : Prop where
  node? : ∀ p, u.node? p = t.node? p
  workingPlace : u.workingPlace = t.workingPlace
  draw : u.draw = t.draw
  length_le : u.nodes.length ≤ t.nodes.length

variable {t u : FileTree} {f : Path} {goal : Goal} {p q d : Place} {n : Text} {k : Node}
  {v : Option Node} {b : ByteArray} {m mode : Mode} {s : Stamp}

theorem Alike.refl (t : FileTree) : Alike t t := ⟨fun _ => rfl, rfl, rfl, Nat.le_refl _⟩

theorem IsUpdate.node?_self (h : IsUpdate t u q v) : u.node? q = v := by rw [h.node?, if_pos rfl]

theorem IsUpdate.node?_of_ne (h : IsUpdate t u q v) (hp : p ≠ q) : u.node? p = t.node? p := by
  rw [h.node?, if_neg hp]

theorem length_put_le (t : FileTree) (p : Place) (k : Node) :
    (t.put p k).nodes.length ≤ t.nodes.length + 1 := by
  simpa [put] using List.length_filter_le _ t.nodes

theorem length_erase_lt (h : t.node? p = some k) : (t.erase p).nodes.length < t.nodes.length := by
  refine Nat.lt_of_le_of_ne (List.length_filter_le _ t.nodes) fun heq => ?_
  have := List.length_filter_eq_length_iff.1 heq (p, k) (mem_nodes h)
  simp at this

theorem length_put_le_of_node? (h : t.node? p = some k) (k' : Node) :
    (t.put p k').nodes.length ≤ t.nodes.length :=
  length_erase_lt h

theorem node?_putFile (t : FileTree) (q p : Place) (b : ByteArray) (m : Mode) :
    (t.putFile q b m).node? p = if p = q then some (.file b m (.tick t.clock)) else t.node? p := by
  unfold putFile
  rw [node?_tick, node?_put]

/-! ### Where paths lead -/

theorem locate_eq_ok_iff :
    t.locate f goal = .ok q ↔
      byteCount f.text ≤ maxPathBytes ∧
        Leads t goal maxLinks false (start t.workingPlace f.anchor) f.names q := by
  unfold locate
  by_cases h : maxPathBytes < byteCount f.text
  · simp [h, Nat.not_le.2 h]
  · simp [h, Nat.not_lt.1 h, walk_eq_ok_iff]

theorem find_eq_ok_iff :
    t.find f goal = .ok (q, k) ↔ t.locate f goal = .ok q ∧ t.node? q = some k := by
  unfold find
  cases t.locate f goal with
  | error e => simp
  | ok q' =>
    constructor
    · intro h
      dsimp only at h
      split at h
      · cases h
      · cases h
        exact ⟨rfl, ‹_›⟩
    · rintro ⟨hq, hk⟩
      cases hq
      simp only [hk]

/-- A path to a name leads there if the path to the directory leads to one that can be searched. -/
theorem locate_child_iff (hstep : IsStep n) :
    t.locate (f.child n) .entry = .ok q ↔
      byteCount (f.child n).text ≤ maxPathBytes ∧ byteCount n ≤ maxNameBytes ∧
        ∃ d, t.locate f = .ok d ∧ t.Searchable d ∧ q = d ++ [n] := by
  simp only [locate_eq_ok_iff, Path.names_child, Path.anchor_child]
  constructor
  · rintro ⟨hlen, h⟩
    obtain ⟨d, hq, hd, hn, hrest⟩ := h.parent hstep
    refine ⟨hlen, hn, d, ⟨?_, hrest⟩, hd, hq⟩
    have hle := byteCount_text_le f
    rw [byteCount_text_child] at hlen
    unfold maxPathBytes at *
    omega
  · rintro ⟨hlen, hn, d, ⟨-, hrest⟩, hd, rfl⟩
    exact ⟨hlen, hrest.child hd hstep hn⟩

/-- A path leads to the same place in every tree in which its walk notices no difference. -/
theorem locate_frame (h : t.locate f goal = .ok q) (hk : Unnoticed t u goal)
    (hplace : u.workingPlace = t.workingPlace) (hq : (t.node? q).isSome ∨ goal = .entry) :
    u.locate f goal = .ok q := by
  rw [locate_eq_ok_iff] at h ⊢
  refine ⟨h.1, ?_⟩
  rw [hplace]
  exact h.2.frame hk (hq.imp_right fun hg => ⟨rfl, hg⟩)

/-- A path to an entry that is no link leads there whatever is looked for. -/
theorem locate_of_entry (h : t.locate f .entry = .ok q)
    (hq : ∀ target, t.node? q ≠ some (.link target)) (goal : Goal) : t.locate f goal = .ok q := by
  rw [locate_eq_ok_iff] at h ⊢
  exact ⟨h.1, h.2.to_goal rfl hq goal⟩

/-- Where a path to content leads, its entry is, unless that is a link. -/
theorem locate_entry (h : t.locate f = .ok q) :
    t.locate f .entry = .ok q ∨
      ∃ r target, t.locate f .entry = .ok r ∧ t.node? r = some (.link target) := by
  simp only [locate_eq_ok_iff] at h ⊢
  rcases h.2.to_entry rfl with hq | ⟨r, target, hr, hnode⟩
  · exact .inl ⟨h.1, hq⟩
  · exact .inr ⟨r, target, ⟨h.1, hr⟩, hnode⟩

theorem IsUpdate.unnoticed (h : IsUpdate t u q v) (ht : IsBare (t.node? q)) (hv : IsBare v)
    (goal : Goal) : Unnoticed t u goal := by
  intro p
  by_cases hp : p = q
  · subst hp
    exact .inr ⟨ht, .inr (h.node?_self ▸ hv)⟩
  · exact .inl (h.node?_of_ne hp)

theorem IsUpdate.unnoticed_back (h : IsUpdate t u q v) (hv : IsBare v) : Unnoticed u t .entry := by
  intro p
  by_cases hp : p = q
  · subst hp
    exact .inr ⟨h.node?_self ▸ hv, .inl rfl⟩
  · exact .inl (h.node?_of_ne hp).symm

theorem IsUpdate.locate_back (h : IsUpdate t u q v) (hv : IsBare v)
    (hf : u.locate f .entry = .ok p) : t.locate f .entry = .ok p :=
  locate_frame hf (h.unnoticed_back hv) h.workingPlace.symm (.inr rfl)

theorem IsUpdate.locate (h : IsUpdate t u q v) (ht : IsBare (t.node? q)) (hv : IsBare v)
    (hf : t.locate f goal = .ok p) (hp : (t.node? p).isSome ∨ goal = .entry) :
    u.locate f goal = .ok p :=
  locate_frame hf (h.unnoticed ht hv goal) h.workingPlace hp

/-- Where a path leads in the changed tree, it led before, unless that is the place of the change.
-/
theorem IsUpdate.locate_back_or (h : IsUpdate t u q v) (hv : IsBare v)
    (hf : u.locate f goal = .ok p) : p = q ∨ t.locate f goal = .ok p := by
  rw [locate_eq_ok_iff] at hf ⊢
  rw [h.workingPlace] at hf
  have hback := hf.2.back (fun r hr => h.node?_of_ne hr) (h.node?_self ▸ hv)
  exact hback.imp_right fun hl => ⟨hf.1, hl⟩

theorem IsUpdate.locate_made (h : IsUpdate t u q v) (hq : t.node? q = none) (hv : IsBare v)
    (hf : t.locate f .newContent = .ok q) : u.locate f = .ok q := by
  rw [locate_eq_ok_iff] at hf ⊢
  rw [h.workingPlace]
  exact ⟨hf.1, hf.2.made hq (fun r hr => h.node?_of_ne hr) (h.node?_self ▸ hv)⟩

theorem IsUpdate.parentWritable (h : IsUpdate t u q v) (ht : IsBare (t.node? q)) (hv : IsBare v)
    (p : Place) : u.parentWritable p = t.parentWritable p := by
  unfold FileTree.parentWritable
  by_cases hp : p.dropLast = q
  · rw [hp, h.node?_self]
    cases v with
    | none => cases hn : t.node? q with
      | none => rfl
      | some k => cases k <;> simp_all
    | some k => cases k <;> cases hn : t.node? q with
      | none => simp_all
      | some k => cases k <;> simp_all
  · rw [h.node?_of_ne hp]

/-! ### Single operations -/

theorem create_eq_ok :
    t.create f mode = .ok u ↔
      ∃ q, t.locate f .entry = .ok q ∧ t.node? q = none ∧ t.parentWritable q = true ∧
        u = t.putFile q .empty mode := by
  unfold create
  cases t.locate f .entry with
  | error e => simp
  | ok q =>
    simp only [Except.ok.injEq, exists_eq_left']
    cases t.node? q with
    | some k => simp
    | none =>
      cases t.parentWritable q with
      | false => simp
      | true => simpa using eq_comm

theorem write_of_file (h : t.locate f .newContent = .ok q) (hq : t.node? q = some (.file b m s))
    (hm : m.writable = true) (bytes : ByteArray) :
    t.write f bytes = .ok (t.putFile q bytes m) := by
  simp [write, h, hq, hm]

theorem chmod_of_file (h : t.locate f = .ok q) (hq : t.node? q = some (.file b m s)) (mode : Mode) :
    t.chmod f mode = .ok (t.put q (.file b mode s)) := by
  simp [chmod, find_eq_ok_iff.2 ⟨h, hq⟩]

theorem read_of_file (h : t.locate f = .ok q) (hq : t.node? q = some (.file b m s))
    (hm : m.readable = true) : t.read f = .ok b := by
  simp [read, find_eq_ok_iff.2 ⟨h, hq⟩, hm]

theorem read_eq_ok :
    t.read f = .ok b ↔ ∃ q m s, t.find f = .ok (q, .file b m s) ∧ m.readable = true := by
  unfold read
  split
  · simp_all
  · split <;> simp_all
  · split <;> simp_all
  · simp_all

/-- If there is nothing to read, nothing is found. -/
theorem find_of_read_noEntry (h : t.read f = .error .noEntry) : t.find f = .error .noEntry := by
  unfold read at h
  split at h
  · simp_all
  · split at h <;> cases h
  · split at h <;> cases h
  · cases h

theorem unlink_of_file (h : t.locate f .entry = .ok q) (hf : f.isNamed = true)
    (hq : t.node? q = some (.file b m s)) (hw : t.parentWritable q = true) :
    t.unlink f = .ok (t.erase q) := by
  simp [unlink, h, hf, hq, hw]

/-- When a file can be moved, and what that does. -/
theorem rename_of_file {g : Path} (h : t.locate f .entry = .ok p)
    (hp : t.node? p = some (.file b m s)) :
    t.rename f g = .ok u ↔
      ∃ q, t.locate g .entry = .ok q ∧ g.isNamed = true ∧ q.isPrefixOf p.dropLast = false ∧
        t.parentWritable p = true ∧ t.parentWritable q = true ∧
        (∀ k, t.node? q ≠ some (.dir k)) ∧ u = (t.erase p).put q (.file b m s) := by
  unfold rename
  rw [find_eq_ok_iff.2 ⟨h, hp⟩]
  cases t.locate g .entry with
  | error e => simp
  | ok q =>
    simp only [Except.ok.injEq, exists_eq_left']
    by_cases hg : g.isNamed = true
    · by_cases hpre : q.isPrefixOf p.dropLast = true
      · simp [hg, hpre]
      · by_cases hw : t.parentWritable p = true ∧ t.parentWritable q = true
        · cases hk : t.node? q with
          | none => simp [hg, hpre, hw, eq_comm]
          | some k => cases k <;> simp [hg, hpre, hw, eq_comm]
        · have hor : (!t.parentWritable p || !t.parentWritable q) = true := by
            simpa [Decidable.imp_iff_not_or] using hw
          simp only [hg, hpre, hor, if_true]
          simp_all
    · simp [hg]

end FileTree
end ShellConfig
