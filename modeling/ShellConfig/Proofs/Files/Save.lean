import ShellConfig.Files.RcFile
import ShellConfig.Proofs.Files.Replace

/-!
# Saving a file

What becomes of a tree when a managed file is written: its backup and the file behind its links are
replaced, and nothing else. Main statements: `effectivePath_of_file`, by which path a file is
written; `backUpAndReplace_eq_ok` and `write_eq_ok`, what a success does.
-/

namespace ShellConfig

open FileTree FileOperation Operation

variable {t u v : FileTree} {f T P : Path} {p q d : Place} {n : Text} {b bytes : ByteArray}
  {m : Mode} {st : Stamp}

namespace StoreOperation

variable {α : Type} {x : FileOperation α} {s s' : Store} {a : α}

theorem onFiles_eq_ok :
    onFiles x s = .ok a s' ↔ ∃ u, x s.files = .ok a u ∧ s' = { s with files := u } :=
  within_eq_ok

theorem onFiles_eq_error {e : Failure} :
    onFiles x s = .error e s' ↔ ∃ u, x s.files = .error e u ∧ s' = { s with files := u } :=
  within_eq_error

theorem files_onFiles (x : FileOperation α) (s : Store) :
    ((onFiles x).stateAfter s).files = x.stateAfter s.files := by
  cases h : x s.files with
  | ok a u => rw [stateAfter_of_ok (onFiles_eq_ok.2 ⟨u, h, rfl⟩), stateAfter_of_ok h]
  | error e u => rw [stateAfter_of_error (onFiles_eq_error.2 ⟨u, h, rfl⟩), stateAfter_of_error h]

theorem keeps_onFiles {τ : Type} {g : FileTree → τ} (hx : Keeps g x) :
    Keeps (fun s : Store => g s.files) (onFiles x) :=
  hx.within (fun _ => rfl) fun _ _ => rfl

theorem onFiles_of_ok (h : x s.files = .ok a u) : onFiles x s = .ok a { s with files := u } :=
  onFiles_eq_ok.2 ⟨u, h, rfl⟩

end StoreOperation

namespace FileTree

/-! ### Paths from the root -/

theorem pathTo_concat (d : Place) (n : Text) : pathTo (d ++ [n]) = (pathTo d).child n := rfl

theorem WellFormed.hasNul_pathTo (wf : t.WellFormed) {k : Node} (hq : t.node? q = some k) :
    (pathTo q).hasNul = false := by
  simp only [Path.hasNul, List.any_eq_false, List.contains_eq_mem, decide_eq_true_eq]
  intro n hn
  obtain ⟨p, w, hw⟩ := wf.of_mem hq hn
  exact wf.noNul hw

theorem fromRoot_pathTo (h : ∀ n ∈ q, n ≠ Path.up) (wp : Place) :
    (pathTo q).fromRoot wp = pathTo q := by
  have hfold : ∀ (ns acc : List Text), (∀ n ∈ ns, n ≠ Path.up) →
      ns.foldl (fun ns n => if n = Path.up then ns.dropLast else ns ++ [n]) acc = acc ++ ns := by
    intro ns
    induction ns with
    | nil => simp
    | cons n ns ih =>
      intro acc hns
      rw [List.foldl_cons, if_neg (hns n (by simp)), ih _ fun k hk => hns k (by simp [hk])]
      simp
  unfold Path.fromRoot Path.collapse pathTo
  simp only [hfold q [] h, List.nil_append]

theorem WellFormed.fromRoot_pathTo (wf : t.WellFormed) {k : Node} (hq : t.node? q = some k)
    (wp : Place) : (pathTo q).fromRoot wp = pathTo q := by
  refine FileTree.fromRoot_pathTo (fun n hn => ?_) wp
  obtain ⟨p, w, hw⟩ := wf.of_mem hq hn
  exact (wf.isStep hw).2

theorem locate_pathTo (wf : t.WellFormed) {k : Node} (hq : t.node? q = some k)
    (hlink : ∀ target, k ≠ .link target) (goal : Goal) :
    t.locate (pathTo q) goal = .ok q ∨ t.locate (pathTo q) goal = .error .accessDenied ∨
      t.locate (pathTo q) goal = .error .nameTooLong := by
  unfold locate
  by_cases h : maxPathBytes < byteCount (pathTo q).text
  · exact .inr (.inr (if_pos h))
  · rw [if_neg h]
    exact walk_resolved wf hq hlink

/-- If it can be said whether there is a file to read at the place of one, the path from the root
leads there. -/
theorem locate_pathTo_entry (wf : t.WellFormed) {k : Node} (hq : t.node? q = some k)
    (hlink : ∀ target, k ≠ .link target)
    (hread : (∃ b, t.read (pathTo q) = .ok b) ∨ t.read (pathTo q) = .error .noEntry) :
    t.locate (pathTo q) .entry = .ok q := by
  have hsame : ∀ e, t.locate (pathTo q) .entry = .error e → t.locate (pathTo q) ≠ .ok q := by
    intro e he hc
    rcases locate_entry hc with h | ⟨r, target, h, -⟩ <;> rw [he] at h <;> cases h
  have hrefused : ∀ e, t.locate (pathTo q) = .error e → t.read (pathTo q) = .error e := by
    intro e he
    simp [read, find, he]
  rcases locate_pathTo wf hq hlink .content with hc | hc | hc
  · rcases locate_pathTo wf hq hlink .entry with h | h | h
    · exact h
    · exact absurd hc (hsame _ h)
    · exact absurd hc (hsame _ h)
  · simp [hrefused _ hc] at hread
  · simp [hrefused _ hc] at hread

theorem resolve_of_find {k : Node} (h : t.find f = .ok (q, k)) : t.resolve f = .ok (pathTo q) := by
  unfold resolve
  rw [h]

/-- A file that replaces one, or is put where there is nothing or a link, leaves a file system. -/
theorem IsUpdate.wellFormed (h : IsUpdate t u (d ++ [n]) (some (.file b m st)))
    (wf : t.WellFormed) (hd : ∃ k, t.node? d = some (.dir k)) (hstep : IsStep n)
    (hnul : Char.ofNat 0 ∉ n) (hdir : ∀ k, t.node? (d ++ [n]) ≠ some (.dir k)) :
    u.WellFormed := by
  have hkeep : ∀ p, (∃ k, t.node? p = some (.dir k)) → ∃ k, u.node? p = some (.dir k) := by
    rintro p ⟨k, hk⟩
    refine ⟨k, ?_⟩
    rw [h.node?_of_ne fun hp => ?_, hk]
    subst hp
    exact hdir k hk
  refine ⟨fun {p w v} hv => ?_, fun {p w v} hv => ?_, fun {p w v} hv => ?_⟩ <;>
    by_cases hp : p ++ [w] = d ++ [n]
  · obtain ⟨rfl, -⟩ := List.append_inj' hp rfl
    exact hkeep p hd
  · rw [h.node?_of_ne hp] at hv
    exact hkeep p (wf.inDirectory hv)
  · obtain ⟨-, hw⟩ := List.append_inj' hp rfl
    cases hw
    exact hstep
  · rw [h.node?_of_ne hp] at hv
    exact wf.isStep hv
  · obtain ⟨-, hw⟩ := List.append_inj' hp rfl
    cases hw
    exact hnul
  · rw [h.node?_of_ne hp] at hv
    exact wf.noNul hv

/-! ### The path by which a file is written -/

/-- A path by which a file is written: that of the file itself, or the one from the root to where
the link at that path leads. -/
def IsEffective (t : FileTree) (f : Path) (q : Place) (T : Path) : Prop :=
  T = f ∧ t.locate f .entry = .ok q ∨
    T = pathTo q ∧ ∃ r target, t.locate f .entry = .ok r ∧ t.node? r = some (.link target)

theorem IsEffective.of_back (h : IsEffective u f q T) {x y : Place} {k l : Node}
    (hv : IsUpdate t v x (some k)) (hu : IsUpdate v u y (some l)) (hk : IsBare (some k))
    (hl : IsBare (some l)) : IsEffective t f q T := by
  have hback : ∀ {r}, u.locate f .entry = .ok r → t.locate f .entry = .ok r := fun hr =>
    hv.locate_back hk (hu.locate_back hl hr)
  rcases h with ⟨rfl, hq⟩ | ⟨rfl, r, target, hr, hnode⟩
  · exact .inl ⟨rfl, hback hq⟩
  · refine .inr ⟨rfl, r, target, hback hr, ?_⟩
    have hry : r ≠ y := by
      rintro rfl
      rw [hu.node?_self] at hnode
      rw [hnode] at hl
      exact not_isBare_link _ hl
    rw [hu.node?_of_ne hry] at hnode
    have hrx : r ≠ x := by
      rintro rfl
      rw [hv.node?_self] at hnode
      rw [hnode] at hk
      exact not_isBare_link _ hk
    rwa [hv.node?_of_ne hrx] at hnode

/-- There is only one path by which a file is written. -/
theorem IsEffective.unique {T' : Path} (hq : t.node? q = some (.file b m st))
    (h : IsEffective t f q T) (h' : IsEffective t f q T') : T = T' := by
  rcases h with ⟨rfl, hl⟩ | ⟨rfl, r, target, hr, hnode⟩ <;>
    rcases h' with ⟨rfl, hl'⟩ | ⟨rfl, r', target', hr', hnode'⟩
  · rfl
  · rw [hl] at hr'
    cases hr'
    rw [hq] at hnode'
    cases hnode'
  · rw [hl'] at hr
    cases hr
    rw [hq] at hnode
    cases hnode
  · rfl

end FileTree

namespace RcFile

variable {f : RcFile}

/-- A file that a path leads to is written by the path of the file, or by the one from the root if
the path is a link. -/
theorem effectivePath_of_file (hf : t.find f.path = .ok (q, .file b m st))
    (hnul : f.path.hasNul = false) :
    ∃ T, IsEffective t f.path q T ∧ f.effectivePath t = .ok T t := by
  obtain ⟨hl, hq⟩ := find_eq_ok_iff.1 hf
  rcases locate_entry hl with he | ⟨r, target, hr, hnode⟩
  · have hlink : t.isLink? f.path = .ok false := by
      simp [isLink?, find_eq_ok_iff.2 ⟨he, hq⟩]
    have hask : ask f.path (·.isLink? f.path) t = .ok false t :=
      ask_eq_ok.2 ⟨rfl, .inr ⟨hnul, hlink⟩⟩
    refine ⟨f.path, .inl ⟨rfl, he⟩, ?_⟩
    unfold effectivePath
    rw [bind_of_ok hask]
    rfl
  · have hlink : t.isLink? f.path = .ok true := by
      simp [isLink?, find_eq_ok_iff.2 ⟨hr, hnode⟩]
    have hask : ask f.path (·.isLink? f.path) t = .ok true t :=
      ask_eq_ok.2 ⟨rfl, .inr ⟨hnul, hlink⟩⟩
    refine ⟨pathTo q, .inr ⟨rfl, r, target, hr, hnode⟩, ?_⟩
    unfold effectivePath
    rw [bind_of_ok hask]
    exact resolve_eq_ok.2 ⟨hnul, resolve_of_find hf, rfl⟩

theorem keeps_effectivePath {τ : Type} {g : FileTree → τ} (f : RcFile) :
    Keeps g f.effectivePath := by
  refine (keeps_ask _ _).bind fun b => ?_
  split
  · exact keeps_resolve _
  · exact keeps_pure _

theorem keeps_slot {τ : Type} {g : FileTree → τ} (f : RcFile) : Keeps g f.slot :=
  (keeps_effectivePath f).bind fun _ => keeps_ofExcept _

theorem effectivePath_of_hasNul (hnul : f.path.hasNul = true) (t : FileTree) :
    f.effectivePath t = .ok f.path t := by
  have hask : ask f.path (·.isLink? f.path) t = .ok false t := ask_eq_ok.2 ⟨rfl, .inl ⟨hnul, rfl⟩⟩
  unfold effectivePath
  rw [bind_of_ok hask]
  rfl

end RcFile

/-! ### Writing -/

/-- What becomes of a tree when the file with a name in a directory is backed up and replaced by
bytes: the backup holds the old bytes for its owner alone, and the file keeps its mode. -/
structure IsSave (t u : FileTree) (P : Path) (n : Text) (d : Place) (b bytes : ByteArray)
    (m : Mode) : Prop where
  isStep : IsStep n
  noNul : (P.child n).hasNul = false
  locate_backup : t.locate (P.child (n ++ BackupSlot.ending)) .entry =
    .ok (d ++ [n ++ BackupSlot.ending])
  locate_target : u.locate (P.child n) .entry = .ok (d ++ [n])
  writable : t.parentWritable (d ++ [n ++ BackupSlot.ending]) = true
  notDir : ∀ k, t.node? (d ++ [n ++ BackupSlot.ending]) ≠ some (.dir k)
  temporary : ∃ T v, createTemporary (P.child (n ++ BackupSlot.ending)) t = .ok T v
  updates : ∃ v s₁ s₂, IsUpdate t v (d ++ [n ++ BackupSlot.ending]) (some (.file b .secret s₁)) ∧
    IsUpdate v u (d ++ [n]) (some (.file bytes m s₂))

theorem isStep_append_ending (n : Text) : IsStep (n ++ BackupSlot.ending) := by
  constructor <;> intro h <;> have := congrArg List.length h <;>
    simp [BackupSlot.ending, Path.here, Path.up] at this

theorem Path.hasNul_append_ending (h : (P.child n).hasNul = false) :
    (P.child (n ++ BackupSlot.ending)).hasNul = false := by
  obtain ⟨hP, hn⟩ := Path.hasNul_child.1 h
  have hend : Char.ofNat 0 ∉ BackupSlot.ending := by decide
  exact Path.hasNul_child.2 ⟨hP, by simp [hn, hend]⟩

theorem append_ending_ne (n : Text) : n ++ BackupSlot.ending ≠ n := by
  intro h
  have := congrArg List.length h
  simp [BackupSlot.ending] at this

theorem place_backup_ne (d : Place) (n : Text) : d ++ [n] ≠ d ++ [n ++ BackupSlot.ending] := by
  intro h
  exact append_ending_ne n (by simpa using (List.append_cancel_left h).symm)

namespace BackupSlot

theorem of_child (P : Path) (n : Text) :
    of (P.child n) = .ok ⟨P.child n, P.child (n ++ ending)⟩ := by
  simp [of, backupPath?]

theorem of_eq_ok {s : BackupSlot} (h : of T = .ok s) :
    ∃ n, T = T.parent.child n ∧ s = ⟨T, T.parent.child (n ++ ending)⟩ := by
  unfold of backupPath? at h
  cases hn : T.name? with
  | none => simp [hn] at h
  | some n =>
    simp only [hn, Option.map_some, Except.ok.injEq] at h
    exact ⟨n, Path.eq_child hn, h.symm⟩

end BackupSlot

namespace FileOperation

theorem modeOf_of_file (hT : t.locate T = .ok q) (hnul : T.hasNul = false)
    (hq : t.node? q = some (.file b m st)) : modeOf T t = .ok m t := by
  have hquery : query T (·.find T) t = .ok (q, .file b m st) t :=
    query_eq_ok.2 ⟨hnul, find_eq_ok_iff.2 ⟨hT, hq⟩, rfl⟩
  unfold modeOf
  rw [bind_of_ok hquery]
  rfl

theorem keeps_modeOf {τ : Type} {g : FileTree → τ} (T : Path) : Keeps g (modeOf T) := by
  refine (keeps_query T _).bind fun r => ?_
  obtain ⟨q, k⟩ := r
  cases k <;> exact keeps_pure _

end FileOperation

namespace BackupSlot

theorem keeps_info {τ : Type} {g : FileTree → τ} (s : BackupSlot) : Keeps g s.info := by
  refine (keeps_orAbsent (keeps_query _ _)).bind fun r => ?_
  split <;> exact keeps_pure _

theorem snapshot_of_read {B : Path} (hnul : T.hasNul = false) (hread : t.read T = .ok b) :
    (⟨T, B⟩ : BackupSlot).snapshot t =
      (do FileOperation.replace B b (some .secret); pure (some B)) t := by
  have hquery : query T (·.read T) t = .ok b t := query_eq_ok.2 ⟨hnul, hread, rfl⟩
  unfold snapshot
  rw [bind_of_ok (orAbsent_eq_ok.2 (.inl ⟨b, rfl, hquery⟩))]

end BackupSlot

namespace RcFile

variable {c : Text} {r : Option Path}

/-- A file that can be read is written in two steps: its bytes are put into the place of its backup,
and then the new bytes into its own, with the mode that it has then. -/
theorem backUpAndReplace_child (hnul : (P.child n).hasNul = false)
    (hread : t.read (P.child n) = .ok b) (c : Text) :
    backUpAndReplace (P.child n) (.ok c) t =
      (do
        FileOperation.replace (P.child (n ++ BackupSlot.ending)) b (some .secret)
        let mode ← (modeOf (P.child n)).orAbsent
        FileOperation.replace (P.child n) (Text.toBytes c) (some (mode.getD .secret))
        pure (some (P.child (n ++ BackupSlot.ending)))) t := by
  have hsnap := BackupSlot.snapshot_of_read (B := P.child (n ++ BackupSlot.ending)) hnul hread
  unfold backUpAndReplace
  rw [BackupSlot.of_child, bind_of_ok (ofExcept_ok _ _)]
  cases hbackup : FileOperation.replace (P.child (n ++ BackupSlot.ending)) b (some .secret) t with
  | ok _ v =>
    rw [bind_of_ok hbackup, pure_apply] at hsnap
    rw [bind_of_ok hsnap, bind_of_ok hbackup]
    rfl
  | error e v =>
    rw [bind_of_error hbackup] at hsnap
    rw [bind_of_error hsnap, bind_of_error hbackup]

theorem exists_child_of_backUpAndReplace {c : Except EncodingFault Text}
    (h : backUpAndReplace T c t = .ok r u) : ∃ (P : Path) (n : Text), T = P.child n := by
  obtain ⟨slot, v, hslot, -⟩ := bind_eq_ok.1 h
  cases hof : BackupSlot.of T with
  | error e =>
    rw [hof, ofExcept_error] at hslot
    cases hslot
  | ok s =>
    obtain ⟨n, hchild, -⟩ := BackupSlot.of_eq_ok hof
    exact ⟨_, n, hchild⟩

/-- What writing a file by a path that leads to it comes to. -/
theorem backUpAndReplace_eq_ok (wf : t.WellFormed) (hT : t.locate T .entry = .ok q)
    (hnul : T.hasNul = false) (hq : t.node? q = some (.file b m st)) (hm : m.readable = true)
    (h : backUpAndReplace T (.ok c) t = .ok r u) :
    ∃ P n d, T = P.child n ∧ q = d ++ [n] ∧ r = some (P.child (n ++ BackupSlot.ending)) ∧
      IsSave t u P n d b (Text.toBytes c) m := by
  obtain ⟨P, n, rfl⟩ := exists_child_of_backUpAndReplace h
  have hdir : t.isDirectoryAt q = false := by simp [isDirectoryAt, hq]
  have hstep := (locate_eq_ok_iff.1 hT).2.isStep_last wf hdir
  obtain ⟨-, -, d, hP, -, rfl⟩ := (locate_child_iff hstep).1 hT
  have hread := read_of_file (locate_of_entry hT (by simp [hq]) .content) hq hm
  rw [backUpAndReplace_child hnul hread] at h
  obtain ⟨_, v, hbackup, hrest⟩ := bind_eq_ok.1 h
  obtain ⟨htemp, q', s₁, hB, -, hwB, hdB, hv⟩ := replace_eq_ok hbackup
  obtain ⟨-, -, d', hP', -, rfl⟩ := (locate_child_iff (isStep_append_ending n)).1 hB
  rw [hP, Except.ok.injEq] at hP'
  subst hP'
  have hqv : v.node? (d ++ [n]) = some (.file b m st) := by
    rw [hv.node?_of_ne (place_backup_ne d n), hq]
  obtain ⟨mode, w, hmode, hrest'⟩ := bind_eq_ok.1 hrest
  obtain rfl : w = v := (keeps_orAbsent (keeps_modeOf (g := id) _)).of_ok hmode
  obtain ⟨_, x, hreplace, hpure⟩ := bind_eq_ok.1 hrest'
  rw [pure_apply, EStateM.Result.ok.injEq] at hpure
  obtain ⟨rfl, rfl⟩ := hpure
  -- the file is still where its path leads, so it keeps its mode
  obtain ⟨-, q', s₂, hT', -, -, -, hu⟩ := replace_eq_ok hreplace
  have hback := hv.locate_back (isBare_file _ _ _) hT'
  rw [hT, Except.ok.injEq] at hback
  subst hback
  have hmode' := modeOf_of_file (locate_of_entry hT' (by simp [hqv]) .content) hnul hqv
  rw [orAbsent_eq_ok.2 (.inl ⟨m, rfl, hmode'⟩), EStateM.Result.ok.injEq] at hmode
  obtain ⟨rfl, -⟩ := hmode
  refine ⟨P, n, d, rfl, rfl, rfl, hstep, hnul, hB, ?_, hwB, hdB, htemp, w, s₁, s₂, hv, hu⟩
  exact hu.locate (by simp [hqv]) (isBare_file _ _ _) hT' (.inr rfl)

/-- Nothing is written by a path for which it cannot be said whether there is something to back up.
-/
theorem backUpAndReplace_reads {c : Except EncodingFault Text}
    (h : backUpAndReplace T c t = .ok r u) :
    T.hasNul = false ∧ ((∃ b, t.read T = .ok b) ∨ t.read T = .error .noEntry) := by
  obtain ⟨slot, v, hslot, hrest⟩ := bind_eq_ok.1 h
  cases hof : BackupSlot.of T with
  | error e => simp [hof] at hslot
  | ok s =>
    rw [hof, ofExcept_ok, EStateM.Result.ok.injEq] at hslot
    obtain ⟨rfl, rfl⟩ := hslot
    obtain ⟨n, -, rfl⟩ := BackupSlot.of_eq_ok hof
    obtain ⟨backup, v, hsnap, -⟩ := bind_eq_ok.1 hrest
    obtain ⟨read?, w, hread, -⟩ := bind_eq_ok.1 hsnap
    rcases orAbsent_eq_ok.1 hread with ⟨b, -, hb⟩ | ⟨-, e, he, herr⟩
    · obtain ⟨hnul, hb, -⟩ := query_eq_ok.1 hb
      exact ⟨hnul, .inl ⟨b, hb⟩⟩
    · obtain ⟨-, ⟨-, rfl⟩ | ⟨hnul, code, hcode, rfl⟩⟩ := query_eq_error.1 herr
      · cases he
      · obtain rfl : code = .noEntry := by simpa [isAbsence] using he
        exact ⟨hnul, .inr hcode⟩

theorem entry_of_reads {g : Path} (wf : t.WellFormed) (hq : t.node? q = some (.file b m st))
    (heff : IsEffective t g q T)
    (hread : (∃ b, t.read T = .ok b) ∨ t.read T = .error .noEntry) :
    t.locate T .entry = .ok q ∧ m.readable = true := by
  have hentry : t.locate T .entry = .ok q := by
    rcases heff with ⟨rfl, he⟩ | ⟨rfl, -⟩
    · exact he
    · exact locate_pathTo_entry wf hq (by simp) hread
  refine ⟨hentry, ?_⟩
  have hTc := locate_of_entry hentry (by simp [hq]) .content
  by_contra hm
  simp [FileTree.read, find_eq_ok_iff.2 ⟨hTc, hq⟩, hm] at hread

/-- What writing a file by its path comes to. -/
theorem save_of_effective {g : Path} (wf : t.WellFormed) (hq : t.node? q = some (.file b m st))
    (heff : IsEffective t g q T) (h : backUpAndReplace T (.ok c) t = .ok r u) :
    ∃ P n d, T = P.child n ∧ q = d ++ [n] ∧ r = some (P.child (n ++ BackupSlot.ending)) ∧
      m.readable = true ∧ IsSave t u P n d b (Text.toBytes c) m := by
  obtain ⟨hnul, hread⟩ := backUpAndReplace_reads h
  obtain ⟨hentry, hm⟩ := entry_of_reads wf hq heff hread
  obtain ⟨P, n, d, hT, hd, hr, hsave⟩ := backUpAndReplace_eq_ok wf hentry hnul hq hm h
  exact ⟨P, n, d, hT, hd, hr, hm, hsave⟩

theorem keeps_forget (f : RcFile) (T : Path) : Keeps Store.files (f.forget T) := by
  unfold forget
  split
  · have hresolve : Keeps Store.files (StoreOperation.onFiles (FileOperation.resolve T)) :=
      StoreOperation.keeps_onFiles (g := id) (keeps_resolve T)
    exact hresolve.bind fun key => keeps_modify fun s => rfl
  · exact keeps_pure _

theorem forget_of_file {f : RcFile} {s : Store} {k : Node} (hT : s.files.locate T = .ok q)
    (hnul : T.hasNul = false) (hq : s.files.node? q = some k) :
    f.forget T s =
      .ok () (if f.cached then { s with cache := s.cache.forget (pathTo q) } else s) := by
  have hresolve : resolve T s.files = .ok (pathTo q) s.files :=
    resolve_eq_ok.2 ⟨hnul, resolve_of_find (find_eq_ok_iff.2 ⟨hT, hq⟩), rfl⟩
  unfold forget
  split
  · rw [bind_of_ok (StoreOperation.onFiles_of_ok hresolve)]
    rfl
  · rfl

/-- What writing a managed file comes to. -/
theorem write_eq_ok {f : RcFile} {s s₁ : Store} (wf : s.files.WellFormed)
    (hf : s.files.find f.path = .ok (q, .file b m st)) (h : f.write c s = .ok r s₁) :
    ∃ P n d, f.path.hasNul = false ∧ f.effectivePath s.files = .ok (P.child n) s.files ∧
      IsEffective s.files f.path q (P.child n) ∧ q = d ++ [n] ∧
      r = some (P.child (n ++ BackupSlot.ending)) ∧ m.readable = true ∧
      IsSave s.files s₁.files P n d b (Text.toBytes c) m ∧
      ∃ w, w.files = s₁.files ∧ f.forget (P.child n) w = .ok () s₁ := by
  obtain ⟨hl, hq⟩ := find_eq_ok_iff.1 hf
  obtain ⟨T, v, hpath, hrest⟩ := bind_eq_ok.1 h
  obtain ⟨u, hT, rfl⟩ := StoreOperation.onFiles_eq_ok.1 hpath
  obtain ⟨w, hmapped, hforget⟩ := thenAlways_eq_ok.1 hrest
  obtain ⟨x, hwrite, rfl⟩ := StoreOperation.onFiles_eq_ok.1 (mapFailure_eq_ok.1 hmapped)
  have hfiles := (keeps_forget f T).of_ok hforget
  have hnul : f.path.hasNul = false := by
    rw [Bool.eq_false_iff]
    intro hnul
    rw [effectivePath_of_hasNul hnul, EStateM.Result.ok.injEq] at hT
    have hnulT := (backUpAndReplace_reads hwrite).1
    rw [← hT.1, hnul] at hnulT
    cases hnulT
  obtain ⟨T', heff, hT'⟩ := effectivePath_of_file hf hnul
  rw [hT, EStateM.Result.ok.injEq] at hT'
  obtain ⟨rfl, rfl⟩ := hT'
  obtain ⟨P, n, d, rfl, rfl, rfl, hm, hsave⟩ := save_of_effective wf hq heff hwrite
  refine ⟨P, n, d, hnul, hT, heff, rfl, rfl, hm, ?_, _, hfiles.symm, hforget⟩
  rw [hfiles]
  exact hsave

end RcFile

/-! ### What a write leaves -/

namespace IsSave

theorem node?_target (h : IsSave t u P n d b bytes m) :
    ∃ st, u.node? (d ++ [n]) = some (.file bytes m st) := by
  obtain ⟨v, s₁, s₂, -, hu⟩ := h.updates
  exact ⟨s₂, hu.node?_self⟩

theorem node?_backup (h : IsSave t u P n d b bytes m) :
    ∃ st, u.node? (d ++ [n ++ BackupSlot.ending]) = some (.file b .secret st) := by
  obtain ⟨v, s₁, s₂, hv, hu⟩ := h.updates
  exact ⟨s₁, by rw [hu.node?_of_ne (place_backup_ne d n).symm, hv.node?_self]⟩

theorem node?_of_ne (h : IsSave t u P n d b bytes m) (hp : p ≠ d ++ [n])
    (hp' : p ≠ d ++ [n ++ BackupSlot.ending]) : u.node? p = t.node? p := by
  obtain ⟨v, s₁, s₂, hv, hu⟩ := h.updates
  rw [hu.node?_of_ne hp, hv.node?_of_ne hp']

theorem draw (h : IsSave t u P n d b bytes m) : u.draw = t.draw := by
  obtain ⟨v, s₁, s₂, hv, hu⟩ := h.updates
  rw [hu.draw, hv.draw]

theorem dir (h : IsSave t u P n d b bytes m) :
    ∃ k, t.node? d = some (.dir k) ∧ u.node? d = some (.dir k) ∧ k.searchable = true ∧
      k.writable = true := by
  obtain ⟨-, -, d', -, ⟨k, hk, hsearch⟩, hd⟩ :=
    (locate_child_iff (isStep_append_ending n)).1 h.locate_backup
  obtain rfl : d = d' := (List.append_inj' hd rfl).1
  have hu : u.node? d = t.node? d := h.node?_of_ne (by simp) (by simp)
  have hw := h.writable
  simp only [parentWritable, List.dropLast_concat, hk] at hw
  exact ⟨k, hk, hu.trans hk, hsearch, hw⟩

theorem wellFormed (h : IsSave t u P n d b bytes m) (wf : t.WellFormed)
    (hq : t.node? (d ++ [n]) = some (.file b m st)) : u.WellFormed := by
  obtain ⟨v, s₁, s₂, hv, hu⟩ := h.updates
  obtain ⟨k, hk, -⟩ := h.dir
  have hnul := (Path.hasNul_child.1 h.noNul).2
  have hnul' : Char.ofNat 0 ∉ n ++ BackupSlot.ending := by
    have hend : Char.ofNat 0 ∉ BackupSlot.ending := by decide
    simp [hnul, hend]
  have wfv := hv.wellFormed wf ⟨k, hk⟩ (isStep_append_ending n) hnul' h.notDir
  refine hu.wellFormed wfv ⟨k, ?_⟩ h.isStep hnul ?_
  · rw [hv.node?_of_ne (by simp), hk]
  · intro l
    rw [hv.node?_of_ne (place_backup_ne d n), hq]
    simp

theorem locate_backup_after (h : IsSave t u P n d b bytes m) :
    u.locate (P.child (n ++ BackupSlot.ending)) = .ok (d ++ [n ++ BackupSlot.ending]) := by
  obtain ⟨st, hnode⟩ := h.node?_backup
  obtain ⟨hpath, hname, -⟩ := (locate_child_iff (isStep_append_ending n)).1 h.locate_backup
  obtain ⟨-, -, d', hP, hd, hq⟩ := (locate_child_iff h.isStep).1 h.locate_target
  obtain rfl : d = d' := (List.append_inj' hq rfl).1
  have hentry := (locate_child_iff (isStep_append_ending n)).2 ⟨hpath, hname, d, hP, hd, rfl⟩
  exact locate_of_entry hentry (by simp [hnode]) .content

theorem noNul_backup (h : IsSave t u P n d b bytes m) :
    (P.child (n ++ BackupSlot.ending)).hasNul = false :=
  Path.hasNul_append_ending h.noNul

theorem exists_temporaryName (h : IsSave t u P n d b bytes m) (hdraw : byteCount t.draw = 8) :
    ∃ w, byteCount n + 18 ≤ byteCount w ∧ byteCount w ≤ maxNameBytes ∧
      byteCount ((P.fromRoot t.workingPlace).child w).text ≤ maxPathBytes := by
  obtain ⟨T, v, hcreate⟩ := h.temporary
  obtain ⟨w, d', hmem, rfl, -, hlocate, -⟩ := createTemporary_eq_ok hcreate
  have hstep := isStep_of_mem_temporaryNames hmem
  obtain ⟨hpath, hname, -⟩ := (locate_child_iff hstep).1 hlocate
  have hle := le_byteCount_of_mem_temporaryNames hdraw hmem
  have hend : byteCount BackupSlot.ending = 4 := by decide
  rw [Path.name?_child, Option.getD_some, byteCount_append, hend] at hle
  rw [Path.parent_child] at hpath
  exact ⟨w, by omega, hname, hpath⟩

theorem restorable (h : IsSave t u P n d b bytes m) (wf : t.WellFormed)
    (hdraw : byteCount t.draw = 8) (hP : P.child n = pathTo (d ++ [n])) :
    u.locate (pathTo (d ++ [n])) .entry = .ok (d ++ [n]) ∧
      byteCount (pathTo (d ++ [n])).text + 14 ≤ maxPathBytes := by
  refine ⟨hP ▸ h.locate_target, ?_⟩
  obtain ⟨k, hk, -⟩ := h.dir
  obtain ⟨w, hw, -, hpath⟩ := h.exists_temporaryName hdraw
  obtain rfl : P = pathTo d := by
    have hparent := congrArg Path.parent hP
    rwa [pathTo_concat, Path.parent_child, Path.parent_child] at hparent
  rw [wf.fromRoot_pathTo hk, byteCount_text_child] at hpath
  rw [pathTo_concat, byteCount_text_child]
  omega

end IsSave

namespace RcFile

variable {f : RcFile} {P : Path}

theorem slot_of_effectivePath (h : f.effectivePath u = .ok (P.child n) u) :
    f.slot u = .ok ⟨P.child n, P.child (n ++ BackupSlot.ending)⟩ u := by
  unfold slot
  rw [bind_of_ok h, BackupSlot.of_child]
  rfl

/-- After a write the path by which the file is written is the one it was written by. -/
theorem effectivePath_of_save (hsave : IsSave t u P n d b bytes m)
    (hq : t.node? (d ++ [n]) = some (.file b m st))
    (heff : IsEffective t f.path (d ++ [n]) (P.child n)) (hnul : f.path.hasNul = false)
    (hpath : u.locate f.path = .ok (d ++ [n])) : f.effectivePath u = .ok (P.child n) u := by
  obtain ⟨s', hnode⟩ := hsave.node?_target
  obtain ⟨T, heff', hT⟩ := effectivePath_of_file (find_eq_ok_iff.2 ⟨hpath, hnode⟩) hnul
  obtain ⟨v, s₁, s₂, hv, hu⟩ := hsave.updates
  have hback := heff'.of_back hv hu (isBare_file _ _ _) (isBare_file _ _ _)
  rwa [heff.unique hq hback]

end RcFile
end ShellConfig
