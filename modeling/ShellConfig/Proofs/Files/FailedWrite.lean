import ShellConfig.Proofs.Files.Resolve
import ShellConfig.Proofs.Files.Restore

/-!
# Writes and restores that fail

A write replaces the backup of a file and then the file, and both a write and a restore look up the
file once more at the end. Main statements: `replace_of_backup`, that the file is replaced if its
backup was; `write_eq_error` and `restoreBackup_eq_error`, that a failure comes before the first
change or with the one temporary file, and so changes nothing; and `failure_keeps_files`, which says
both. They hold as long as no link that the backup takes the place of is on the way to the file, and
no link is left in the path that a file to be restored stands for.
-/

namespace ShellConfig

open FileTree FileOperation Operation

variable {t u v : FileTree} {T P g : Path} {p q d x : Place} {n : Text} {b bytes : ByteArray}
  {m : Mode} {st st' : Stamp} {e : Failure} {s s' : Store}

namespace FileTree

/-- No link at a place is on the way of a path: the path leads where it does also when a file stands
at the place. -/
def LeadsPast (t : FileTree) (g : Path) (p : Place) : Prop :=
  ∀ target, t.node? p = some (.link target) → ∀ q u b m st, t.locate g = .ok q →
    IsUpdate t u p (some (.file b m st)) → u.locate g = .ok q

theorem LeadsPast.locate (h : LeadsPast t g p) (hdir : ∀ k, t.node? p ≠ some (.dir k))
    (hu : IsUpdate t u p (some (.file b m st))) (hg : t.locate g = .ok q)
    (hq : (t.node? q).isSome) : u.locate g = .ok q := by
  by_cases hp : ∃ target, t.node? p = some (.link target)
  · obtain ⟨target, hp⟩ := hp
    exact h target hp q u b m st hg hu
  · have hbare := isBare_of_ne hdir fun target hlink => hp ⟨target, hlink⟩
    exact hu.locate hbare (isBare_file _ _ _) hg (.inl hq)

/-- No link at the place of the backup of a file is on the way to the file or to the directory of
its temporary files. -/
def PastSlot (t : FileTree) (P : Path) (n : Text) : Prop :=
  ∀ p, t.locate (P.child (n ++ BackupSlot.ending)) .entry = .ok p →
    LeadsPast t (P.child n) p ∧ LeadsPast t (P.fromRoot t.workingPlace) p

theorem IsUpdate.locate_pathTo
    (hu : IsUpdate t u (d ++ [n ++ BackupSlot.ending]) (some (.file b m st)))
    (wf : t.WellFormed) {k : Node} (hq : t.node? (d ++ [n]) = some k)
    (hlink : ∀ target, k ≠ .link target) {goal : Goal}
    (h : t.locate (pathTo (d ++ [n])) goal = .ok (d ++ [n])) :
    u.locate (pathTo (d ++ [n])) goal = .ok (d ++ [n]) := by
  rw [locate_eq_ok_iff] at h ⊢
  refine ⟨h.1, h.2.frame_down wf hq hlink fun p hp => hu.node?_of_ne ?_⟩
  rintro rfl
  have heq := hp.eq_of_length (by simp [pathTo, start])
  exact place_backup_ne d n heq.symm

end FileTree

namespace FileOperation

theorem exists_child_of_replace (wf : t.WellFormed) {mode : Mode}
    (h : replace T bytes (some mode) t = .ok () u) :
    ∃ P d n q, T = Path.child P n ∧ IsStep n ∧ t.Searchable d ∧ t.locate T .entry = .ok q ∧
      q = d ++ [n] := by
  obtain ⟨-, q, st, hT, hnamed, -, hdir, -⟩ := replace_eq_ok h
  obtain ⟨n, hn⟩ : ∃ n, T.name? = some n := by
    cases hn : T.name? with
    | none => simp [Path.isNamed, hn] at hnamed
    | some n => exact ⟨n, rfl⟩
  have hplace : t.isDirectoryAt q = false := by
    unfold isDirectoryAt
    split
    · exact absurd ‹_› (hdir _)
    · rfl
  rw [Path.eq_child hn] at hT ⊢
  have hstep : IsStep n := (locate_eq_ok_iff.1 hT).2.isStep_last wf hplace
  obtain ⟨-, -, d, -, hd, rfl⟩ := (locate_child_iff hstep).1 hT
  exact ⟨_, d, n, _, rfl, hstep, hd, hT, rfl⟩

theorem wellFormed_of_replace (wf : t.WellFormed) (hnul : T.hasNul = false) {mode : Mode}
    (h : replace T bytes (some mode) t = .ok () u) : u.WellFormed := by
  obtain ⟨P, d, n, q, rfl, hstep, ⟨k, hk, -⟩, hT, rfl⟩ := exists_child_of_replace wf h
  obtain ⟨-, q, st, hT', -, -, hdir, hu⟩ := replace_eq_ok h
  rw [hT, Except.ok.injEq] at hT'
  subst hT'
  exact hu.wellFormed wf ⟨k, hk⟩ hstep (Path.hasNul_child.1 hnul).2 hdir

/-- Where a path led to a file or to nothing, it leads to the file that replaces it, also if it
ended with a link. -/
theorem find_of_replace (wf : t.WellFormed)
    (hfind : (∃ q b m st, t.find T = .ok (q, .file b m st)) ∨ t.find T = .error .noEntry)
    {mode : Mode} (h : replace T bytes (some mode) t = .ok () u) :
    ∃ q st, t.locate T .entry = .ok q ∧ IsUpdate t u q (some (.file bytes mode st)) ∧
      u.find T = .ok (q, .file bytes mode st) := by
  obtain ⟨P, d, n, q, rfl, hstep, -, hT, rfl⟩ := exists_child_of_replace wf h
  obtain ⟨-, q, st, hT', -, -, hdir, hu⟩ := replace_eq_ok h
  rw [hT, Except.ok.injEq] at hT'
  subst hT'
  have hentry : u.locate (P.child n) .entry = .ok (d ++ [n]) := by
    by_cases hlink : ∃ target, t.node? (d ++ [n]) = some (.link target)
    · obtain ⟨target, hnode⟩ := hlink
      exact hu.locate_link hstep hT hnode hfind
    · have hbare := isBare_of_ne hdir fun target hnode => hlink ⟨target, hnode⟩
      exact hu.locate hbare (isBare_file _ _ _) hT (.inr rfl)
  exact ⟨_, st, hT, hu, find_eq_ok_iff.2
    ⟨locate_of_entry hentry (by simp [hu.node?_self]) .content, hu.node?_self⟩⟩

theorem orAbsent_modeOf_eq_ok {mode : Option Mode} (h : (modeOf T).orAbsent t = .ok mode u) :
    u = t ∧ ((∃ q k m, t.find T = .ok (q, k) ∧ mode = some m ∧
      ∀ b m' st, k = .file b m' st → m = m') ∨ t.find T = .error .noEntry ∧ mode = none) := by
  refine ⟨(keeps_orAbsent (keeps_modeOf (g := id) _)).of_ok h, ?_⟩
  rcases orAbsent_eq_ok.1 h with ⟨m, rfl, hm⟩ | ⟨rfl, e, he, hm⟩
  · obtain ⟨⟨q, k⟩, v, hquery, hrest⟩ := bind_eq_ok.1 hm
    obtain ⟨-, hfind, -⟩ := query_eq_ok.1 hquery
    refine .inl ⟨q, k, m, hfind, rfl, ?_⟩
    rintro b m' st rfl
    exact (EStateM.Result.ok.inj hrest).1.symm
  · rcases bind_eq_error.1 hm with hquery | ⟨⟨q, k⟩, v, -, hrest⟩
    · obtain ⟨-, ⟨-, rfl⟩ | ⟨-, code, hcode, rfl⟩⟩ := query_eq_error.1 hquery
      · cases he
      · obtain rfl : code = .noEntry := by simpa [isAbsence] using he
        exact .inr ⟨hcode, rfl⟩
    · cases k <;> cases hrest

end FileOperation

namespace RcFile

variable {f : RcFile} {c : Text} {r : Option Path}

/-! ### Taking a backup and replacing -/

theorem backUpAndReplace_of_unread {x : Except EncodingFault Text}
    (h : ¬ (T.hasNul = false ∧ ((∃ b, t.read T = .ok b) ∨ t.read T = .error .noEntry))) :
    ∃ e, backUpAndReplace T x t = .error e t := by
  unfold backUpAndReplace
  cases hof : BackupSlot.of T with
  | error e => exact ⟨e, bind_of_error rfl⟩
  | ok slot =>
    obtain ⟨n, -, rfl⟩ := BackupSlot.of_eq_ok hof
    rw [bind_of_ok (ofExcept_ok _ _)]
    obtain ⟨e, habsent, hquery⟩ : ∃ e, isAbsence e = false ∧ query T (·.read T) t = .error e t := by
      cases hnul : T.hasNul with
      | true => exact ⟨.embeddedNul, rfl, query_eq_error.2 ⟨rfl, .inl ⟨hnul, rfl⟩⟩⟩
      | false =>
        cases hread : t.read T with
        | ok b => exact absurd ⟨hnul, .inl ⟨b, hread⟩⟩ h
        | error code =>
          refine ⟨_, ?_, query_eq_error.2 ⟨rfl, .inr ⟨hnul, code, hread, rfl⟩⟩⟩
          have hcode : code ≠ .noEntry := fun hcode => h ⟨hnul, .inr (hcode ▸ hread)⟩
          simpa [isAbsence] using hcode
    have hsnap : BackupSlot.snapshot ⟨T, T.parent.child (n ++ BackupSlot.ending)⟩ t =
        .error e t := by
      unfold BackupSlot.snapshot
      rw [bind_of_error (orAbsent_eq_error.2 ⟨habsent, hquery⟩)]
    exact ⟨e, bind_of_error hsnap⟩

/-- Where a temporary file was made for the backup of a file, one can be made for the file, whose
name is shorter. -/
theorem createTemporary_after_backup (hdraw : t.DrawsNames) (hnul : (P.child n).hasNul = false)
    {v' : FileTree}
    (hcreate : createTemporary (P.child (n ++ BackupSlot.ending)) t = .ok T v')
    (hv : IsUpdate t v p (some (.file b m st))) (hp : ∀ k, t.node? p ≠ some (.dir k))
    (hdir : LeadsPast t (P.fromRoot t.workingPlace) p) :
    ∃ T u, createTemporary (P.child n) v = .ok T u := by
  obtain ⟨w, d, hmem, rfl, hTnul, hT, -, hTw, -⟩ := createTemporary_eq_ok hcreate
  rw [Path.parent_child] at hTnul hT
  obtain ⟨hpath, hname, d', hD, ⟨k, hk, hsearch⟩, hd⟩ :=
    (locate_child_iff (isStep_of_mem_temporaryNames hmem)).1 hT
  obtain rfl : d = d' := (List.append_inj' hd rfl).1
  have hkw : k.writable = true := by
    simpa only [parentWritable, List.dropLast_concat, hk] using hTw
  have hkv : v.node? d = some (.dir k) := by
    rw [hv.node?_of_ne fun h => hp k (h ▸ hk), hk]
  have hDv := hdir.locate hp hv hD (by simp [hk])
  have hle := le_byteCount_of_mem_temporaryNames hdraw.bytes hmem
  rw [Path.name?_child, Option.getD_some, byteCount_append] at hle
  rw [byteCount_text_child] at hpath
  have hfew := hdraw.few
  have hlen := hv.length_le
  have hparent : (P.child n).parent.fromRoot v.workingPlace = P.fromRoot t.workingPlace := by
    rw [Path.parent_child, hv.workingPlace]
  have hlast : ((P.child n).name?.getD []) = n := by rw [Path.name?_child, Option.getD_some]
  exact createTemporary_succeeds (by rw [hv.draw]; exact hdraw.bytes)
    (by rw [hv.draw]; exact hdraw.noNul) (by omega) hnul (by rw [hparent]; exact hDv)
    ⟨k, hkv, hsearch⟩ ⟨k, hkv, hkw⟩
    (by rw [hparent]; exact (Path.hasNul_child.1 hTnul).1) (by rw [hlast]; omega)
    (by rw [hparent, hlast]; omega)

/-- Once the backup of a file is taken, the file is still found and can be replaced, if the way to
it and to the directory of its temporary files is not changed by the backup. -/
theorem replace_of_backup (wf : t.WellFormed) (hdraw : t.DrawsNames)
    (hnul : (P.child n).hasNul = false) (hfind : t.find (P.child n) = .ok (x, .file b m st))
    (hpast : PastSlot t P n)
    {old : ByteArray} (hbackup : FileOperation.replace (P.child (n ++ BackupSlot.ending)) old
      (some .secret) t = .ok () v) :
    v.WellFormed ∧ (∃ b' m' st', v.find (P.child n) = .ok (x, .file b' m' st')) ∧
      ∀ new mode, ∃ u, FileOperation.replace (P.child n) new (some mode) v = .ok () u := by
  obtain ⟨hl, hx⟩ := find_eq_ok_iff.1 hfind
  obtain ⟨⟨T', v', hcreate⟩, p, s₁, hB, -, hwB, hdB, hv⟩ := replace_eq_ok hbackup
  obtain ⟨hpast, hpast'⟩ := hpast p hB
  obtain ⟨-, -, d, hP, ⟨k, hk, -⟩, rfl⟩ := (locate_child_iff (isStep_append_ending n)).1 hB
  have wfv := wellFormed_of_replace wf (Path.hasNul_append_ending hnul) hbackup
  -- the file is where it was, and it is still one if it is the backup itself
  have hlv := hpast.locate hdB hv hl (by simp [hx])
  obtain ⟨b', m', st', hxv⟩ : ∃ b' m' st', v.node? x = some (.file b' m' st') := by
    by_cases hxp : x = d ++ [n ++ BackupSlot.ending]
    · exact ⟨_, _, _, hxp ▸ hv.node?_self⟩
    · exact ⟨b, m, st, (hv.node?_of_ne hxp).trans hx⟩
  refine ⟨wfv, ⟨b', m', st', find_eq_ok_iff.2 ⟨hlv, hxv⟩⟩, fun new mode => ?_⟩
  -- so the path still ends with an entry of the same directory
  have hstep : IsStep n := (locate_eq_ok_iff.1 hl).2.isStep_last wf (by simp [isDirectoryAt, hx])
  obtain ⟨y, hTv, hnotdir⟩ : ∃ y, v.locate (P.child n) .entry = .ok y ∧
      ∀ k, v.node? y ≠ some (.dir k) := by
    rcases locate_entry hlv with hTv | ⟨y, target, hTv, hy⟩
    · exact ⟨x, hTv, by simp [hxv]⟩
    · exact ⟨y, hTv, by simp [hy]⟩
  obtain ⟨-, -, d', hP', -, rfl⟩ :=
    (locate_child_iff hstep).1 (hv.locate_back (isBare_file _ _ _) hTv)
  rw [hP, Except.ok.injEq] at hP'
  subst hP'
  obtain ⟨T'', v'', hcreate'⟩ := createTemporary_after_backup hdraw hnul hcreate hv hdB hpast'
  have hkw : k.writable = true := by
    simpa only [parentWritable, List.dropLast_concat, hk] using hwB
  have hkv : v.node? d = some (.dir k) := by rw [hv.node?_of_ne (by simp), hk]
  exact replace_succeeds wfv hcreate' hTv (by simpa using hstep.2)
    (by simp [parentWritable, hkv, hkw]) hnotdir new mode

theorem backUpAndReplace_of_absent (hnul : (P.child n).hasNul = false)
    (hread : t.read (P.child n) = .error .noEntry) (c : Text) :
    backUpAndReplace (P.child n) (.ok c) t =
      (do
        FileOperation.replace (P.child n) (Text.toBytes c) (some .secret)
        pure none) t := by
  have hquery : query (P.child n) (·.read (P.child n)) t =
      .error (.system ⟨.noEntry, P.child n, none⟩) t :=
    query_eq_error.2 ⟨rfl, .inr ⟨hnul, .noEntry, hread, rfl⟩⟩
  have hsnap : BackupSlot.snapshot ⟨P.child n, P.child (n ++ BackupSlot.ending)⟩ t =
      .ok none t := by
    unfold BackupSlot.snapshot
    rw [bind_of_ok (orAbsent_eq_ok.2 (.inr ⟨rfl, _, rfl, hquery⟩))]
    rfl
  have hmode : (modeOf (P.child n)).orAbsent t = .ok none t := by
    have hquery' : query (P.child n) (·.find (P.child n)) t =
        .error (.system ⟨.noEntry, P.child n, none⟩) t :=
      query_eq_error.2 ⟨rfl, .inr ⟨hnul, .noEntry, find_of_read_noEntry hread, rfl⟩⟩
    exact orAbsent_eq_ok.2 (.inr ⟨rfl, _, rfl, bind_of_error hquery'⟩)
  unfold backUpAndReplace
  rw [BackupSlot.of_child, bind_of_ok (ofExcept_ok _ _), bind_of_ok hsnap, bind_of_ok hmode]
  rfl

theorem backUpAndReplace_eq_error (wf : t.WellFormed) (hdraw : t.DrawsNames)
    (hpast : ∀ P n, T = Path.child P n → PastSlot t P n)
    (h : backUpAndReplace T (.ok c) t = .error e u) : Alike t u := by
  by_cases hreads : T.hasNul = false ∧ ((∃ b, t.read T = .ok b) ∨ t.read T = .error .noEntry)
  · cases hof : BackupSlot.of T with
    | error e' =>
      unfold backUpAndReplace at h
      rw [hof, bind_of_error (ofExcept_error _ _), EStateM.Result.error.injEq] at h
      rw [← h.2]
      exact .refl t
    | ok slot =>
      obtain ⟨n, hchild, -⟩ := BackupSlot.of_eq_ok hof
      generalize T.parent = P at hchild
      subst hchild
      obtain ⟨hnul, ⟨b, hb⟩ | habsent⟩ := hreads
      · obtain ⟨x, m, st, hfind, -⟩ := read_eq_ok.1 hb
        rw [backUpAndReplace_child hnul hb] at h
        rcases bind_eq_error.1 h with hbackup | ⟨_, v, hbackup, hrest⟩
        · exact replace_eq_error hbackup
        · -- nothing fails any more
          obtain ⟨-, ⟨b', m', st', hv⟩, hreplace⟩ :=
            replace_of_backup wf hdraw hnul hfind (hpast P n rfl) hbackup
          have hmode := modeOf_of_file (find_eq_ok_iff.1 hv).1 hnul (find_eq_ok_iff.1 hv).2
          obtain ⟨w, hw⟩ := hreplace (Text.toBytes c) m'
          rw [bind_of_ok (orAbsent_eq_ok.2 (.inl ⟨m', rfl, hmode⟩)), Option.getD_some,
            bind_of_ok hw] at hrest
          cases hrest
      · rw [backUpAndReplace_of_absent hnul habsent] at h
        rcases bind_eq_error.1 h with hreplace | ⟨_, v, -, hpure⟩
        · exact replace_eq_error hreplace
        · cases hpure
  · obtain ⟨e', he'⟩ := backUpAndReplace_of_unread (x := .ok c) hreads
    rw [he', EStateM.Result.error.injEq] at h
    rw [← h.2]
    exact .refl t

theorem readable_of_backup {k : Node} {old : ByteArray}
    (hv : IsUpdate t v p (some (.file old .secret st)))
    (hfind : t.find T = .ok (x, .file b m st')) (hm : m.readable = true)
    (hk : v.find T = .ok (q, k)) : ∃ b m st, k = .file b m st ∧ m.readable = true := by
  obtain ⟨hl, hx⟩ := find_eq_ok_iff.1 hfind
  obtain ⟨hlv, hq⟩ := find_eq_ok_iff.1 hk
  by_cases hqp : q = p
  · rw [hqp, hv.node?_self, Option.some.injEq] at hq
    exact ⟨_, _, _, hq.symm, by decide⟩
  · have hlt := (hv.locate_back_or (isBare_file _ _ _) hlv).resolve_left hqp
    rw [hl, Except.ok.injEq] at hlt
    subst hlt
    rw [hv.node?_of_ne hqp, hx, Option.some.injEq] at hq
    exact ⟨_, _, _, hq.symm, hm⟩

/-- What was written is found by the path it was written by, at the place of the entry there, and it
may be read. Nothing else is changed if there was nothing at that place. -/
theorem find_of_backUpAndReplace (wf : t.WellFormed) (h : backUpAndReplace T (.ok c) t = .ok r u) :
    T.hasNul = false ∧ ∃ q m st v, t.locate T .entry = .ok q ∧
      u.find T = .ok (q, .file (Text.toBytes c) m st) ∧ m.readable = true ∧
      IsUpdate v u q (some (.file (Text.toBytes c) m st)) ∧ (t.node? q = none → v = t) := by
  obtain ⟨P, n, rfl⟩ := exists_child_of_backUpAndReplace h
  obtain ⟨hnul, ⟨b, hb⟩ | habsent⟩ := backUpAndReplace_reads h
  · refine ⟨hnul, ?_⟩
    obtain ⟨x, m, st, hfind, hm⟩ := read_eq_ok.1 hb
    rw [backUpAndReplace_child hnul hb] at h
    obtain ⟨_, v, hbackup, hrest⟩ := bind_eq_ok.1 h
    obtain ⟨mode, w, hmode, hrest'⟩ := bind_eq_ok.1 hrest
    obtain ⟨rfl, hmode⟩ := orAbsent_modeOf_eq_ok hmode
    obtain ⟨_, y, hreplace, hpure⟩ := bind_eq_ok.1 hrest'
    cases hpure
    have wfw := wellFormed_of_replace wf (Path.hasNul_append_ending hnul) hbackup
    obtain ⟨-, p, s₁, -, -, -, -, hv⟩ := replace_eq_ok hbackup
    -- with the backup in place the path leads to the file, to the backup or to nothing
    obtain ⟨hfound, hreadable⟩ :
        ((∃ q b m st, w.find (P.child n) = .ok (q, .file b m st)) ∨
          w.find (P.child n) = .error .noEntry) ∧ (mode.getD .secret).readable = true := by
      rcases hmode with ⟨q, k, m', hq, rfl, hk⟩ | ⟨hq, rfl⟩
      · obtain ⟨b', m'', s', rfl, hm''⟩ := readable_of_backup hv hfind hm hq
        exact ⟨.inl ⟨_, _, _, _, hq⟩, by rwa [Option.getD_some, hk _ _ _ rfl]⟩
      · exact ⟨.inr hq, by decide⟩
    obtain ⟨q, st', hq, hu, hfind'⟩ := find_of_replace wfw hfound hreplace
    have hqt := hv.locate_back (isBare_file _ _ _) hq
    refine ⟨q, _, st', w, hqt, hfind', hreadable, hu, fun hnone => ?_⟩
    -- there was a file to back up
    have hl := locate_of_entry hqt (by simp [hnone]) .content
    rw [(find_eq_ok_iff.1 hfind).1, Except.ok.injEq] at hl
    rw [← hl, (find_eq_ok_iff.1 hfind).2] at hnone
    cases hnone
  · rw [backUpAndReplace_of_absent hnul habsent] at h
    obtain ⟨_, y, hreplace, hpure⟩ := bind_eq_ok.1 h
    cases hpure
    obtain ⟨q, st, hq, hu, hfind⟩ :=
      find_of_replace wf (.inr (find_of_read_noEntry habsent)) hreplace
    exact ⟨hnul, q, _, st, t, hq, hfind, by decide, hu, fun _ => rfl⟩

/-! ### Writing -/

/-- No link in the slot of a file is on the way to the file by the path by which it is written, or
on the way to the directory of its temporary files. -/
def SlotAside (f : RcFile) (t : FileTree) : Prop :=
  ∀ (P : Path) (n : Text), f.effectivePath t = .ok (P.child n) t → PastSlot t P n

theorem slotAside_of_no_link (h : ∀ p target, t.node? p ≠ some (.link target)) : f.SlotAside t :=
  fun _ _ _ p _ =>
    ⟨fun target hp => absurd hp (h p target), fun target hp => absurd hp (h p target)⟩

/-- **A write that fails** changes nothing. -/
theorem write_eq_error (wf : s.files.WellFormed) (hdraw : s.files.DrawsNames)
    (haside : f.SlotAside s.files) (h : f.write c s = .error e s') (p : Place) :
    s'.files.node? p = s.files.node? p := by
  unfold write writeChecked at h
  rcases bind_eq_error.1 h with hpath | ⟨T, v, hpath, hrest⟩
  · have hkeeps := StoreOperation.keeps_onFiles (g := (·.node? p)) (keeps_effectivePath f)
    exact hkeeps.of_error hpath
  obtain ⟨u, hT, rfl⟩ := StoreOperation.onFiles_eq_ok.1 hpath
  obtain rfl : u = s.files := (keeps_effectivePath (g := id) f).of_ok hT
  have hpast : ∀ P n, T = Path.child P n → PastSlot s.files P n :=
    fun P n hP => haside P n (hP ▸ hT)
  rcases thenAlways_eq_error.1 hrest with
    ⟨w, hmapped, hforget⟩ | ⟨r, w, hmapped, hforget⟩ | ⟨e', w, hmapped, hforget⟩
  · obtain ⟨e'', -, hx⟩ := mapFailure_eq_error.1 hmapped
    obtain ⟨u, hu, rfl⟩ := StoreOperation.onFiles_eq_error.1 hx
    rw [(keeps_forget f T).of_ok hforget]
    exact (backUpAndReplace_eq_error wf hdraw hpast hu).node? p
  · -- after a success there is a file to forget
    obtain ⟨u, hu, rfl⟩ := StoreOperation.onFiles_eq_ok.1 (mapFailure_eq_ok.1 hmapped)
    obtain ⟨hnul, q, m, st, -, -, hfind, -⟩ := find_of_backUpAndReplace wf hu
    obtain ⟨hl, hq⟩ := find_eq_ok_iff.1 hfind
    rw [forget_of_file (f := f) (s := ⟨u, s.cache⟩) hl hnul hq] at hforget
    cases hforget
  · obtain ⟨e'', -, hx⟩ := mapFailure_eq_error.1 hmapped
    obtain ⟨u, hu, rfl⟩ := StoreOperation.onFiles_eq_error.1 hx
    rw [(keeps_forget f T).of_error hforget]
    exact (backUpAndReplace_eq_error wf hdraw hpast hu).node? p

/-! ### Restoring -/

end RcFile

namespace BackupSlot

variable {slot : BackupSlot}

theorem restore_eq_ok (h : slot.restore t = .ok () u) :
    slot.target.hasNul = false ∧ ∃ R r b m st, t.resolve slot.target = .ok R ∧ R.hasNul = false ∧
      t.locate R .entry = .ok r ∧ (∀ k, t.node? r ≠ some (.dir k)) ∧
      IsUpdate t u r (some (.file b m st)) := by
  obtain ⟨read?, v, hread, hrest⟩ := bind_eq_ok.1 h
  obtain rfl : v = t := (keeps_orAbsent (keeps_query (g := id) _ _)).of_ok hread
  cases read? with
  | none => cases hrest
  | some b =>
    obtain ⟨R, w, hresolve, hrest'⟩ := bind_eq_ok.1 hrest
    obtain ⟨hnul, hR, rfl⟩ := resolve_eq_ok.1 hresolve
    obtain ⟨mode, x, hmode, hreplace⟩ := bind_eq_ok.1 hrest'
    obtain rfl : x = w := (keeps_orAbsent (keeps_modeOf (g := id) _)).of_ok hmode
    obtain ⟨-, r, st, hr, -, -, hdir, hu⟩ := replace_eq_ok hreplace
    refine ⟨hnul, R, r, b, _, st, hR, ?_, hr, hdir, hu⟩
    -- the mode could not be asked for otherwise
    rw [Bool.eq_false_iff]
    intro hnulR
    have hquery : modeOf R x = .error .embeddedNul x :=
      bind_of_error (query_eq_error.2 ⟨rfl, .inl ⟨hnulR, rfl⟩⟩)
    rw [orAbsent_eq_error.2 ⟨rfl, hquery⟩] at hmode
    cases hmode

theorem restore_eq_error (h : slot.restore t = .error e u) : Alike t u := by
  rcases bind_eq_error.1 h with hread | ⟨read?, v, hread, hrest⟩
  · rw [show u = t from (keeps_orAbsent (keeps_query (g := id) _ _)).of_error hread]
    exact .refl t
  obtain rfl : v = t := (keeps_orAbsent (keeps_query (g := id) _ _)).of_ok hread
  cases read? with
  | none =>
    cases hrest
    exact .refl u
  | some b =>
    rcases bind_eq_error.1 hrest with hresolve | ⟨R, w, hresolve, hrest'⟩
    · rw [resolve_eq_error hresolve]
      exact .refl v
    obtain ⟨-, -, rfl⟩ := resolve_eq_ok.1 hresolve
    rcases bind_eq_error.1 hrest' with hmode | ⟨mode, x, hmode, hreplace⟩
    · rw [show u = w from (keeps_orAbsent (keeps_modeOf (g := id) _)).of_error hmode]
      exact .refl w
    obtain rfl : x = w := (keeps_orAbsent (keeps_modeOf (g := id) _)).of_ok hmode
    exact replace_eq_error hreplace

end BackupSlot

namespace RcFile

variable {f : RcFile} {c : Text}

theorem effectivePath_eq_ok :
    f.effectivePath t = .ok T u ↔ u = t ∧ (f.path.hasNul = true ∧ T = f.path ∨
      f.path.hasNul = false ∧ (t.isLink? f.path = .ok false ∧ T = f.path ∨
        t.isLink? f.path = .ok true ∧ t.resolve f.path = .ok T)) := by
  unfold effectivePath
  simp only [bind_eq_ok, ask_eq_ok]
  constructor
  · rintro ⟨x, v, ⟨rfl, ⟨hnul, rfl⟩ | ⟨hnul, hx⟩⟩, h⟩
    · cases h
      exact ⟨rfl, .inl ⟨hnul, rfl⟩⟩
    · cases x with
      | false =>
        cases h
        exact ⟨rfl, .inr ⟨hnul, .inl ⟨hx, rfl⟩⟩⟩
      | true =>
        obtain ⟨-, hT, rfl⟩ := resolve_eq_ok.1 h
        exact ⟨rfl, .inr ⟨hnul, .inr ⟨hx, hT⟩⟩⟩
  · rintro ⟨rfl, ⟨hnul, rfl⟩ | ⟨hnul, ⟨hx, rfl⟩ | ⟨hx, hT⟩⟩⟩
    · exact ⟨false, u, ⟨rfl, .inl ⟨hnul, rfl⟩⟩, rfl⟩
    · exact ⟨false, u, ⟨rfl, .inr ⟨hnul, hx⟩⟩, rfl⟩
    · exact ⟨true, u, ⟨rfl, .inr ⟨hnul, hx⟩⟩, resolve_eq_ok.2 ⟨hnul, hT, rfl⟩⟩

/-- No link is left in the path that a file to be restored stands for: it is the path from the root
to where it leads, and that is no link. -/
def RestoresPlainly (f : RcFile) (t : FileTree) : Prop :=
  ∀ T R r, f.effectivePath t = .ok T t → t.resolve T = .ok R → t.locate R .entry = .ok r →
    R = pathTo r ∧ ∀ target, t.node? r ≠ some (.link target)

theorem resolve_of_restore (hplain : f.RestoresPlainly t)
    (h : (do (← f.slot).restore : FileOperation Unit) t = .ok () u) :
    ∃ T, f.effectivePath u = .ok T u ∧ ∃ R, FileOperation.resolve T u = .ok R u := by
  obtain ⟨slot, v, hslot, hrestore⟩ := bind_eq_ok.1 h
  obtain ⟨T, w, hT, hof⟩ := bind_eq_ok.1 hslot
  obtain ⟨rfl, heff⟩ := effectivePath_eq_ok.1 hT
  obtain ⟨rfl, rfl⟩ : v = w ∧ slot.target = T := by
    cases hs : BackupSlot.of T with
    | error e =>
      rw [hs] at hof
      cases hof
    | ok slot' =>
      rw [hs] at hof
      obtain ⟨n, -, rfl⟩ := BackupSlot.of_eq_ok hs
      cases hof
      exact ⟨rfl, rfl⟩
  obtain ⟨hnul, R, r, b, m, st, hR, hnulR, hr, hdir, hu⟩ := BackupSlot.restore_eq_ok hrestore
  obtain ⟨rfl, hlink⟩ := hplain _ R r hT hR hr
  have hbare := isBare_of_ne hdir hlink
  have hresolve : ∀ {g : Path}, g.hasNul = false → (∃ R, v.resolve g = .ok R) →
      ∃ R, FileOperation.resolve g u = .ok R u := by
    rintro g hg ⟨R, hR⟩
    rcases hu.resolve hbare hR with hR' | hR'
    · exact ⟨R, resolve_eq_ok.2 ⟨hg, hR', rfl⟩⟩
    · exact ⟨pathTo r, resolve_eq_ok.2 ⟨hg, hR', rfl⟩⟩
  rcases heff with ⟨hpath, htarget⟩ | ⟨hpath, ⟨hno, htarget⟩ | ⟨hyes, htarget⟩⟩
  · rw [htarget, hpath] at hnul
    cases hnul
  · refine ⟨f.path, effectivePath_eq_ok.2 ⟨rfl, .inr ⟨hpath, .inl ⟨hu.isLink? hbare hno, rfl⟩⟩⟩, ?_⟩
    exact hresolve hpath ⟨_, htarget ▸ hR⟩
  · rcases hu.resolve hbare htarget with hT' | hT'
    · exact ⟨slot.target,
        effectivePath_eq_ok.2 ⟨rfl, .inr ⟨hpath, .inr ⟨hu.isLink? hbare hyes, hT'⟩⟩⟩,
        hresolve hnul ⟨_, hR⟩⟩
    · -- the path leads to the file now
      have hfind : u.find (pathTo r) = .ok (r, .file b m st) := by
        have hentry := hu.locate hbare (isBare_file b m st) hr (.inr rfl)
        exact find_eq_ok_iff.2
          ⟨locate_of_entry hentry (by simp [hu.node?_self]) .content, hu.node?_self⟩
      exact ⟨pathTo r,
        effectivePath_eq_ok.2 ⟨rfl, .inr ⟨hpath, .inr ⟨hu.isLink? hbare hyes, hT'⟩⟩⟩,
        pathTo r, resolve_eq_ok.2 ⟨hnulR, resolve_of_find hfind, rfl⟩⟩

theorem forget_of_resolve {R : Path} (h : FileOperation.resolve T s.files = .ok R s.files) :
    ∃ s', f.forget T s = .ok () s' := by
  unfold forget
  split
  · rw [bind_of_ok (StoreOperation.onFiles_of_ok h)]
    exact ⟨_, rfl⟩
  · exact ⟨s, rfl⟩

theorem restoreBackup_eq_error (hplain : f.RestoresPlainly s.files)
    (h : f.restoreBackup s = .error e s') (p : Place) :
    s'.files.node? p = s.files.node? p := by
  have herror : ∀ {e : Failure} {u}, (do (← f.slot).restore : FileOperation Unit) s.files =
      .error e u → u.node? p = s.files.node? p := by
    intro e u hu
    rcases bind_eq_error.1 hu with hslot | ⟨slot, v, hslot, hrestore⟩
    · exact (keeps_slot (g := (·.node? p)) f).of_error hslot
    · obtain rfl : v = s.files := (keeps_slot (g := id) f).of_ok hslot
      exact (BackupSlot.restore_eq_error hrestore).node? p
  have hkeeps : Keeps (fun s : Store => s.files.node? p) (do
      if f.cached then
        let p ← StoreOperation.onFiles f.effectivePath
        f.forget p : StoreOperation Unit) := by
    split
    · exact (StoreOperation.keeps_onFiles (keeps_effectivePath (g := (·.node? p)) f)).bind
        fun T => (keeps_forget f T).comp (·.node? p)
    · exact keeps_pure ()
  rcases thenAlways_eq_error.1 h with
    ⟨v, hrestore, hafter⟩ | ⟨_, v, hrestore, hafter⟩ | ⟨e', v, hrestore, hafter⟩
  · obtain ⟨u, hu, rfl⟩ := StoreOperation.onFiles_eq_error.1 hrestore
    exact (hkeeps.of_ok hafter).trans (herror hu)
  · -- after a success there is a file to forget
    obtain ⟨u, hu, rfl⟩ := StoreOperation.onFiles_eq_ok.1 hrestore
    obtain ⟨T, hT, R, hR⟩ := resolve_of_restore hplain hu
    split at hafter
    · rw [bind_of_ok (StoreOperation.onFiles_of_ok hT)] at hafter
      obtain ⟨s'', hforget⟩ := forget_of_resolve (f := f) (s := ⟨u, s.cache⟩) hR
      rw [hforget] at hafter
      cases hafter
    · cases hafter
  · obtain ⟨u, hu, rfl⟩ := StoreOperation.onFiles_eq_error.1 hrestore
    exact (hkeeps.of_error hafter).trans (herror hu)

/-! ### Failures -/

/-- **Writing and restoring fail without a trace.** A write that fails changes no file, and
leaves none behind, if no link in the slot of the file is on the way to it and temporary names
can be drawn. Neither does a restore that fails, if no link is left in the path that the file
stands for. -/
theorem failure_keeps_files (f : RcFile) (s : Store) :
    (∀ c e s', s.files.WellFormed → s.files.DrawsNames → f.SlotAside s.files →
      f.write c s = .error e s' → ∀ p, s'.files.node? p = s.files.node? p) ∧
    ∀ e s', f.RestoresPlainly s.files → f.restoreBackup s = .error e s' →
      ∀ p, s'.files.node? p = s.files.node? p :=
  ⟨fun _ _ _ wf hdraw haside h => write_eq_error wf hdraw haside h,
    fun _ _ hplain h => restoreBackup_eq_error hplain h⟩

theorem failure_keeps_files_directory :
    let f : RcFile := { path := .ofText "/.zshrc".toList }
    let s := sampleStore "old".toList [([".zshrc.bak".toList], .dir .directory)]
    (∃ e s', f.write "new".toList s = .error e s' ∧ ∀ p, s'.files.node? p = s.files.node? p) ∧
      ∃ e s', f.restoreBackup s = .error e s' ∧ ∀ p, s'.files.node? p = s.files.node? p := by
  intro f s
  obtain ⟨hwrite, hrestore⟩ := failure_keeps_files f s
  have hw : f.write "new".toList s =
      .error (.unwritable f.path (.system .isDirectory))
        (f.write "new".toList |>.stateAfter s) := by cbv
  have hr : f.restoreBackup s =
      .error (.system ⟨.isDirectory, .ofText "/.zshrc.bak".toList, none⟩) s := by cbv
  have hlinks : ∀ p target, s.files.node? p ≠ some (.link target) := by
    intro p target h
    obtain ⟨l₁, l₂, hnodes, -⟩ := List.lookup_eq_some_iff.1 h
    have hmem : (p, Node.link target) ∈ s.files.nodes := by
      rw [hnodes]
      exact List.mem_append_right _ List.mem_cons_self
    simp [s, sampleStore] at hmem
  have hplain : f.RestoresPlainly s.files := by
    intro T R r hT hR hr
    have hT' : f.effectivePath s.files = .ok f.path s.files := by cbv
    rw [hT', EStateM.Result.ok.injEq] at hT
    rw [← hT.1] at hR
    have hR' : s.files.resolve f.path = .ok (pathTo [".zshrc".toList]) := by cbv
    rw [hR', Except.ok.injEq] at hR
    subst hR
    have hr' : s.files.locate (pathTo [".zshrc".toList]) .entry = .ok [".zshrc".toList] := by cbv
    rw [hr', Except.ok.injEq] at hr
    subst hr
    exact ⟨rfl, hlinks _⟩
  exact ⟨⟨_, _, hw, hwrite _ _ _ (wellFormed_of_check (by decide))
    ⟨by decide, by decide, by decide⟩ (slotAside_of_no_link hlinks) hw⟩,
    _, _, hr, hrestore _ _ hplain hr⟩

/-- The backup takes the place of a link on the way to the file, which is not found any more then.
And where links in a loop are followed, a backup may be put back in the place of a link, and the
path of the file not be resolved any more. -/
theorem failure_changes_files :
    (let f : RcFile := { path := .ofText "/.zshrc.bak/.zshrc".toList }
      let s := sampleStore "old".toList [([".zshrc.bak".toList], .link ".".toList)]
      s.files.node? [".zshrc.bak".toList] = some (.link ".".toList) ∧
        (f.write "new".toList).outcome s =
          .error (.unwritable f.path (.system .notDirectory)) ∧
        ∃ st, ((f.write "new".toList).stateAfter s).files.node? [".zshrc.bak".toList] =
          some (.file (Text.toBytes "old".toList) .secret st)) ∧
      (let f : RcFile := { path := .ofText "/s".toList }
        let s := sampleStore [] [(["s".toList], .link "y/../g/../h".toList),
          (["y".toList], .link "missing/../k/l".toList), (["k".toList], .dir .directory),
          (["k".toList, "l".toList], .link "l".toList),
          (["k".toList, "h".toList], .link "missing/../l/../../y".toList),
          (["k".toList, "h.bak".toList], .file (Text.toBytes "old".toList) .ordinary (.set 0)),
          (["h".toList], .link "h".toList)]
        s.files.node? ["y".toList] = some (.link "missing/../k/l".toList) ∧
          f.restoreBackup.outcome s = .error (.linkLoop (.ofText "/h".toList)) ∧
          ∃ st, (f.restoreBackup.stateAfter s).files.node? ["y".toList] =
            some (.file (Text.toBytes "old".toList) .secret st)) :=
  ⟨⟨by cbv, by cbv, .tick 1, by cbv⟩, by cbv, by cbv, .tick 1, by cbv⟩

end RcFile
end ShellConfig
