import ShellConfig.Proofs.Files.SharedCache

/-!
# Writing and reading

What is read of a file that was written, and what is left of a file to which its own text was
written. Main statements: `StaysReached.locate`, when the path of a file still leads to it once it
is written; `node?_of_write`, that a write keeps the mode of a file and puts nothing but the new
bytes into it, whatever comes of it; and `write_then_read`, that a text comes back as it was.
-/

namespace ShellConfig

open FileTree FileOperation Operation

variable {t u v : FileTree} {T P g : Path} {p q d : Place} {n : Text} {b bytes : ByteArray}
  {m : Mode} {st : Stamp} {e : Failure}

namespace RcFile

variable {f : RcFile} {c : Text} {r : Option Path} {s s₁ : Store}

/-! ### The way to the file -/

/-- What makes a path lead to the file that is written at a place: the path is no link, so that it
is the one the file is written by; or it leads to a file, and the backup takes the place of no link
on the way; or there is nothing at the place, and the path leads there as it would for a new file.
-/
inductive StaysReached (f : RcFile) (t : FileTree) (q : Place) : Prop
  | plain (h : t.isLink? f.path = .ok false)
  | present {p : Place} {b : ByteArray} {m : Mode} {st : Stamp}
      (h : t.find f.path = .ok (p, .file b m st)) (haside : f.BackupAside t)
  | absent (h : t.locate f.path .newContent = .ok q) (hq : t.node? q = none)

theorem eq_path_of_not_isLink (hT : f.effectivePath t = .ok T u)
    (hlink : t.isLink? f.path = .ok false) : T = f.path := by
  rcases (effectivePath_eq_ok.1 hT).2 with ⟨-, hT⟩ | ⟨-, ⟨-, hT⟩ | ⟨hyes, -⟩⟩
  · exact hT
  · exact hT
  · rw [hlink] at hyes
    cases hyes

theorem StaysReached.locate (h : f.StaysReached s.files q) (wf : s.files.WellFormed)
    (hstored : f.IsStored c s s₁ T q m st) (hw : f.write c s = .ok r s₁) :
    s₁.files.locate f.path = .ok q := by
  cases h with
  | plain hlink =>
    exact eq_path_of_not_isLink hstored.effectivePath hlink ▸ (find_eq_ok_iff.1 hstored.find).1
  | present hf haside => exact hstored.locate_of_file wf haside hf hw
  | absent hpath hq => exact (hstored.update hq).locate_made hq (isBare_file _ _ _) hpath

/-! ### What is left of a file -/

theorem alike_of_backUpAndReplace_eq_error (hnul : (P.child n).hasNul = false)
    (hread : t.read (P.child n) = .ok b) (h : backUpAndReplace (P.child n) (.ok c) t = .error e u) :
    ∃ v, (v = t ∨ FileOperation.replace (P.child (n ++ BackupSlot.ending)) b (some .secret) t =
      .ok () v) ∧ Alike v u := by
  rw [backUpAndReplace_child hnul hread] at h
  rcases bind_eq_error.1 h with hbackup | ⟨_, v, hbackup, hrest⟩
  · exact ⟨t, .inl rfl, replace_eq_error hbackup⟩
  · refine ⟨v, .inr hbackup, ?_⟩
    rcases bind_eq_error.1 hrest with hmode | ⟨mode, w, hmode, hrest'⟩
    · rw [show u = v from (keeps_orAbsent (keeps_modeOf (g := id) _)).of_error hmode]
      exact .refl v
    · obtain rfl : w = v := (keeps_orAbsent (keeps_modeOf (g := id) _)).of_ok hmode
      rcases bind_eq_error.1 hrest' with hreplace | ⟨_, x, -, hpure⟩
      · exact replace_eq_error hreplace
      · cases hpure

theorem node?_of_backUpAndReplace_eq_error (wf : t.WellFormed)
    (hq : t.node? q = some (.file b m st)) (heff : IsEffective t g q T)
    (h : backUpAndReplace T (.ok c) t = .error e u) : u.node? q = t.node? q := by
  by_cases hreads : T.hasNul = false ∧ ((∃ b, t.read T = .ok b) ∨ t.read T = .error .noEntry)
  · obtain ⟨hnul, hreads⟩ := hreads
    obtain ⟨hentry, hm⟩ := entry_of_reads wf hq heff hreads
    have hread := read_of_file (locate_of_entry hentry (by simp [hq]) .content) hq hm
    cases hof : BackupSlot.of T with
    | error e' =>
      unfold backUpAndReplace at h
      rw [hof, bind_of_error (ofExcept_error _ _), EStateM.Result.error.injEq] at h
      rw [← h.2]
    | ok slot =>
      obtain ⟨n, hchild, -⟩ := BackupSlot.of_eq_ok hof
      generalize T.parent = P at hchild
      subst hchild
      obtain ⟨v, rfl | hbackup, hu⟩ := alike_of_backUpAndReplace_eq_error hnul hread h
      · exact hu.node? q
      · -- the backup stands under another name
        have hstep : IsStep n :=
          (locate_eq_ok_iff.1 hentry).2.isStep_last wf (by simp [isDirectoryAt, hq])
        obtain ⟨-, -, d, -, -, rfl⟩ := (locate_child_iff hstep).1 hentry
        obtain ⟨-, p, s, hB, -, -, -, hv⟩ := replace_eq_ok hbackup
        obtain ⟨-, -, d', -, -, rfl⟩ := (locate_child_iff (isStep_append_ending n)).1 hB
        rw [hu.node?, hv.node?_of_ne fun heq => ?_]
        exact append_ending_ne n (List.singleton_inj.1 (List.append_inj' heq rfl).2).symm
  · obtain ⟨e', he'⟩ := backUpAndReplace_of_unread (x := .ok c) hreads
    rw [he', EStateM.Result.error.injEq] at h
    rw [← h.2]

theorem files_write (hT : f.effectivePath s.files = .ok T s.files) (c : Text) :
    ((f.write c).stateAfter s).files = (backUpAndReplace T (.ok c)).stateAfter s.files := by
  have hbind := bind_of_ok (f := fun target => Operation.thenAlways (Operation.mapFailure
    (writeFailure target) (StoreOperation.onFiles (backUpAndReplace target (.ok c))))
    (f.forget target)) (StoreOperation.onFiles_of_ok hT)
  have hwrite : (f.write c).stateAfter s = _ := stateAfter_congr hbind
  rw [hwrite, stateAfter_thenAlways, (keeps_forget f T).stateAfter, stateAfter_mapFailure,
    StoreOperation.files_onFiles]

/-- **A write keeps the mode** of a file, and the file holds its old bytes or the new ones, whatever
comes of it. -/
theorem node?_of_write (wf : s.files.WellFormed)
    (hf : s.files.find f.path = .ok (q, .file b m st)) (hnul : f.path.hasNul = false) (c : Text) :
    ∃ b' st', ((f.write c).stateAfter s).files.node? q = some (.file b' m st') ∧
      (b' = b ∨ b' = Text.toBytes c) := by
  obtain ⟨-, hq⟩ := find_eq_ok_iff.1 hf
  obtain ⟨T, heff, hT⟩ := effectivePath_of_file hf hnul
  rw [files_write hT]
  cases h : backUpAndReplace T (.ok c) s.files with
  | ok r u =>
    rw [stateAfter_of_ok h]
    obtain ⟨P, n, d, -, rfl, -, -, hsave⟩ := save_of_effective wf hq heff h
    obtain ⟨st', hnode⟩ := hsave.node?_target
    exact ⟨_, st', hnode, .inr rfl⟩
  | error e u =>
    rw [stateAfter_of_error h, node?_of_backUpAndReplace_eq_error wf hq heff h]
    exact ⟨b, st, hq, .inl rfl⟩

theorem read_of_faithful (hf : s.files.find f.path = .ok (q, .file (Text.toBytes c) m st))
    (hnul : f.path.hasNul = false) (hm : m.readable = true)
    (hsize : ((Text.toBytes c).size : Int) ≤ f.maxSize)
    (hcache : ∀ x, f.recalled? q (.file (Text.toBytes c) m st) s = some x → x = c) :
    ∃ s₁, f.read s = .ok c s₁ := by
  obtain ⟨s', hread⟩ :=
    read_of_find (f := f.withCache false) hf hnul hm hsize (by simp [withCache])
  rw [← outcome_eq_ok, f.outcome_read s fun q' k x _ hfind hx => ?_, outcome_of_ok hread]
  rw [hf] at hfind
  obtain ⟨rfl, rfl⟩ := Prod.mk.inj (Except.ok.inj hfind)
  rw [hcache x hx]
  exact decode_eq_ok.2 ⟨rfl, hnul, q, m, st, hf, hm⟩

/-! ### Both ways -/

/-- **A text comes back as it was.** If a text is written that is not too large, then a file holds
it that may be read, and nothing is remembered for the place of this file. If the path leads to the
file, as it does where it stays reached, the text is read. And if a file holds a text that is not
too large and may be read, and nothing is remembered of it but this text, then the text is read; and
whether the file can be written or not, it keeps its bytes and its mode when the text that was read
is written. -/
theorem write_then_read (f : RcFile) (s : Store) (wf : s.files.WellFormed) :
    (∀ c r s₁, ((Text.toBytes c).size : Int) ≤ f.maxSize → f.write c s = .ok r s₁ →
      ∃ T q m st, f.IsStored c s s₁ T q m st ∧
        (f.StaysReached s.files q → s₁.files.locate f.path = .ok q) ∧
        (s₁.files.locate f.path = .ok q → ∃ s₂, f.read s₁ = .ok c s₂)) ∧
    ∀ c q m st, s.files.find f.path = .ok (q, .file (Text.toBytes c) m st) →
      f.path.hasNul = false → m.readable = true → ((Text.toBytes c).size : Int) ≤ f.maxSize →
      (∀ x, f.recalled? q (.file (Text.toBytes c) m st) s = some x → x = c) →
      ∃ s₁, f.read s = .ok c s₁ ∧
        ∃ st', ((f.write c).stateAfter s₁).files.node? q =
          some (.file (Text.toBytes c) m st') := by
  constructor
  · intro c r s₁ hsize hw
    obtain ⟨T, q, m, st, h⟩ := isStored_of_write wf hw
    exact ⟨T, q, m, st, h, fun hstays => hstays.locate wf h hw, h.read hsize⟩
  · intro c q m st hf hnul hm hsize hcache
    obtain ⟨s₁, hread⟩ := read_of_faithful hf hnul hm hsize hcache
    refine ⟨s₁, hread, ?_⟩
    have hfiles := (keeps_read f).of_ok hread
    rw [← hfiles] at wf hf
    obtain ⟨b', st', hnode, hb⟩ := node?_of_write wf hf hnul c
    obtain rfl : b' = Text.toBytes c := hb.elim id id
    exact ⟨st', hnode⟩

def sampleLink : RcFile := { path := .ofText "/link".toList }

def linkedStore : Store := sampleStore "old".toList [(["link".toList], .link ".zshrc".toList)]

theorem backupAside_sampleLink : sampleLink.BackupAside linkedStore.files := by
  intro P n p hT hp
  have hT' : sampleLink.effectivePath linkedStore.files =
      .ok (pathTo [".zshrc".toList]) linkedStore.files := by cbv
  rw [hT', EStateM.Result.ok.injEq] at hT
  obtain rfl : pathTo [] = P := by
    have hparent := congrArg Path.parent hT.1
    rwa [Path.parent_child] at hparent
  obtain rfl : ".zshrc".toList = n := by
    have hname := congrArg Path.name? hT.1
    rw [Path.name?_child] at hname
    exact Option.some.inj hname
  have hslot : linkedStore.files.locate
      ((pathTo []).child (".zshrc".toList ++ BackupSlot.ending)) .entry =
        .ok [".zshrc.bak".toList] := by cbv
  rw [hslot, Except.ok.injEq] at hp
  subst hp
  have hnone : linkedStore.files.node? [".zshrc.bak".toList] = none := by cbv
  exact ⟨fun _ hlink => (by rw [hnone] at hlink; cases hlink),
    fun _ hlink => (by rw [hnone] at hlink; cases hlink)⟩

theorem write_then_read_link :
    (∃ r s₁ s₂, sampleLink.write "\uFEFFa\r\nb\rc\n".toList linkedStore = .ok r s₁ ∧
      sampleLink.read s₁ = .ok "\uFEFFa\r\nb\rc\n".toList s₂) ∧
    ∃ s₁, sampleLink.read linkedStore = .ok "old".toList s₁ ∧ ∃ st',
      ((sampleLink.write "old".toList).stateAfter s₁).files.node? [".zshrc".toList] =
        some (.file (Text.toBytes "old".toList) .ordinary st') := by
  obtain ⟨hwrite, hread⟩ :=
    write_then_read sampleLink linkedStore (wellFormed_of_check (by decide))
  have hf : linkedStore.files.find sampleLink.path = .ok ([".zshrc".toList],
      .file (Text.toBytes "old".toList) .ordinary (.set 0)) := by cbv
  constructor
  · have houtcome : (sampleLink.write "\uFEFFa\r\nb\rc\n".toList).outcome linkedStore =
        .ok (some (.ofText "/.zshrc.bak".toList)) := by cbv
    obtain ⟨s₁, hw⟩ := outcome_eq_ok.1 houtcome
    obtain ⟨T, q, m, st, -, hstays, hback⟩ := hwrite _ _ _ (by decide) hw
    obtain ⟨s₂, hs₂⟩ := hback (hstays (.present hf backupAside_sampleLink))
    exact ⟨_, s₁, s₂, hw, hs₂⟩
  · refine hread _ _ _ _ hf (by decide) (by decide) (by decide) fun x hx => ?_
    cases hx

/-- What was written is not read where the path is a link that the backup takes the place of, or
one that leads back from a directory which is not there. And where something else is remembered of a
file, that is read, and takes the place of its text when it is written. -/
theorem write_then_other_read :
    (let f : RcFile := { path := .ofText "/.zshrc.bak".toList }
      let s := sampleStore "old".toList [([".zshrc.bak".toList], .link ".zshrc".toList)]
      s.files.WellFormed ∧
        (f.write "new".toList).outcome s = .ok (some (.ofText "/.zshrc.bak".toList)) ∧
        f.read.outcome (f.afterWrite "new".toList s) = .ok "old".toList) ∧
    (let f : RcFile := { path := .ofText "/s".toList }
      let s := sampleStore "old".toList [(["s".toList], .link "missing/../x".toList)]
      s.files.WellFormed ∧ (f.write "new".toList).outcome s = .ok none ∧
        f.read.outcome (f.afterWrite "new".toList s) = .error (.notFound f.path)) ∧
    (let f : RcFile := { path := .ofText "/.zshrc".toList }
      let s : Store := { sampleStore "new".toList with
        cache := ⟨[(pathTo [".zshrc".toList], .set 0, "old".toList)]⟩ }
      s.files.WellFormed ∧ f.read.outcome s = .ok "old".toList ∧
        ∃ st, (f.afterWrite "old".toList s).files.node? [".zshrc".toList] =
          some (.file (Text.toBytes "old".toList) .ordinary st)) :=
  ⟨⟨wellFormed_of_check (by decide), by cbv, by cbv⟩,
    ⟨wellFormed_of_check (by decide), by cbv, by cbv⟩,
    wellFormed_of_check (by decide), by cbv, .tick 3, by cbv⟩

end RcFile
end ShellConfig
