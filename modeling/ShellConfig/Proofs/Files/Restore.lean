import Mathlib
import ShellConfig.Proofs.Files.Save

/-!
# Restoring a file

What a write leaves is what a restore needs. Main statements: `BackupSlot.restore_succeeds`, when
the bytes of a backup are put back and what that changes; and `write_then_restoreBackup`, that
writing a managed file and restoring its backup changes the file and its backup as it should, and
nothing else.
-/

namespace ShellConfig

open FileTree FileOperation Operation

variable {t u : FileTree} {f : RcFile} {P : Path} {p q d : Place} {n : Text} {b bytes : ByteArray}
  {m : Mode} {st : Stamp}

/-! ### Putting a backup back -/

theorem FileTree.WellFormed.createTemporary_pathTo (wf : u.WellFormed)
    (hq : u.node? (d ++ [n]) = some (.file bytes m st))
    (hd : ∃ k, u.node? d = some (.dir k) ∧ k.writable = true)
    (hroot : u.locate (pathTo (d ++ [n])) .entry = .ok (d ++ [n]))
    (hname : byteCount n + 14 ≤ maxNameBytes)
    (hlen : byteCount (pathTo (d ++ [n])).text + 14 ≤ maxPathBytes) (hdraw : u.DrawsNames) :
    ∃ T v, createTemporary (pathTo (d ++ [n])) u = .ok T v := by
  have hstep := wf.isStep hq
  obtain ⟨k, hk, hkw⟩ := hd
  obtain ⟨-, -, d', hloc, hsearch, hd'⟩ := (locate_child_iff (f := pathTo d) hstep).1 hroot
  obtain rfl : d = d' := (List.append_inj' hd' rfl).1
  have hparent : (pathTo (d ++ [n])).parent.fromRoot u.workingPlace = pathTo d := by
    rw [pathTo_concat, Path.parent_child]
    exact wf.fromRoot_pathTo hk _
  have hlast : (pathTo (d ++ [n])).name? = some n := by rw [pathTo_concat, Path.name?_child]
  have hstem : byteCount (pathTo (d ++ [n])).text = byteCount (pathTo d).stem + byteCount n := by
    rw [pathTo_concat, byteCount_text_child]
  exact createTemporary_succeeds (p := pathTo (d ++ [n])) (d := d) hdraw.bytes hdraw.noNul
    (Nat.lt_of_succ_lt hdraw.few) (wf.hasNul_pathTo hq) (by rw [hparent]; exact hloc) hsearch
    ⟨k, hk, hkw⟩ (by rw [hparent]; exact wf.hasNul_pathTo hk) (by rw [hlast]; exact hname)
    (by rw [hparent, hlast]; simp only [Option.getD_some]; omega)

/-- A backup that can be read is put back into a file that is there, unless the temporary file
cannot be made beside the file. The file keeps its mode. -/
theorem BackupSlot.restore_succeeds {s : BackupSlot} (wf : u.WellFormed)
    (hB : u.locate s.backup = .ok p) (hBnul : s.backup.hasNul = false) {mb : Mode} {sb : Stamp}
    (hp : u.node? p = some (.file b mb sb)) (hmb : mb.readable = true)
    (hT : u.locate s.target = .ok (d ++ [n])) (hTnul : s.target.hasNul = false)
    (hq : u.node? (d ++ [n]) = some (.file bytes m st))
    (hd : ∃ k, u.node? d = some (.dir k) ∧ k.writable = true)
    (hroot : u.locate (pathTo (d ++ [n])) .entry = .ok (d ++ [n]))
    (hname : byteCount n + 14 ≤ maxNameBytes)
    (hlen : byteCount (pathTo (d ++ [n])).text + 14 ≤ maxPathBytes) (hdraw : u.DrawsNames) :
    ∃ w st', s.restore u = .ok () w ∧ IsUpdate u w (d ++ [n]) (some (.file b m st')) := by
  obtain ⟨T, v, hcreate⟩ := wf.createTemporary_pathTo hq hd hroot hname hlen hdraw
  obtain ⟨k, hk, hkw⟩ := hd
  have hnamed : (pathTo (d ++ [n])).isNamed = true := by
    rw [pathTo_concat, Path.isNamed_child]
    simpa using (wf.isStep hq).2
  have hwq : u.parentWritable (d ++ [n]) = true := by simp [parentWritable, hk, hkw]
  obtain ⟨w, hreplace⟩ := replace_succeeds wf hcreate hroot hnamed hwq (by simp [hq]) b m
  obtain ⟨-, q', st', hroot', -, -, -, hw⟩ := replace_eq_ok hreplace
  rw [hroot, Except.ok.injEq] at hroot'
  subst hroot'
  refine ⟨w, st', ?_, hw⟩
  have hread : query s.backup (·.read s.backup) u = .ok b u :=
    query_eq_ok.2 ⟨hBnul, read_of_file hB hp hmb, rfl⟩
  have hresolve : resolve s.target u = .ok (pathTo (d ++ [n])) u :=
    resolve_eq_ok.2 ⟨hTnul, resolve_of_find (find_eq_ok_iff.2 ⟨hT, hq⟩), rfl⟩
  have hmode := modeOf_of_file (locate_of_entry hroot (by simp [hq]) .content)
    (wf.hasNul_pathTo hq) hq
  unfold restore
  rw [bind_of_ok (orAbsent_eq_ok.2 (.inl ⟨b, rfl, hread⟩))]
  dsimp only
  rw [bind_of_ok hresolve, bind_of_ok (orAbsent_eq_ok.2 (.inl ⟨m, rfl, hmode⟩))]
  exact hreplace

namespace RcFile

/-- Once a backup is put back into a file that the paths lead to, what is remembered of the file is
forgotten without failure. -/
theorem restoreBackup_of_restore {s : Store} {w : FileTree}
    (hrestore : (do (← f.slot).restore : FileOperation Unit) s.files = .ok () w)
    (hnul : f.path.hasNul = false) (hpath : w.locate f.path = .ok q)
    (hq : w.node? q = some (.file b m st)) (hroot : w.locate (pathTo q) = .ok q)
    (hrootnul : (pathTo q).hasNul = false) :
    ∃ cache, f.restoreBackup s = .ok () ⟨w, cache⟩ := by
  have hput : StoreOperation.onFiles (do (← f.slot).restore) s = .ok () ⟨w, s.cache⟩ :=
    StoreOperation.onFiles_of_ok hrestore
  obtain ⟨T, heff, hT⟩ := effectivePath_of_file (find_eq_ok_iff.2 ⟨hpath, hq⟩) hnul
  have hlocT : w.locate T = .ok q ∧ T.hasNul = false := by
    rcases heff with ⟨rfl, -⟩ | ⟨rfl, -⟩
    · exact ⟨hpath, hnul⟩
    · exact ⟨hroot, hrootnul⟩
  have hforget := forget_of_file (f := f) (s := ⟨w, s.cache⟩) hlocT.1 hlocT.2 hq
  by_cases hc : f.cached = true
  · rw [if_pos hc] at hforget
    refine ⟨s.cache.forget (pathTo q), thenAlways_eq_ok.2 ⟨_, hput, ?_⟩⟩
    rw [if_pos hc, bind_of_ok (StoreOperation.onFiles_of_ok hT)]
    exact hforget
  · refine ⟨s.cache, thenAlways_eq_ok.2 ⟨_, hput, ?_⟩⟩
    rw [if_neg hc]
    rfl

theorem restoreBackup_of_save {s : Store} (wf : t.WellFormed)
    (hsave : IsSave t s.files P n d b bytes m) (hq : t.node? (d ++ [n]) = some (.file b m st))
    (heff : IsEffective t f.path (d ++ [n]) (P.child n)) (hnul : f.path.hasNul = false)
    (hpath : s.files.locate f.path = .ok (d ++ [n]))
    (hroot : P.child n = pathTo (d ++ [n]) ∨
      s.files.locate (pathTo (d ++ [n])) .entry = .ok (d ++ [n]) ∧
        byteCount (pathTo (d ++ [n])).text + 14 ≤ maxPathBytes)
    (hdraw : s.files.DrawsNames) :
    ∃ s' st', f.restoreBackup s = .ok () s' ∧
      IsUpdate s.files s'.files (d ++ [n]) (some (.file b m st')) := by
  have wfu := hsave.wellFormed wf hq
  obtain ⟨s₁, hnode⟩ := hsave.node?_target
  obtain ⟨s₂, hbackup⟩ := hsave.node?_backup
  obtain ⟨k, -, hk, -, hkw⟩ := hsave.dir
  have hdraw' : byteCount t.draw = 8 := hsave.draw ▸ hdraw.bytes
  obtain ⟨w₀, hw₀, hname, -⟩ := hsave.exists_temporaryName hdraw'
  obtain ⟨hroot, hlen⟩ := hroot.elim (hsave.restorable wf hdraw') id
  have hT := locate_of_entry hsave.locate_target (by simp [hnode]) .content
  have hslot := slot_of_effectivePath (effectivePath_of_save hsave hq heff hnul hpath)
  obtain ⟨w, st', hrestore, hw⟩ := BackupSlot.restore_succeeds
    (s := ⟨P.child n, P.child (n ++ BackupSlot.ending)⟩) wfu hsave.locate_backup_after
    hsave.noNul_backup hbackup (by decide) hT hsave.noNul hnode ⟨k, hk, hkw⟩ hroot (by omega) hlen
    hdraw
  have hput := (bind_of_ok (f := BackupSlot.restore) hslot).trans hrestore
  -- the file is still where its paths lead, so what is remembered of it can be forgotten
  have hpath' : w.locate f.path = .ok (d ++ [n]) :=
    hw.locate (by simp [hnode]) (isBare_file _ _ _) hpath (by simp [hnode])
  have hroot' : w.locate (pathTo (d ++ [n])) .entry = .ok (d ++ [n]) :=
    hw.locate (by simp [hnode]) (isBare_file _ _ _) hroot (.inr rfl)
  obtain ⟨cache, hcache⟩ := restoreBackup_of_restore hput hnul hpath' hw.node?_self
    (locate_of_entry hroot' (by simp [hw.node?_self]) .content) (wfu.hasNul_pathTo hnode)
  exact ⟨⟨w, cache⟩, st', hcache, hw⟩

/-- **Writing and restoring.** A write that succeeds puts the content into the file that the path
leads to, which keeps its mode; leaves the old bytes beside it, for its owner alone, where the path
it gives leads; and changes nothing else. Restoring then puts the old bytes back with the mode they
had and changes nothing else, provided that the path still leads to the file and that the file was
written by its path from the root, or that this path leads to it too and leaves room for that of a
temporary file. -/
theorem write_then_restoreBackup {s s₁ : Store} {c : Text} {r : Option Path}
    (wf : s.files.WellFormed) (hf : s.files.find f.path = .ok (q, .file b m st))
    (hw : f.write c s = .ok r s₁) :
    ∃ d n T B, q = d ++ [n] ∧ f.effectivePath s.files = .ok T s.files ∧ r = some B ∧
      B.text = T.text ++ BackupSlot.ending ∧
      s₁.files.locate B = .ok (d ++ [n ++ BackupSlot.ending]) ∧
      (∃ st₁, s₁.files.node? q = some (.file (Text.toBytes c) m st₁)) ∧
      (∃ st₂, s₁.files.node? (d ++ [n ++ BackupSlot.ending]) = some (.file b .secret st₂)) ∧
      (∀ p, p ≠ q → p ≠ d ++ [n ++ BackupSlot.ending] →
        s₁.files.node? p = s.files.node? p) ∧
      (s₁.files.locate f.path = .ok q →
        (T = pathTo q ∨ s₁.files.locate (pathTo q) .entry = .ok q ∧
          byteCount (pathTo q).text + 14 ≤ maxPathBytes) → s₁.files.DrawsNames →
        ∃ s₂ st₂, f.restoreBackup s₁ = .ok () s₂ ∧
          s₂.files.node? q = some (.file b m st₂) ∧
          ∀ p, p ≠ q → s₂.files.node? p = s₁.files.node? p) := by
  obtain ⟨P, n, d, hnul, hT, heff, rfl, rfl, -, hsave, -⟩ := write_eq_ok wf hf hw
  obtain ⟨-, hq⟩ := find_eq_ok_iff.1 hf
  refine ⟨d, n, P.child n, P.child (n ++ BackupSlot.ending), rfl, hT, rfl, ?_,
    hsave.locate_backup_after, hsave.node?_target, hsave.node?_backup,
    fun p => hsave.node?_of_ne, ?_⟩
  · rw [Path.text_child, Path.text_child, List.append_assoc]
  · intro hpath hroot hdraw
    obtain ⟨s₂, st₂, hrestore, hs₂⟩ :=
      restoreBackup_of_save wf hsave hq heff hnul hpath hroot hdraw
    exact ⟨s₂, st₂, hrestore, hs₂.node?_self, fun p => hs₂.node?_of_ne⟩

/-- A store with a file in the root that holds a text, and what else there is. -/
def sampleStore (t : Text) (others : List (Place × Node) := []) : Store where
  files :=
    { nodes := ([], .dir .directory) ::
        ([".zshrc".toList], .file (Text.toBytes t) .ordinary (.set 0)) :: others
      draw := "q7f3x9k2".toList }

/-- The state in which writing a text leaves a store. -/
def afterWrite (f : RcFile) (c : Text) (s : Store) : Store :=
  match f.write c s with
  | .ok _ s | .error _ s => s

theorem write_then_restoreBackup_zshrc :
    ∃ s₂ st₂, restoreBackup { path := .ofText "/.zshrc".toList }
        (afterWrite { path := .ofText "/.zshrc".toList } "new".toList (sampleStore "old".toList)) =
          .ok () s₂ ∧
      s₂.files.node? [".zshrc".toList] =
        some (.file (Text.toBytes "old".toList) .ordinary st₂) := by
  let f : RcFile := { path := .ofText "/.zshrc".toList }
  let s := sampleStore "old".toList
  have hwrite : f.write "new".toList s =
      .ok (some (.ofText "/.zshrc.bak".toList)) (afterWrite f "new".toList s) := by cbv
  obtain ⟨d, n, T, B, -, hT, -, -, -, -, -, -, hrestore⟩ :=
    write_then_restoreBackup (q := [".zshrc".toList]) (wellFormed_of_check (by decide)) (by cbv)
      hwrite
  have hT' : f.effectivePath s.files = .ok (pathTo [".zshrc".toList]) s.files := by cbv
  rw [hT, EStateM.Result.ok.injEq] at hT'
  have hdraw : (afterWrite f "new".toList s).files.draw = "q7f3x9k2".toList := by cbv
  obtain ⟨s₂, st₂, hs₂, hnode, -⟩ :=
    hrestore (by cbv) (.inl hT'.1) ⟨hdraw ▸ by decide, hdraw ▸ by decide, by cbv⟩
  exact ⟨s₂, st₂, hs₂, hnode⟩

/-- If the path is a link at the place of the backup, the backup takes its place: the path no longer
leads to the file, and beside the backup that it leads to now there is nothing to restore. -/
theorem restoreBackup_behind_link :
    let f : RcFile := { path := .ofText "/.zshrc.bak".toList }
    let s := sampleStore "old".toList [([".zshrc.bak".toList], .link ".zshrc".toList)]
    s.files.WellFormed ∧
      s.files.find f.path =
        .ok ([".zshrc".toList], .file (Text.toBytes "old".toList) .ordinary (.set 0)) ∧
      f.write "new".toList s =
        .ok (some (.ofText "/.zshrc.bak".toList)) (afterWrite f "new".toList s) ∧
      f.restoreBackup (afterWrite f "new".toList s) =
        .error (.noBackup (.ofText "/.zshrc.bak.bak".toList)) (afterWrite f "new".toList s) :=
  ⟨wellFormed_of_check (by decide), by cbv, by cbv, by cbv⟩

end RcFile

end ShellConfig
