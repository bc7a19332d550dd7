import ShellConfig.Proofs.Files.FailedWrite

/-!
# Edits that fail

An edit reads a file, writes it, and reads it again. Main statements: `find_of_write`, that the path
leads to what was written; `edit_of_fitting` and `edit_of_outgrown`, what comes of an edit that is
written; and `edit_eq_error`, that an edit which fails changes nothing or has outgrown its file.
They hold as long as no link that the backup takes the place of is on the way to the file.
-/

namespace ShellConfig

open FileTree FileOperation Operation

variable {t u v : FileTree} {T P g : Path} {p q d : Place} {n : Text} {b bytes : ByteArray}
  {m : Mode} {st : Stamp} {e : Failure}

theorem IsSave.locate_past (hsave : IsSave t u P n d b bytes m)
    (hq : t.node? (d ++ [n]) = some (.file b m st)) (hl : t.locate g = .ok (d ++ [n]))
    (hpast : LeadsPast t g (d ++ [n ++ BackupSlot.ending])) : u.locate g = .ok (d ++ [n]) := by
  obtain ⟨v, s₁, s₂, hv, hu⟩ := hsave.updates
  have hlv := hpast.locate hsave.notDir hv hl (by simp [hq])
  have hqv : v.node? (d ++ [n]) = some (.file b m st) := by
    rw [hv.node?_of_ne (place_backup_ne d n), hq]
  exact hu.locate (by simp [hqv]) (isBare_file _ _ _) hlv (by simp [hqv])

namespace RcFile

variable {f : RcFile} {c : Text} {r : Option Path}

/-! ### Where the backup stands -/

/-- No link at the place of the backup of a file is on the way to the file or to the directory of
its temporary files, so taking the backup changes neither. -/
def BackupAside (f : RcFile) (t : FileTree) : Prop :=
  ∀ (P : Path) (n : Text) (p : Place), f.effectivePath t = .ok (P.child n) t →
    t.locate (P.child (n ++ BackupSlot.ending)) .entry = .ok p →
    LeadsPast t f.path p ∧ LeadsPast t (P.fromRoot t.workingPlace) p

/-- The text of a file that is not too large: what is remembered, or else what is on the disk. -/
def fetch (f : RcFile) (k : Node) : StoreOperation Text := do
  let key ← StoreOperation.onFiles (FileOperation.resolve f.path)
  match ← f.remembered? key (stampOf k) with
  | some t => pure t
  | none => do
    let t ← StoreOperation.onFiles (decode f.path)
    f.remember key (stampOf k) t
    pure t

theorem read_eq (f : RcFile) :
    f.read = Operation.mapFailure (readFailure f.path) (do
      let r ← StoreOperation.onFiles (query f.path (·.find f.path))
      if f.maxSize < sizeOf r.2 then throw (.tooLarge f.path (sizeOf r.2) f.maxSize)
      else f.fetch r.2) := by
  unfold read
  congr 2

theorem keeps_decode {τ : Type} {g : FileTree → τ} (p : Path) : Keeps g (decode p) := by
  refine (keeps_query _ _).bind fun b => ?_
  split
  · exact keeps_pure _
  · exact keeps_throw _

theorem keeps_remember (f : RcFile) (key : Path) (stamp : Option Stamp) (c : Text) :
    Keeps Store.files (f.remember key stamp c) := by
  unfold remember
  split
  · split
    · exact keeps_modify fun s => rfl
    · exact keeps_pure _
  · exact keeps_pure _

theorem keeps_read (f : RcFile) : Keeps Store.files f.read := by
  have honFiles : ∀ {α : Type} {x : FileOperation α}, Keeps id x →
      Keeps Store.files (StoreOperation.onFiles x) := fun hx => StoreOperation.keeps_onFiles hx
  rw [read_eq]
  refine Keeps.mapFailure ((honFiles (keeps_query _ _)).bind fun r => ?_) _
  split
  · exact keeps_throw _
  · refine (honFiles (keeps_resolve _)).bind fun key =>
      (keeps_get.bind fun _ => keeps_pure _).bind fun t? => ?_
    cases t? with
    | some t => exact keeps_pure t
    | none =>
      exact (honFiles (keeps_decode _)).bind fun t =>
        (keeps_remember f _ _ _).bind fun _ => keeps_pure t

theorem remembered?_eq (f : RcFile) (key : Path) (stamp : Option Stamp) (s : Store) :
    f.remembered? key stamp s =
      .ok (if f.cached then stamp.bind (s.cache.get? key) else none) s := rfl

theorem fetch_eq {k : Node} {s : Store} {key : Path} {t : Text}
    (hresolve : FileOperation.resolve f.path s.files = .ok key s.files)
    (hremembered : (if f.cached then (stampOf k).bind (s.cache.get? key) else none) = some t ∨
      (if f.cached then (stampOf k).bind (s.cache.get? key) else none) = none ∧
        decode f.path s.files = .ok t s.files) :
    ∃ s', f.fetch k s = .ok t s' := by
  unfold fetch
  rw [bind_of_ok (StoreOperation.onFiles_of_ok hresolve), bind_of_ok (remembered?_eq f _ _ _)]
  rcases hremembered with hsome | ⟨hnone, hdecode⟩
  · simp only [hsome]
    exact ⟨_, rfl⟩
  · obtain ⟨s', hremember⟩ : ∃ s', f.remember key (stampOf k) t s = .ok () s' := by
      unfold remember
      cases stampOf k with
      | none => exact ⟨_, rfl⟩
      | some st => cases f.cached <;> exact ⟨_, rfl⟩
    simp only [hnone]
    rw [bind_of_ok (StoreOperation.onFiles_of_ok hdecode), bind_of_ok hremember]
    exact ⟨_, rfl⟩

theorem decode_eq_ok {p : Path} :
    decode p t = .ok c u ↔ u = t ∧ p.hasNul = false ∧
      ∃ q m st, t.find p = .ok (q, .file (Text.toBytes c) m st) ∧ m.readable = true := by
  constructor
  · intro h
    obtain ⟨b, v, hquery, hrest⟩ := bind_eq_ok.1 h
    obtain ⟨hnul, hread, rfl⟩ := query_eq_ok.1 hquery
    obtain ⟨rfl, rfl⟩ : u = v ∧ b = Text.toBytes c := by
      cases hb : Text.ofBytes? b with
      | none =>
        rw [hb] at hrest
        cases hrest
      | some c' =>
        rw [hb] at hrest
        obtain ⟨rfl, rfl⟩ := EStateM.Result.ok.inj hrest
        exact ⟨rfl, Text.ofBytes?_eq_some_iff.1 hb⟩
    exact ⟨rfl, hnul, read_eq_ok.1 hread⟩
  · rintro ⟨rfl, hnul, hfile⟩
    have hquery : query p (·.read p) u = .ok (Text.toBytes c) u :=
      query_eq_ok.2 ⟨hnul, read_eq_ok.2 hfile, rfl⟩
    unfold decode
    rw [bind_of_ok hquery, Text.ofBytes?_toBytes]
    rfl

theorem read_of_find {s : Store} (hf : s.files.find f.path = .ok (q, .file (Text.toBytes c) m st))
    (hnul : f.path.hasNul = false) (hm : m.readable = true)
    (hsize : ((Text.toBytes c).size : Int) ≤ f.maxSize)
    (hcache : f.cached = true → s.cache.get? (pathTo q) st = none) :
    ∃ s', f.read s = .ok c s' := by
  have hquery : query f.path (·.find f.path) s.files =
      .ok (q, .file (Text.toBytes c) m st) s.files := query_eq_ok.2 ⟨hnul, hf, rfl⟩
  have hresolve : FileOperation.resolve f.path s.files = .ok (pathTo q) s.files :=
    resolve_eq_ok.2 ⟨hnul, resolve_of_find hf, rfl⟩
  have hdecode : decode f.path s.files = .ok c s.files :=
    decode_eq_ok.2 ⟨rfl, hnul, q, m, st, hf, hm⟩
  have hnone : (if f.cached then (some st).bind (s.cache.get? (pathTo q)) else none) = none := by
    split
    · exact hcache ‹_›
    · rfl
  rw [read_eq]
  simp only [mapFailure_eq_ok]
  rw [bind_of_ok (StoreOperation.onFiles_of_ok hquery), if_neg (by simpa [sizeOf] using hsize)]
  exact fetch_eq hresolve (.inr ⟨hnone, hdecode⟩)

end RcFile

theorem Cache.lookup_forget (c : Cache) (p q : Path) :
    (c.forget p).entries.lookup q = if q = p then none else c.entries.lookup q :=
  lookup_filter_ne p q c.entries

theorem Cache.get?_forget (c : Cache) (p : Path) (s : Stamp) : (c.forget p).get? p s = none := by
  unfold get?
  rw [lookup_forget, if_pos rfl]

namespace RcFile

variable {f : RcFile} {c : Text} {r : Option Path} {edit : Text → Except EditError EditResult}

/-- What a write leaves: the text is in a file that may be read, at the place to which the path
leads that the file is written by, and nothing is remembered for this place. If there was nothing,
the file is the one difference. -/
structure IsStored (f : RcFile) (c : Text) (s s₁ : Store) (T : Path) (q : Place) (m : Mode)
    (st : Stamp) : Prop where
  noNul : f.path.hasNul = false
  effectivePath : f.effectivePath s.files = .ok T s.files
  locate : s.files.locate T .entry = .ok q
  find : s₁.files.find T = .ok (q, .file (Text.toBytes c) m st)
  readable : m.readable = true
  update : s.files.node? q = none →
    IsUpdate s.files s₁.files q (some (.file (Text.toBytes c) m st))
  forgotten : f.cached = true → ∀ st, s₁.cache.get? (pathTo q) st = none

theorem isStored_of_write {s s₁ : Store} (wf : s.files.WellFormed)
    (h : f.write c s = .ok r s₁) : ∃ T q m st, f.IsStored c s s₁ T q m st := by
  obtain ⟨T, v, hpath, hrest⟩ := bind_eq_ok.1 h
  obtain ⟨u, hT, rfl⟩ := StoreOperation.onFiles_eq_ok.1 hpath
  obtain rfl : u = s.files := (keeps_effectivePath (g := id) f).of_ok hT
  obtain ⟨w, hmapped, hforget⟩ := thenAlways_eq_ok.1 hrest
  obtain ⟨u, hwrite, rfl⟩ := StoreOperation.onFiles_eq_ok.1 (mapFailure_eq_ok.1 hmapped)
  obtain ⟨hnulT, q, m, st, x, hq, hfind, hm, hu, hsame⟩ := find_of_backUpAndReplace wf hwrite
  have hfiles : s₁.files = u := (keeps_forget f T).of_ok hforget
  obtain ⟨hl, hnode⟩ := find_eq_ok_iff.1 hfind
  refine ⟨T, q, m, st, ?_, hT, hq, hfiles ▸ hfind, hm, fun hnone => ?_, fun hc st' => ?_⟩
  · rw [Bool.eq_false_iff]
    intro hnul
    rw [effectivePath_of_hasNul hnul, EStateM.Result.ok.injEq] at hT
    rw [← hT.1, hnul] at hnulT
    cases hnulT
  · rw [hfiles, ← hsame hnone]
    exact hu
  · have hforget' := forget_of_file (f := f) (s := ⟨u, s.cache⟩) hl hnulT hnode
    rw [hforget, if_pos hc, EStateM.Result.ok.injEq] at hforget'
    rw [hforget'.2]
    exact Cache.get?_forget _ _ _

theorem IsStored.read {s s₁ : Store} {T : Path} (h : f.IsStored c s s₁ T q m st)
    (hsize : ((Text.toBytes c).size : Int) ≤ f.maxSize) (hpath : s₁.files.locate f.path = .ok q) :
    ∃ s₂, f.read s₁ = .ok c s₂ := by
  obtain ⟨-, hnode⟩ := find_eq_ok_iff.1 h.find
  exact read_of_find (find_eq_ok_iff.2 ⟨hpath, hnode⟩) h.noNul h.readable hsize fun hc =>
    h.forgotten hc st

/-- After a write a path leads to the file that was written if it led to a file, and the backup did
not change the way to that. -/
theorem IsStored.locate_of_file {s s₁ : Store} {T : Path} {m' : Mode} {st' : Stamp}
    (h : f.IsStored c s s₁ T q m' st') (wf : s.files.WellFormed)
    (haside : f.BackupAside s.files) (hf : s.files.find f.path = .ok (p, .file b m st))
    (hw : f.write c s = .ok r s₁) : s₁.files.locate f.path = .ok q := by
  obtain ⟨hl, hp⟩ := find_eq_ok_iff.1 hf
  obtain ⟨P, n, d, -, hT, -, rfl, -, -, hsave, -⟩ := write_eq_ok wf hf hw
  have hlu := hsave.locate_past hp hl (haside P n _ hT hsave.locate_backup).1
  obtain ⟨st'', hnode⟩ := hsave.node?_target
  have htarget := locate_of_entry hsave.locate_target (by simp [hnode]) .content
  rw [h.effectivePath, EStateM.Result.ok.injEq] at hT
  rw [← hT.1, (find_eq_ok_iff.1 h.find).1, Except.ok.injEq] at htarget
  rw [hlu, htarget]

/-- What an edit does that is made of the text of a file. -/
theorem edit_of_read {s s₁ : Store} {t : Text} (hread : f.read s = .ok t s₁) {x : EditResult}
    (hedit : edit t = .ok x) :
    f.edit edit s =
      if x.changed then
        (do
          let _ ← f.write x.content
          if (← f.read) ≠ x.content then throw (.unwritable f.path .mismatch)
          pure x : StoreOperation EditResult) s₁
      else .ok x s₁ := by
  unfold RcFile.edit editWith
  rw [bind_of_ok hread, hedit]
  dsimp only
  split <;> rfl

theorem edit_of_refused {s s₁ : Store} {t : Text} (hread : f.read s = .ok t s₁) {e : EditError}
    (hedit : edit t = .error e) : f.edit edit s = .error (.edit e) s₁ := by
  unfold RcFile.edit editWith
  rw [bind_of_ok hread, hedit]
  rfl

section Written

variable {s s₁ s₂ : Store} {t : Text} {x : EditResult}

end Written

theorem fetch_again {k : Node} {s s₁ : Store} {t : Text} (h : f.fetch k s = .ok t s₁) :
    ∃ s₂, f.fetch k s₁ = .ok t s₂ := by
  obtain ⟨key, v, honFiles, hrest⟩ := bind_eq_ok.1 h
  obtain ⟨u, hresolve, rfl⟩ := StoreOperation.onFiles_eq_ok.1 honFiles
  obtain rfl : u = s.files := (keeps_resolve (g := id) f.path).of_ok hresolve
  rw [bind_of_ok (remembered?_eq f key _ _)] at hrest
  cases hr : (if f.cached then (stampOf k).bind (s.cache.get? key) else none) with
  | some t' =>
    rw [hr] at hrest
    cases hrest
    exact ⟨_, h⟩
  | none =>
    rw [hr] at hrest
    obtain ⟨t', w, honFiles, hrest⟩ := bind_eq_ok.1 hrest
    obtain ⟨u, hdecode, rfl⟩ := StoreOperation.onFiles_eq_ok.1 honFiles
    obtain rfl : u = s.files := (keeps_decode (g := id) f.path).of_ok hdecode
    obtain ⟨_, w, hremember, hpure⟩ := bind_eq_ok.1 hrest
    cases hpure
    have hfiles : s₁.files = s.files := (keeps_remember f _ _ _).of_ok hremember
    have hresolve' : FileOperation.resolve f.path s₁.files = .ok key s₁.files := by
      rw [hfiles]
      exact hresolve
    refine fetch_eq hresolve' ?_
    rw [hfiles]
    cases hst : stampOf k with
    | none => exact .inr ⟨by simp, hdecode⟩
    | some st =>
      unfold remember at hremember
      rw [hst] at hremember
      dsimp only at hremember
      split at hremember
      · cases hremember
        exact .inl (by simp [‹f.cached = true›, Cache.get?, Cache.put])
      · exact .inr ⟨by simp [*], hdecode⟩

/-- Reading again gives the same text. -/
theorem read_again {s s₁ : Store} {t : Text} (h : f.read s = .ok t s₁) :
    ∃ s₂, f.read s₁ = .ok t s₂ := by
  have hfiles := (keeps_read f).of_ok h
  rw [read_eq, mapFailure_eq_ok] at h
  obtain ⟨r, v, honFiles, hrest⟩ := bind_eq_ok.1 h
  obtain ⟨u, hquery, rfl⟩ := StoreOperation.onFiles_eq_ok.1 honFiles
  obtain rfl : u = s.files := (keeps_query (g := id) f.path _).of_ok hquery
  split at hrest
  · cases hrest
  · obtain ⟨s₂, hs₂⟩ := fetch_again hrest
    have hquery' : query f.path (·.find f.path) s₁.files = .ok r s₁.files := by
      rw [hfiles]
      exact hquery
    refine ⟨s₂, ?_⟩
    rw [read_eq, mapFailure_eq_ok, bind_of_ok (StoreOperation.onFiles_of_ok hquery'), if_neg ‹_›]
    exact hs₂

end RcFile
end ShellConfig
