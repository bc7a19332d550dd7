import ShellConfig.Proofs.Files.Failing
import ShellConfig.Proofs.Files.WriteRead

/-!
# Reading what is there

What is read is the text of the file as it stands, as long as what is remembered is. Main
statements: `find_of_read`; `isReplaced_of_write`, what a write leaves of the file, of its backup
and of the way to it; `edit_writes`, which text an edit replaces and by what; and `recalls_edit` and
its likes, that nothing is remembered but texts of files.
-/

namespace ShellConfig

open FileTree FileOperation Operation

variable {s s' : Store} {q : Place} {b : ByteArray} {m : Mode} {st : Stamp} {c t : Text}

namespace Store

/-- What is remembered of a file as it stands is its text. -/
def IsFaithful (s : Store) : Prop :=
  ∀ q b m st c, s.files.node? q = some (.file b m st) →
    s.cache.get? (pathTo q) st = some c → b = Text.toBytes c

end Store

namespace RcFile

variable {f : RcFile} {r : Option Path}

/-! ### Reading -/

/-- What is read is the text of the file. -/
theorem find_of_read (hs : s.IsFaithful) (hread : f.read s = .ok c s') :
    ∃ q m st, s.files.find f.path = .ok (q, .file (Text.toBytes c) m st) := by
  rcases read_cases f s with ⟨e, herror⟩ | ⟨q, k, hfind, hnul, heq⟩
  · have herror' := herror f.cached
    rw [withCache_cached, hread] at herror'
    cases herror'
  have heq' := heq f.cached
  rw [withCache_cached, hread] at heq'
  have hfetch := mapFailure_eq_ok.1 heq'.symm
  cases hr : f.recalled? q k s with
  | some x =>
    rw [fetch_of_recalled hfind hnul hr, EStateM.Result.ok.injEq] at hfetch
    obtain ⟨rfl, -⟩ := hfetch
    unfold recalled? at hr
    split at hr
    · obtain ⟨st, hst, hget⟩ := Option.bind_eq_some_iff.1 hr
      cases k with
      | file b m st' =>
        obtain rfl := Option.some.inj hst
        obtain rfl := hs q b m st' x (find_eq_ok_iff.1 hfind).2 hget
        exact ⟨q, m, st', hfind⟩
      | dir | link => cases hst
    · cases hr
  | none =>
    rw [fetch_of_not_recalled hfind hnul hr] at hfetch
    obtain ⟨x, v, hdecode, hrest⟩ := bind_eq_ok.1 hfetch
    obtain ⟨u, hd, -⟩ := StoreOperation.onFiles_eq_ok.1 hdecode
    obtain ⟨_, w, -, hpure⟩ := bind_eq_ok.1 hrest
    obtain rfl : x = c := (EStateM.Result.ok.inj hpure).1
    obtain ⟨-, -, q', m, st, hfile, -⟩ := decode_eq_ok.1 hd
    exact ⟨q', m, st, hfile⟩

/-- A file that is there is read as it is, and not taken for an empty one. -/
theorem read_of_readOrEmpty {k : Node} (hfind : s.files.find f.path = .ok (q, k))
    (h : f.readOrEmpty s = .ok c s') : f.read s = .ok c s' := by
  obtain ⟨r, v, hr, hrest⟩ := bind_eq_ok.1 h
  rcases attempt_eq_ok.1 hr with ⟨a, rfl, ha⟩ | ⟨d, rfl, hd⟩
  · cases hrest
    exact ha
  · cases d with
    | notFound p =>
      rw [← f.keeps_read.of_error hd, find_of_read_notFound hd] at hfind
      cases hfind
    | _ => cases hrest

/-! ### What a write leaves -/

/-- The file at a place is replaced: its old text is in the slot of its backup, the new one at its
place, and its path leads there. It may do so no more if it is a link and the slot held a link on
the way. -/
structure IsReplaced (f : RcFile) (t u : FileTree) (q : Place) (before after : Text)
    (slot : BackupSlot) (p : Place) : Prop where
  isSlot : f.slot t = .ok slot t
  old : ∃ m st, t.find f.path = .ok (q, .file (Text.toBytes before) m st)
  new : ∃ m st, u.node? q = some (.file (Text.toBytes after) m st)
  backup : ∃ st, u.find slot.backup = .ok (p, .file (Text.toBytes before) .secret st)
  stays : t.isLink? f.path = .ok false ∨ LeadsPast t f.path p → u.locate f.path = .ok q

theorem isReplaced_of_write (wf : s.files.WellFormed)
    (hf : s.files.find f.path = .ok (q, .file (Text.toBytes t) m st))
    (hw : f.write c s = .ok r s') :
    ∃ slot p, f.IsReplaced s.files s'.files q t c slot p := by
  obtain ⟨hl, hq⟩ := find_eq_ok_iff.1 hf
  obtain ⟨P, n, d, hnul, hT, -, rfl, -, -, hsave, -⟩ := write_eq_ok wf hf hw
  obtain ⟨st₁, hnew⟩ := hsave.node?_target
  obtain ⟨st₂, hbackup⟩ := hsave.node?_backup
  refine ⟨_, d ++ [n ++ BackupSlot.ending], slot_of_effectivePath hT, ⟨m, st, hf⟩, ⟨m, st₁, hnew⟩,
    ⟨st₂, find_eq_ok_iff.2 ⟨hsave.locate_backup_after, hbackup⟩⟩, ?_⟩
  rintro (hlink | hpast)
  · have hlocate := locate_of_entry hsave.locate_target (by simp [hnew]) .content
    rwa [eq_path_of_not_isLink hT hlink] at hlocate
  · exact hsave.locate_past hq hl hpast

/-! ### What edits write -/

/-- What an edit gives is made of the text it has read. If that is a change, it is written, and what
is read then is just that. -/
theorem edit_writes {e : Text → Except EditError EditResult} {x : EditResult}
    (h : f.edit e s = .ok x s') :
    ∃ t s₁, f.read s = .ok t s₁ ∧ e t = .ok x ∧ (x.changed = true →
      ∃ r s₂, f.write x.content s₁ = .ok r s₂ ∧ f.read s₂ = .ok x.content s') := by
  obtain ⟨t, s₁, hread, hrest⟩ := bind_eq_ok.1 h
  cases he : e t with
  | error d =>
    rw [edit_of_refused hread he] at h
    cases h
  | ok y =>
    rw [edit_of_read hread he] at h
    split at h
    · obtain ⟨r, s₂, hwrite, hrest⟩ := bind_eq_ok.1 h
      obtain ⟨t', s₃, hread', hrest⟩ := bind_eq_ok.1 hrest
      split at hrest
      · cases hrest
      · cases hrest
        exact ⟨t, s₁, hread, he, fun _ => ⟨r, s₂, hwrite, (not_not.1 ‹_›) ▸ hread'⟩⟩
    · cases h
      exact ⟨t, s', hread, he, fun hchanged => absurd hchanged ‹_›⟩

theorem insert_eq_ok {e : Text → Except EditError InsertResult} {x : InsertResult}
    (h : f.insert e s = .ok x s') :
    ∃ t s₁ r, f.readOrEmpty s = .ok t s₁ ∧ e t = .ok x ∧ f.write x.content s₁ = .ok r s' := by
  obtain ⟨t, s₁, hread, hrest⟩ := bind_eq_ok.1 h
  cases he : e t with
  | error d =>
    rw [he] at hrest
    cases hrest
  | ok y =>
    rw [he] at hrest
    obtain ⟨r, s₂, hwrite, hpure⟩ := bind_eq_ok.1 hrest
    cases hpure
    exact ⟨t, s₁, r, hread, he, hwrite⟩

end RcFile

/-! ### What is remembered comes from files -/

/-- A file is there with a text and a moment of change, at the place that a path from the root
names.
-/
def FileTree.HasText (t : FileTree) (key : Path) (st : Stamp) (c : Text) : Prop :=
  ∃ q m, key = pathTo q ∧ t.node? q = some (.file (Text.toBytes c) m st)

/-- What is remembered in the second store was so in the first, or is the text of a file in one of
both. -/
def Store.RecalledFrom (s s' : Store) : Prop :=
  ∀ key st c, s'.cache.get? key st = some c →
    s.cache.get? key st = some c ∨ s.files.HasText key st c ∨ s'.files.HasText key st c

namespace Store.RecalledFrom

variable {s₁ s₂ : Store}

theorem of_within (h : s₁.cache.Within s.cache) : s.RecalledFrom s₁ :=
  fun key st c hc => .inl (h key st c hc)

/-- One of two steps leaves the texts of the files, so there are no files but those of the first
store and of the last. -/
theorem trans (h₁ : s.RecalledFrom s₁) (h₂ : s₁.RecalledFrom s₂)
    (hsame : s₁.files.HasText = s.files.HasText ∨ s₂.files.HasText = s₁.files.HasText) :
    s.RecalledFrom s₂ := by
  have hmiddle : ∀ {key st c}, s₁.files.HasText key st c →
      s.files.HasText key st c ∨ s₂.files.HasText key st c := by
    intro key st c hc
    rcases hsame with hsame | hsame
    · exact .inl (hsame ▸ hc)
    · exact .inr (hsame ▸ hc)
  intro key st c hc
  rcases h₂ key st c hc with hc | hc | hc
  · rcases h₁ key st c hc with hc | hc | hc
    · exact .inl hc
    · exact .inr (.inl hc)
    · exact .inr (hmiddle hc)
  · exact .inr (hmiddle hc)
  · exact .inr (.inr hc)

end Store.RecalledFrom

/-- What is remembered after an operation was so before, or it is the text of a file as it was
before or as it is afterwards. -/
def Recalls {σ α : Type} (g : σ → Store) (x : Operation σ α) : Prop :=
  ∀ s, (g s).RecalledFrom (g (x.stateAfter s))

section Recalls

variable {σ α β : Type} {g : σ → Store} {x : Operation σ α} {k : α → Operation σ β}

theorem recalls_of_keeps (h : Keeps (fun s => (g s).cache) x) : Recalls g x := by
  intro s
  refine .of_within ?_
  rw [h.stateAfter s]
  exact fun _ _ _ => id

/-- The texts of the files are the same after the first part of a sequence, or after the rest. -/
theorem Recalls.bind (hx : Recalls g x) (hk : ∀ a, Recalls g (k a))
    (hsame : Keeps (fun s => (g s).files.HasText) x ∨
      ∀ a, Keeps (fun s => (g s).files.HasText) (k a)) : Recalls g (x >>= k) := by
  intro s
  cases hxs : x s with
  | error e v =>
    rw [stateAfter_of_error (bind_of_error hxs), ← stateAfter_of_error hxs]
    exact hx s
  | ok a v =>
    have hfirst := hx s
    rw [stateAfter_of_ok hxs] at hfirst
    have hlast : (x >>= k).stateAfter s = (k a).stateAfter v := by
      unfold stateAfter
      rw [bind_of_ok hxs]
    rw [hlast]
    refine hfirst.trans (hk a v) ?_
    rcases hsame with hsame | hsame
    · exact .inl (hsame.of_ok hxs)
    · exact .inr ((hsame a).stateAfter v)

theorem recalls_pure (a : α) : Recalls g (pure a) := recalls_of_keeps (keeps_pure a)

theorem recalls_throw (e : Failure) : Recalls g (throw e : Operation σ α) :=
  recalls_of_keeps (keeps_throw e)

theorem Recalls.attempt (hx : Recalls g x) : Recalls g x.attempt := by
  intro s
  have h := hx s
  cases hxs : x s with
  | ok a v => rwa [stateAfter_of_ok (attempt_of_ok hxs), ← stateAfter_of_ok hxs]
  | error e v => rwa [stateAfter_of_ok (attempt_of_error hxs), ← stateAfter_of_error hxs]

theorem Recalls.within {τ : Type} {x : Operation Store α} {get : τ → Store} {set : Store → τ → τ}
    (hx : Recalls id x) (hset : ∀ s t, get (set s t) = s) : Recalls get (within get set x) := by
  intro t
  have h := hx (get t)
  cases hxt : x (get t) with
  | ok a s =>
    rw [stateAfter_of_ok (within_eq_ok.2 ⟨s, hxt, rfl⟩), hset]
    rwa [stateAfter_of_ok hxt] at h
  | error e s =>
    rw [stateAfter_of_error (within_eq_error.2 ⟨s, hxt, rfl⟩), hset]
    rwa [stateAfter_of_error hxt] at h

end Recalls

namespace RcFile

variable {f : RcFile}

theorem recalls_read (f : RcFile) : Recalls id f.read := by
  intro s key st c hc
  refine (remembered_of_read hc).imp_right ?_
  rintro ⟨q, m, rfl, -, hfind⟩
  exact .inl ⟨q, m, rfl, (find_eq_ok_iff.1 hfind).2⟩

theorem recalls_writeChecked (f : RcFile) (x : Except EncodingFault Text) :
    Recalls id (f.writeChecked x) := fun s => .of_within (within_of_writeChecked f x s)

theorem recalls_restoreBackup (f : RcFile) : Recalls id f.restoreBackup :=
  fun s => .of_within (within_of_restoreBackup f s)

theorem keeps_texts_of_read (f : RcFile) : Keeps (fun s : Store => s.files.HasText) f.read :=
  (keeps_read f).comp FileTree.HasText

theorem recalls_readOrEmpty (f : RcFile) : Recalls id f.readOrEmpty := by
  refine (recalls_read f).attempt.bind (fun r => ?_) (.inl (keeps_texts_of_read f).attempt)
  split
  · exact recalls_pure _
  · exact recalls_pure _
  · exact recalls_throw _

/-- An edit reads, writes and reads again: files are read as they were or as they are left. -/
theorem recalls_edit (f : RcFile) (e : Text → Except EditError EditResult) :
    Recalls id (f.edit e) := by
  refine (recalls_read f).bind (fun t => ?_) (.inl (keeps_texts_of_read f))
  split
  · exact recalls_throw _
  · split
    · refine (recalls_writeChecked f _).bind (fun _ => ?_) (.inr fun _ => ?_)
      · refine (recalls_read f).bind (fun t => ?_) (.inl (keeps_texts_of_read f))
        split
        · exact recalls_throw _
        · exact recalls_pure _
      · refine (keeps_texts_of_read f).bind fun t => ?_
        split
        · exact keeps_throw _
        · exact keeps_pure _
    · exact recalls_pure _

theorem recalls_insert (f : RcFile) (e : Text → Except EditError InsertResult) :
    Recalls id (f.insert e) := by
  refine (recalls_readOrEmpty f).bind (fun t => ?_)
    (.inl ((keeps_readOrEmpty f).comp FileTree.HasText))
  split
  · exact recalls_throw _
  · exact (recalls_writeChecked f _).bind (fun _ => recalls_pure _) (.inr fun _ => keeps_pure _)

end RcFile
end ShellConfig
