import ShellConfig.Proofs.Files.EditOutcome

/-!
# Why operations on files fail

Which failures each operation on the managed file and its backup may end with. Main statements:
`failsWith_read`, that reading tells every error of the system as one of its own, unless the path
cannot be resolved; `failsWith_writeChecked` and `failsWith_edit`, that writing and editing do too,
once it is known by which path; and `failsWith_restoreBackup`, that restoring lets errors of the
system through.
-/

namespace ShellConfig

open FileOperation Operation

variable {α : Type}

namespace Failure

/-- A path cannot be used: the system cannot be asked for it, or it is not known what it names. -/
inductive IsUnusable : Failure → Prop
  | embeddedNul : IsUnusable .embeddedNul
  | linkLoop (p : Path) : IsUnusable (.linkLoop p)
  | unnamed (p : Path) : IsUnusable (.unnamed p)

/-- A failure of an access to files: the system refuses it, or it cannot be asked. -/
inductive IsFault : Failure → Prop
  | system (f : Fault) : IsFault (.system f)
  | unusable {e : Failure} (h : IsUnusable e) : IsFault e

/-- A failure that says what is wrong with the managed file, its backup or the edit. -/
inductive IsExplained : Failure → Prop
  | noBackup (p : Path) : IsExplained (.noBackup p)
  | edit (e : EditError) : IsExplained (.edit e)
  | notFound (p : Path) : IsExplained (.notFound p)
  | permissionDenied (p : Path) : IsExplained (.permissionDenied p)
  | tooLarge (p : Path) (size : Nat) (limit : Int) : IsExplained (.tooLarge p size limit)
  | unreadable (p : Path) (c : ReadCause) : IsExplained (.unreadable p c)
  | unwritable (p : Path) (c : WriteCause) : IsExplained (.unwritable p c)

/-- A failure that is explained, unless a path cannot be used. -/
def IsSettled (e : Failure) : Prop := e.IsExplained ∨ e.IsUnusable

end Failure

open Failure

/-- Operations on files that fail with faults alone. -/
abbrev Faults (x : FileOperation α) : Prop := FailsWith (fun e _ => e.IsFault) x

namespace FileOperation

variable {p T : Path} {x : FileOperation α}

/-! ### Single accesses -/

theorem faults_query (p : Path) (f : FileTree → Except Errno α) : Faults (query p f) := by
  intro t e u h
  obtain ⟨-, ⟨-, rfl⟩ | ⟨-, c, -, rfl⟩⟩ := query_eq_error.1 h
  · exact .unusable .embeddedNul
  · exact .system _

theorem faults_change (p : Path) (f : FileTree → Except Errno FileTree) : Faults (change p f) := by
  intro t e u h
  obtain ⟨-, ⟨-, rfl⟩ | ⟨-, c, -, rfl⟩⟩ := change_eq_error.1 h
  · exact .unusable .embeddedNul
  · exact .system _

theorem faults_ask (p : Path) (f : FileTree → Except Errno Bool) : Faults (ask p f) := by
  unfold ask
  split
  · exact failsWith_pure _
  · exact faults_query p f

theorem failsWith_resolve (p : Path) : FailsWith (fun e _ => e.IsUnusable) (resolve p) := by
  intro t e u h
  unfold resolve at h
  split at h
  · cases h
    exact .embeddedNul
  · split at h
    · cases h
    · cases h
      exact .linkLoop _

theorem faults_resolve (p : Path) : Faults (resolve p) :=
  (failsWith_resolve p).mono fun _ _ h => .unusable h

theorem failsWith_orAbsent {P : Failure → FileTree → Prop} (hx : FailsWith P x) :
    FailsWith P x.orAbsent := fun t e u h => hx t e u (orAbsent_eq_error.1 h).2

theorem faults_modeOf (p : Path) : Faults (modeOf p) := by
  refine (faults_query p _).bind fun r => ?_
  split <;> exact failsWith_pure _

/-! ### Replacing -/

theorem faults_createFirst (mode : Mode) (ps : List Path) : Faults (createFirst mode ps) := by
  induction ps with
  | nil => exact failsWith_throw fun _ => .system _
  | cons p ps ih =>
    refine (faults_change p _).bind_attempt (fun _ => failsWith_pure p) fun e v he => ?_
    dsimp only
    split
    · exact ih v
    · exact failsWith_throw (fun _ => he) v

theorem faults_createTemporary (p : Path) : Faults (createTemporary p) :=
  failsWith_get.bind fun _ => faults_createFirst _ _

theorem faults_fillAndMove (T p : Path) (bytes : ByteArray) (mode : Option Mode) :
    Faults (fillAndMove T p bytes mode) := by
  have hmove : Faults (moveOver T p) := by
    refine (faults_change T _).mapFailure fun e _ he => ?_
    cases he with
    | system f => exact .system _
    | unusable he => cases he <;> exact .unusable (by constructor)
  refine (faults_change T _).bind fun _ => ?_
  cases mode with
  | none => exact (failsWith_pure ()).bind fun _ => hmove
  | some m => exact (faults_change T _).bind fun _ => hmove

theorem faults_replace (p : Path) (bytes : ByteArray) (mode : Option Mode) :
    Faults (FileOperation.replace p bytes mode) := by
  refine (faults_createTemporary p).bind fun T => ?_
  refine (faults_fillAndMove T p bytes mode).bind_attempt (fun _ => failsWith_pure ()) ?_
  exact fun e v he =>
    ((failsWith_orAbsent (faults_change T _)).bind fun _ => failsWith_throw fun _ => he) v

end FileOperation

/-! ### The backup -/

namespace BackupSlot

theorem failsWith_of (T : Path) : FailsWith (σ := FileTree) (fun e _ => e.IsUnusable)
    (Operation.ofExcept (BackupSlot.of T)) := by
  refine failsWith_ofExcept fun e _ h => ?_
  unfold BackupSlot.of at h
  split at h
  · cases h
  · cases h
    exact .unnamed T

theorem faults_snapshot (s : BackupSlot) : Faults s.snapshot := by
  refine (failsWith_orAbsent (faults_query _ _)).bind fun bytes? => ?_
  cases bytes? with
  | none => exact failsWith_pure _
  | some bytes => exact (faults_replace _ _ _).bind fun _ => failsWith_pure _

theorem failsWith_restore (s : BackupSlot) :
    FailsWith (fun e _ => e.IsFault ∨ e.IsExplained) s.restore := by
  have hfault : ∀ {β : Type} {x : FileOperation β}, Faults x →
      FailsWith (fun e _ => e.IsFault ∨ e.IsExplained) x := fun hx => hx.mono fun _ _ => .inl
  refine (hfault (failsWith_orAbsent (faults_query _ _))).bind fun bytes? => ?_
  cases bytes? with
  | none => exact failsWith_throw fun _ => .inr (.noBackup _)
  | some bytes =>
    exact (hfault (faults_resolve _)).bind fun T =>
      (hfault (failsWith_orAbsent (faults_modeOf T))).bind fun m => hfault (faults_replace _ _ _)

theorem faults_info (s : BackupSlot) : Faults s.info := by
  refine (failsWith_orAbsent (faults_query _ _)).bind fun n? => ?_
  rcases n? with - | ⟨q, _ | _ | _⟩ <;> exact failsWith_pure _

theorem failsWith_read (s : BackupSlot) :
    FailsWith (fun e _ => e.IsFault ∨ e = .undecodable) s.read := by
  refine ((failsWith_orAbsent (faults_query _ _)).mono fun _ _ => .inl).bind fun bytes? => ?_
  cases bytes? with
  | none => exact failsWith_pure _
  | some bytes =>
    dsimp only
    split
    · exact failsWith_pure _
    · exact failsWith_throw fun _ => .inr rfl

theorem keeps_read {τ : Type} {g : FileTree → τ} (s : BackupSlot) : Keeps g s.read := by
  refine (keeps_orAbsent (keeps_query _ _)).bind fun bytes? => ?_
  cases bytes? with
  | none => exact keeps_pure _
  | some bytes =>
    dsimp only
    split
    · exact keeps_pure _
    · exact keeps_throw _

theorem delete_eq_error {s : BackupSlot} {e : Failure} {t u : FileTree}
    (h : s.delete t = .error e u) : u = t ∧ (e.IsFault ∨ e = .noBackup s.backup) := by
  have hchange : ∀ {d v}, change s.backup (·.unlink s.backup) t = .error d v → v = t :=
    fun hd => (change_eq_error.1 hd).1
  rcases bind_eq_error.1 h with hunlink | ⟨r, w, hr, hrest⟩
  · have hd := (orAbsent_eq_error.1 hunlink).2
    exact ⟨hchange hd, .inl (faults_change _ _ _ _ _ hd)⟩
  · rcases orAbsent_eq_ok.1 hr with ⟨a, rfl, -⟩ | ⟨rfl, d, -, hd⟩
    · cases hrest
    · cases hrest
      exact ⟨hchange hd, .inr rfl⟩

end BackupSlot

namespace RcFile

variable {f : RcFile} {c : Text}

open StoreOperation

/-! ### Reading -/

theorem faults_effectivePath (f : RcFile) : Faults f.effectivePath := by
  refine (faults_ask _ _).bind fun link => ?_
  split
  · exact faults_resolve _
  · exact failsWith_pure _

theorem faults_slot (f : RcFile) : Faults f.slot :=
  (faults_effectivePath f).bind fun T =>
    (BackupSlot.failsWith_of T).mono fun _ _ h => .unusable h

theorem failsWith_onFiles {x : FileOperation α} {P : Failure → FileTree → Prop}
    (hx : FailsWith P x) : FailsWith (fun e s => P e s.files) (onFiles x) :=
  hx.within fun _ _ _ h => h

section Reading

variable {P : Failure → FileTree → Prop} {Q : Failure → Store → Prop}

theorem failsWith_decode {p : Path} (hread : FailsWith P (query p (·.read p)))
    (hundecodable : ∀ t, P .undecodable t) : FailsWith P (decode p) := by
  refine hread.bind fun bytes => ?_
  split
  · exact failsWith_pure _
  · exact failsWith_throw hundecodable

theorem failsWith_fetch (hresolve : FailsWith P (FileOperation.resolve f.path))
    (hdecode : FailsWith P (decode f.path)) (k : Node) :
    FailsWith (fun e s => P e s.files) (f.fetch k) := by
  refine (failsWith_onFiles hresolve).bind fun key => ?_
  refine (failsWith_get.bind fun _ => failsWith_pure _).bind fun t? => ?_
  cases t? with
  | some t => exact failsWith_pure t
  | none =>
    refine (failsWith_onFiles hdecode).bind fun t => ?_
    refine FailsWith.bind ?_ fun _ => failsWith_pure t
    unfold remember
    split
    · split
      · exact failsWith_modify _
      · exact failsWith_pure _
    · exact failsWith_pure _

/-- Reading fails as its looks at the file do, each of which fails of a kind. -/
theorem failsWith_read_of (hfind : FailsWith P (query f.path (·.find f.path)))
    (hresolve : FailsWith P (FileOperation.resolve f.path))
    (hread : FailsWith P (query f.path (·.read f.path))) (hundecodable : ∀ t, P .undecodable t)
    (hlarge : ∀ size t, P (.tooLarge f.path size f.maxSize) t)
    (h : ∀ e s, P e s.files → Q (readFailure f.path e) s) : FailsWith Q f.read := by
  rw [read_eq]
  refine FailsWith.mapFailure (P := fun e s => P e s.files) ?_ h
  refine (failsWith_onFiles hfind).bind fun r => ?_
  split
  · exact failsWith_throw fun s => hlarge _ s.files
  · exact failsWith_fetch hresolve (failsWith_decode hread hundecodable) _

end Reading

/-- A failure of a look at a file: the system refuses it, what is there is no text or too large, or
the path cannot be resolved. -/
def LookFails (p : Path) (e : Failure) (t : FileTree) : Prop :=
  ((∃ fault, e = .system fault) ∨ e = .undecodable ∨ ∃ size limit, e = .tooLarge p size limit) ∨
    FileOperation.resolve p t = .error e t

theorem lookFails_query (p : Path) (g : FileTree → Except Errno α) :
    FailsWith (LookFails p) (query p g) := by
  intro t e u h
  obtain ⟨rfl, ⟨hnul, rfl⟩ | ⟨-, c, -, rfl⟩⟩ := query_eq_error.1 h
  · exact .inr (if_pos hnul)
  · exact .inl (.inl ⟨_, rfl⟩)

theorem lookFails_resolve (p : Path) : FailsWith (LookFails p) (FileOperation.resolve p) := by
  intro t e u h
  obtain rfl := resolve_eq_error h
  exact .inr h

/-- A failure of reading: one that is explained, or what resolving the path comes to. -/
def ReadFails (f : RcFile) (e : Failure) (s : Store) : Prop :=
  e.IsExplained ∨ FileOperation.resolve f.path s.files = .error e s.files

/-- Reading tells every error of the system, and bytes that are no text, as its own. -/
theorem readFails_readFailure {e : Failure} {s : Store} (h : LookFails f.path e s.files) :
    f.ReadFails (readFailure f.path e) s := by
  rcases h with (⟨fault, rfl⟩ | rfl | ⟨size, limit, rfl⟩) | h
  · unfold readFailure
    dsimp only
    split
    · exact .inl (.notFound f.path)
    · exact .inl (.permissionDenied f.path)
    · exact .inl (.unreadable f.path _)
  · exact .inl (.unreadable f.path _)
  · exact .inl (.tooLarge f.path size limit)
  · cases failsWith_resolve _ _ _ _ h <;> exact .inr h

/-- Reading fails with an explanation, unless the path cannot be resolved. -/
theorem failsWith_read (f : RcFile) : FailsWith f.ReadFails f.read :=
  failsWith_read_of (lookFails_query _ _) (lookFails_resolve _) (lookFails_query _ _)
    (fun _ => .inl (.inr (.inl rfl))) (fun _ _ => .inl (.inr (.inr ⟨_, _, rfl⟩)))
    fun _ _ => readFails_readFailure

theorem failsWith_readOrEmpty (f : RcFile) : FailsWith f.ReadFails f.readOrEmpty := by
  refine (failsWith_read f).bind_attempt (fun t => failsWith_pure t) fun d v hd e u h => ?_
  cases d with
  | notFound p => cases h
  | _ =>
    cases h
    exact hd

theorem keeps_readOrEmpty (f : RcFile) : Keeps Store.files f.readOrEmpty := by
  refine (keeps_read f).attempt.bind fun r => ?_
  split
  · exact keeps_pure _
  · exact keeps_pure _
  · exact keeps_throw _

/-- A failure says that nothing is at a path only if it leads to nothing. -/
def SaysAbsent (p : Path) (e : Failure) (t : FileTree) : Prop :=
  isAbsence e = true ∨ (∃ p', e = .notFound p') → t.find p = .error .noEntry

theorem saysAbsent_query {p : Path} {g : FileTree → Except Errno α}
    (hg : ∀ t, g t = .error .noEntry → t.find p = .error .noEntry) :
    FailsWith (SaysAbsent p) (query p g) := by
  intro t e u h hsays
  obtain ⟨rfl, ⟨-, rfl⟩ | ⟨-, c, hc, rfl⟩⟩ := query_eq_error.1 h
  · simp [isAbsence] at hsays
  · obtain rfl : c = .noEntry := by simpa [isAbsence] using hsays
    exact hg _ hc

theorem find_of_read_noEntry {p : Path} {t : FileTree} (h : t.read p = .error .noEntry) :
    t.find p = .error .noEntry := by
  unfold FileTree.read at h
  split at h
  · rwa [← Except.error.inj h]
  · split at h <;> cases h
  · split at h <;> cases h
  · cases h

theorem find_of_read_notFound {s s' : Store} {p : Path} (h : f.read s = .error (.notFound p) s') :
    s'.files.find f.path = .error .noEntry := by
  have hsays : FailsWith (fun e s => (∃ p, e = .notFound p) → s.files.find f.path = .error .noEntry)
      f.read := by
    refine failsWith_read_of (saysAbsent_query fun _ => id) ?_
      (saysAbsent_query fun _ => find_of_read_noEntry) (fun t h => by simp [isAbsence] at h)
      (fun size t h => by simp [isAbsence] at h) fun e s he hp => ?_
    · intro t e u h hsays
      cases failsWith_resolve _ _ _ _ h <;> simp [isAbsence] at hsays
    · obtain ⟨p, hp⟩ := hp
      refine he ?_
      cases e with
      | notFound p' => exact .inr ⟨p', rfl⟩
      | system fault =>
        obtain ⟨code, at', second⟩ := fault
        cases code <;> first | exact .inl rfl | cases hp
      | _ => cases hp
  exact hsays _ _ _ h ⟨p, rfl⟩

/-! ### Writing -/

theorem failsWith_forget (f : RcFile) (p : Path) :
    FailsWith (fun e _ => e.IsUnusable) (f.forget p) := by
  unfold forget
  split
  · exact (failsWith_onFiles (failsWith_resolve p)).bind fun _ => failsWith_modify _
  · exact failsWith_pure _

theorem failsWith_backUpAndReplace (T : Path) (x : Except EncodingFault Text) :
    FailsWith (fun e _ => e.IsFault ∨ x.mapError .unencodable = .error e)
      (backUpAndReplace T x) := by
  have hfault : ∀ {β : Type} {y : FileOperation β}, Faults y →
      FailsWith (fun e _ => e.IsFault ∨ x.mapError .unencodable = .error e) y :=
    fun hy => hy.mono fun _ _ => .inl
  refine (hfault ((BackupSlot.failsWith_of T).mono fun _ _ h => .unusable h)).bind fun slot => ?_
  refine (hfault (BackupSlot.faults_snapshot slot)).bind fun backup? => ?_
  refine (hfault (failsWith_orAbsent (faults_modeOf T))).bind fun m? => ?_
  refine (failsWith_ofExcept fun e _ h => .inr h).bind fun t => ?_
  exact (hfault (faults_replace _ _ _)).bind fun _ => failsWith_pure _

/-- A failure that is settled, or that finding the slot of the file comes to in the state that is
left. -/
def SettledOrSlot (f : RcFile) (e : Failure) (s : Store) : Prop :=
  e.IsSettled ∨ f.slot s.files = .error e s.files

theorem ReadFails.settledOrSlot {e : Failure} {s : Store} (h : f.ReadFails e s) :
    f.SettledOrSlot e s := .inl (h.imp_right fun h => failsWith_resolve _ _ _ _ h)

/-- Writing fails with an explanation, unless it cannot be said by which path the file is written or
what is written is no text. -/
theorem failsWith_writeChecked (f : RcFile) (x : Except EncodingFault Text) :
    FailsWith (fun e s => f.SettledOrSlot e s ∨ x.mapError .unencodable = .error e)
      (f.writeChecked x) := by
  intro s e u h
  rcases bind_eq_error.1 h with hpath | ⟨T, v, -, hrest⟩
  · obtain ⟨w, hw, rfl⟩ := onFiles_eq_error.1 hpath
    obtain rfl : w = s.files := (keeps_effectivePath (g := id) f).of_error hw
    exact .inl (.inr (bind_of_error hw))
  · have hsettled : FailsWith (fun e _ => e.IsSettled ∨ x.mapError .unencodable = .error e)
        (Operation.thenAlways (Operation.mapFailure (writeFailure T)
          (onFiles (backUpAndReplace T x))) (f.forget T)) := by
      refine FailsWith.thenAlways ?_ ((failsWith_forget f T).mono fun _ _ h => .inl (.inr h))
      refine (failsWith_onFiles (failsWith_backUpAndReplace T x)).mapFailure fun e _ he => ?_
      rcases he with he | he
      · refine .inl ?_
        cases he with
        | system g =>
          dsimp only [writeFailure]
          split
          · exact .inl (.permissionDenied T)
          · exact .inl (.unwritable T _)
        | unusable he => cases he <;> exact .inr (by constructor)
      · cases x with
        | ok t => cases he
        | error fault =>
          cases he
          exact .inr rfl
    exact (hsettled v e u hrest).imp_left .inl

theorem failsWith_write (f : RcFile) (c : Text) : FailsWith f.SettledOrSlot (f.write c) :=
  (failsWith_writeChecked f (.ok c)).mono fun _ _ h => h.resolve_right nofun

/-- Editing fails with an explanation, unless it cannot be said by which path the file is written.
-/
theorem failsWith_edit (f : RcFile) (edit : Text → Except EditError EditResult) :
    FailsWith f.SettledOrSlot (f.edit edit) := by
  have hread : FailsWith f.SettledOrSlot f.read :=
    (failsWith_read f).mono fun _ _ => ReadFails.settledOrSlot
  refine hread.bind fun t => ?_
  split
  · exact failsWith_throw fun _ => .inl (.inl (.edit _))
  · split
    · refine (failsWith_write f _).bind fun _ => hread.bind fun t' => ?_
      split
      · exact failsWith_throw fun _ => .inl (.inl (.unwritable _ _))
      · exact failsWith_pure _
    · exact failsWith_pure _

theorem failsWith_insert (f : RcFile) (e : Text → Except EditError InsertResult) :
    FailsWith f.SettledOrSlot (f.insert e) := by
  refine ((failsWith_readOrEmpty f).mono fun _ _ => ReadFails.settledOrSlot).bind fun t => ?_
  split
  · exact failsWith_throw fun _ => .inl (.inl (.edit _))
  · exact (failsWith_write f _).bind fun _ => failsWith_pure _

/-- Restoring a backup fails with a fault, unless there is none. -/
theorem failsWith_restoreBackup (f : RcFile) :
    FailsWith (fun e _ => e.IsFault ∨ e.IsExplained) f.restoreBackup := by
  have hfault : ∀ {β : Type} {x : StoreOperation β}, FailsWith (fun e _ => e.IsFault) x →
      FailsWith (fun e _ => e.IsFault ∨ e.IsExplained) x := fun hx => hx.mono fun _ _ => .inl
  refine FailsWith.thenAlways
    (failsWith_onFiles (P := fun e _ => e.IsFault ∨ e.IsExplained) ?_) ?_
  · exact ((faults_slot f).mono fun _ _ => .inl).bind fun slot => BackupSlot.failsWith_restore slot
  · split
    · exact (hfault (failsWith_onFiles (faults_effectivePath f))).bind fun T =>
        hfault ((failsWith_forget f T).mono fun _ _ h => .unusable h)
    · exact failsWith_pure _

end RcFile
end ShellConfig
