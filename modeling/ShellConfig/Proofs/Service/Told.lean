import ShellConfig.Proofs.Files.Failing
import ShellConfig.Proofs.Service.EditAnswer

/-!
# Telling failures

What becomes of failures of the managed file and its backup in answers. Main statement:
`failures_told`, that every request about them is answered regularly or fails with a failure that is
told to the client, unless an access fails that the request makes without looking after all of its
failures. Those are mostly accesses to the backup; `failures_escape` shows two of them.
-/

namespace ShellConfig

open Operation FileOperation Failure

/-! ### What is told -/

/-- A failure is told to the client in words. Only one of an edit blames the client. -/
def Failure.IsTold (e : Failure) : Prop :=
  ∃ status, Response.ofFailure e = .refused status e.message ∧
    (status ∈ [403, 404, 413, 500] ∨ status = 400 ∧ ∃ x, e = .edit x)

theorem Failure.IsExplained.isTold {e : Failure} (h : e.IsExplained) : e.IsTold := by
  cases h with
  | noBackup p => exact ⟨404, rfl, .inl (by decide)⟩
  | edit x => cases x <;> first
    | exact ⟨404, rfl, .inl (by decide)⟩
    | exact ⟨400, rfl, .inr ⟨rfl, _, rfl⟩⟩
  | notFound p => exact ⟨404, rfl, .inl (by decide)⟩
  | permissionDenied p => exact ⟨403, rfl, .inl (by decide)⟩
  | tooLarge p size limit => exact ⟨413, rfl, .inl (by decide)⟩
  | unreadable p c => exact ⟨500, rfl, .inl (by decide)⟩
  | unwritable p c => exact ⟨500, rfl, .inl (by decide)⟩

/-- An answer that was meant: success, a refusal in words, or a list of issues. -/
inductive Response.IsRegular : Response → Prop
  | success (body : Json) : IsRegular (.ok body)
  | refused (status : Nat) (detail : Text) (h : status = 400 ∨ status = 500) :
    IsRegular (.refused status detail)
  | rejected (issues : List Issue) : IsRegular (.rejected issues)

/-- Whether a route is about the managed file or its backup. -/
def Route.isOfFile : Route → Bool
  | .health | .settings | .updateSettings | .description => false
  | _ => true

/-- Whether a route is one by which the managed file is written. -/
def Route.isOfWrite : Route → Bool
  | .content | .aliases | .toggle | .remove | .restore => true
  | _ => false

/-- Asks what is known of the backup of a file. -/
def RcFile.askInfo (f : RcFile) : FileOperation Unit := do let _ ← (← f.slot).info

/-- Asks which path without links the path of a file stands for. -/
def RcFile.askPath (f : RcFile) : FileOperation Unit := do let _ ← FileOperation.resolve f.path

/-- The accesses to a file and its backup that a route makes without looking after all of their
failures. -/
def RcFile.unguarded (f : RcFile) : Route → List (FileOperation Unit)
  | .entries | .sections | .duplicates | .format | .preview => [f.askPath]
  | .content | .aliases | .toggle | .remove => [f.askPath, f.askInfo]
  | .backup => [f.askInfo]
  | .backupDiff => [do let _ ← (← f.slot).read, f.askPath, f.askInfo]
  | .deleteBackup => [do (← f.slot).delete]
  | _ => []

namespace Service

def AliasRequest.strings (a : AliasRequest) : List Wording :=
  a.name :: a.command :: a.description.toList

def NewAliases.strings (new : NewAliases) : List Wording :=
  new.sectionName.toList ++ new.aliases.flatMap AliasRequest.strings ++ new.attribution.toList

/-- What a check makes of the body of a request, if it accepts it. -/
def bodyOf? {α : Type} (env : Environment) (r : Request)
    (check : List (Text × Json) → Checked α) : Option α :=
  match bodyValue env r with
  | .ok v =>
    match bodyRecord check v with
    | .ok a => some a
    | .bad _ => none
  | .error _ => none

/-- The strings in the body of a request that become text of the file. -/
def strings (env : Environment) (r : Request) : Route → List Wording
  | .preview | .content => (bodyOf? env r contentOf).toList
  | .aliases => (bodyOf? env r newAliasesOf).toList.flatMap NewAliases.strings
  | _ => []

/-- A failure that is not told: one of some strings has no bytes, one of some accesses to files
fails in the state that is left, or a path cannot be used in the course of a write. -/
inductive Escapes (writes : Bool) (ws : List Wording) (accesses : List (FileOperation Unit)) :
    Failure → Service → Prop
  | string {w : Wording} {fault : EncodingFault} {v : Service} (hw : w ∈ ws)
    (h : w.toText = .error fault) : Escapes writes ws accesses (.unencodable fault) v
  | access {x : FileOperation Unit} {e : Failure} {v : Service} (hx : x ∈ accesses)
    (h : x v.store.files = .error e v.store.files) (he : e.IsFault ∨ e = .undecodable) :
    Escapes writes ws accesses e v
  | path {e : Failure} {v : Service} (hwrites : writes = true) (h : e.IsUnusable) :
    Escapes writes ws accesses e v

/-- An operation ends well: with an answer that was meant, or with a failure that is told, unless it
escapes. -/
def EndsWell (writes : Bool) (ws : List Wording) (accesses : List (FileOperation Unit)) :
    EStateM.Result Failure Service Response → Prop
  | .ok a _ => a.IsRegular
  | .error e v => e.IsExplained ∨ Escapes writes ws accesses e v

variable {α : Type} {env : Environment} {s : Settings} {f : RcFile} {v : Service}
  {writes : Bool} {ws : List Wording} {accesses : List (FileOperation Unit)}

theorem endsWell_bind {x : ServiceOperation α} {k : α → ServiceOperation Response}
    (herror : ∀ e u, x v = .error e u → e.IsExplained ∨ Escapes writes ws accesses e u)
    (hok : ∀ a u, x v = .ok a u → EndsWell writes ws accesses (k a u)) :
    EndsWell writes ws accesses ((x >>= k) v) := by
  cases hx : x v with
  | ok a u =>
    rw [bind_of_ok hx]
    exact hok a u hx
  | error e u =>
    rw [bind_of_error hx]
    exact herror e u hx

theorem endsWell_accept {x : Checked α} {k : α → ServiceOperation Response}
    (h : ∀ a, x = .ok a → EndsWell writes ws accesses (k a v)) :
    EndsWell writes ws accesses (accept x k v) := by
  cases x with
  | ok a => exact h a rfl
  | bad issues => exact Response.IsRegular.rejected issues

theorem bodyValue_eq_error {r : Request} {a : Response} (h : bodyValue env r = .error a) :
    a = unreadBody ∨ ∃ issues, a = .rejected issues := by
  unfold bodyValue at h
  split at h
  · cases h
  · split at h
    · cases h
      exact .inl rfl
    · split at h
      · cases h
      · cases h
        unfold badBody
        split
        · exact .inr ⟨_, rfl⟩
        · exact .inl rfl

theorem endsWell_withBody {r : Request} {k : Option Json → ServiceOperation Response}
    (h : ∀ b, bodyValue env r = .ok b → EndsWell writes ws accesses (k b v)) :
    EndsWell writes ws accesses (withBody env r k v) := by
  unfold withBody
  cases hb : bodyValue env r with
  | ok b => exact h b hb
  | error a =>
    rcases bodyValue_eq_error hb with rfl | ⟨issues, rfl⟩
    · exact Response.IsRegular.refused _ _ (.inl rfl)
    · exact Response.IsRegular.rejected issues

/-! ### Parts of answers -/

/-- What reads the file fails with an explanation, or escapes. -/
theorem endsWell_of_readFails {x : StoreOperation α} {k : α → ServiceOperation Response}
    (hx : FailsWith f.ReadFails x) (hpath : f.askPath ∈ accesses)
    (hok : ∀ a u, x v.store = .ok a u → EndsWell writes ws accesses (k a { v with store := u })) :
    EndsWell writes ws accesses ((onStore x >>= k) v) := by
  refine endsWell_bind (fun e u h => ?_) fun a u h => ?_
  · obtain ⟨w, hw, rfl⟩ := onStore_eq_error.1 h
    refine (hx _ _ _ hw).imp_right fun hresolve => ?_
    exact .access hpath (bind_of_error hresolve)
      (.inl (.unusable (failsWith_resolve _ _ _ _ hresolve)))
  · obtain ⟨w, hw, rfl⟩ := onStore_eq_ok.1 h
    exact hok a w hw

theorem onFiles_eq_error_of_keeps {x : FileOperation α} {e : Failure} {u : Service}
    (hx : Keeps id x) (h : onFiles x v = .error e u) :
    u = v ∧ x v.store.files = .error e v.store.files := by
  obtain ⟨w, hw, rfl⟩ := onStore_eq_error.1 h
  obtain ⟨t, ht, rfl⟩ := StoreOperation.onFiles_eq_error.1 hw
  obtain rfl : t = v.store.files := hx.of_error ht
  exact ⟨rfl, ht⟩

theorem onFiles_of_ok {x : FileOperation α} {a : α} (h : x v.store.files = .ok a v.store.files) :
    onFiles x v = .ok a v :=
  onStore_eq_ok.2 ⟨v.store, StoreOperation.onFiles_of_ok h, rfl⟩

theorem onFiles_of_error {x : FileOperation α} {e : Failure}
    (h : x v.store.files = .error e v.store.files) : onFiles x v = .error e v :=
  onStore_eq_error.2 ⟨v.store, StoreOperation.onFiles_eq_error.2 ⟨_, h, rfl⟩, rfl⟩

theorem onFiles_eq_ok_of_keeps {x : FileOperation α} {a : α} {u : Service}
    (hx : Keeps id x) (h : onFiles x v = .ok a u) :
    u = v ∧ x v.store.files = .ok a v.store.files := by
  obtain ⟨w, hw, rfl⟩ := onStore_eq_ok.1 h
  obtain ⟨t, ht, rfl⟩ := StoreOperation.onFiles_eq_ok.1 hw
  obtain rfl : t = v.store.files := hx.of_ok ht
  exact ⟨rfl, ht⟩

theorem endsWell_backupInfo {k : Json → ServiceOperation Response}
    (hinfo : f.askInfo ∈ accesses)
    (hok : ∀ j u, EndsWell writes ws accesses (k j u)) :
    EndsWell writes ws accesses ((backupInfo env f >>= k) v) := by
  refine endsWell_bind (fun e u h => ?_) fun j u _ => hok j u
  have hkeeps : Keeps id (do (← f.slot).info : FileOperation BackupInfo) :=
    (RcFile.keeps_slot f).bind fun slot => BackupSlot.keeps_info slot
  have hfaults : Faults (do (← f.slot).info : FileOperation BackupInfo) :=
    (RcFile.faults_slot f).bind fun slot => BackupSlot.faults_info slot
  rcases bind_eq_error.1 h with h | ⟨i, w, -, h⟩
  · obtain ⟨rfl, hfails⟩ := onFiles_eq_error_of_keeps hkeeps h
    refine .inr (.access hinfo ?_ (.inl (hfaults _ _ _ hfails)))
    rcases bind_eq_error.1 hfails with hslot | ⟨slot, t, hslot, hi⟩
    · exact bind_of_error hslot
    · exact (bind_of_ok hslot).trans (bind_of_error hi)
  · cases h

theorem endsWell_changed {before after message : Text} {details : List (String × Json)}
    (hinfo : f.askInfo ∈ accesses) :
    EndsWell writes ws accesses (changed env s f before after message details v) :=
  endsWell_backupInfo hinfo fun _ _ => Response.IsRegular.success _

theorem endsWell_textOf {w : Wording} {k : Text → ServiceOperation Response} (hw : w ∈ ws)
    (hok : ∀ t u, EndsWell writes ws accesses (k t u)) :
    EndsWell writes ws accesses ((textOf w >>= k) v) := by
  refine endsWell_bind (fun e u h => ?_) fun t u _ => hok t u
  unfold textOf at h
  cases ht : w.toText with
  | ok t =>
    rw [ht] at h
    cases h
  | error fault =>
    rw [ht] at h
    cases h
    exact .inr (.string hw ht)

/-! ### Requests that read -/

section Reading

variable (hpath : f.askPath ∈ accesses)
include hpath

theorem endsWell_entries {kind? : Option Kind} :
    EndsWell writes ws accesses (entries s f kind? v) :=
  endsWell_of_readFails (RcFile.failsWith_read f) hpath fun _ _ _ => Response.IsRegular.success _

theorem endsWell_sections : EndsWell writes ws accesses (sections s f v) :=
  endsWell_of_readFails (RcFile.failsWith_read f) hpath fun _ _ _ => Response.IsRegular.success _

theorem endsWell_duplicates {kind : Kind} {key : Text} :
    EndsWell writes ws accesses (duplicates s f kind key v) :=
  endsWell_of_readFails (RcFile.failsWith_read f) hpath fun _ _ _ => Response.IsRegular.success _

theorem endsWell_format {name : Text} : EndsWell writes ws accesses (format f name v) :=
  endsWell_of_readFails (RcFile.failsWith_read f) hpath fun _ _ _ => Response.IsRegular.success _

theorem endsWell_preview {content : Wording} (hw : content ∈ ws) :
    EndsWell writes ws accesses (preview s f content v) :=
  endsWell_of_readFails (RcFile.failsWith_readOrEmpty f) hpath fun _ _ _ =>
    endsWell_textOf hw fun _ _ => Response.IsRegular.success _

end Reading

/-! ### Strings that are no text -/

/-- That something cannot be made is because one of some strings is no text. -/
def FaultyIn (ws : List Wording) (x : Except EncodingFault α) : Prop :=
  ∀ fault, x = .error fault → ∃ w ∈ ws, w.toText = .error fault

section FaultyIn

variable {β : Type} {x : Except EncodingFault α} {g : α → Except EncodingFault β}

theorem faultyIn_pure (a : α) : FaultyIn ws (pure a) := nofun

theorem faultyIn_toText {w : Wording} (hw : w ∈ ws) : FaultyIn ws w.toText := fun _ h => ⟨w, hw, h⟩

theorem FaultyIn.bind (hx : FaultyIn ws x) (hg : ∀ a, FaultyIn ws (g a)) :
    FaultyIn ws (x >>= g) := by
  intro fault h
  cases x with
  | error e =>
    cases h
    exact hx fault rfl
  | ok a => exact hg a fault h

theorem faultyIn_option {w? : Option Wording} (hws : w?.toList ⊆ ws) :
    FaultyIn ws (w?.mapM Wording.toText) := by
  cases w? with
  | none => exact faultyIn_pure none
  | some w => exact (faultyIn_toText (hws (by simp))).bind fun _ => faultyIn_pure _

theorem faultyIn_mapM {l : List α} (h : ∀ a ∈ l, FaultyIn ws (g a)) : FaultyIn ws (l.mapM g) := by
  induction l with
  | nil => exact faultyIn_pure []
  | cons a l ih =>
    rw [List.mapM_cons]
    refine (h a List.mem_cons_self).bind fun b => ?_
    exact (ih fun c hc => h c (List.mem_cons_of_mem a hc)).bind fun _ => faultyIn_pure _

theorem faultyIn_definition {a : AliasRequest} (hws : a.strings ⊆ ws) :
    FaultyIn ws a.definition :=
  (faultyIn_toText (hws (by simp [AliasRequest.strings]))).bind fun _ =>
    (faultyIn_toText (hws (by simp [AliasRequest.strings]))).bind fun _ =>
      (faultyIn_option (fun w hw => hws (by simp [AliasRequest.strings, hw]))).bind fun _ =>
        faultyIn_pure _

theorem faultyIn_insertion {new : NewAliases} {name : Wording} (hname : name ∈ ws)
    (has : new.aliases.flatMap AliasRequest.strings ⊆ ws)
    (hattribution : new.attribution.toList ⊆ ws) :
    FaultyIn ws (addAliases.insertion s new name new.aliases) := by
  refine (faultyIn_toText hname).bind fun _ =>
    FaultyIn.bind (faultyIn_mapM fun a ha => ?_) fun _ => ?_
  · exact faultyIn_definition fun w hw => has (List.mem_flatMap.2 ⟨a, ha, hw⟩)
  · exact (faultyIn_option hattribution).bind fun _ => faultyIn_pure _

end FaultyIn

/-! ### Requests that write -/

section Writing

variable (hinfo : f.askInfo ∈ accesses)
include hinfo

/-- What writes fails with failures that are settled, unless there is no slot for the backup. -/
theorem endsWell_of_settledOrSlot {x : StoreOperation α} {k : α → ServiceOperation Response}
    (hx : FailsWith f.SettledOrSlot x)
    (hok : ∀ a u, EndsWell true ws accesses (k a u)) :
    EndsWell true ws accesses ((onStore x >>= k) v) := by
  refine endsWell_bind (fun e u h => ?_) fun a u _ => hok a u
  obtain ⟨w, hw, rfl⟩ := onStore_eq_error.1 h
  rcases hx _ _ _ hw with he | he
  · exact he.imp_right (.path rfl)
  · exact .inr (.access hinfo (bind_of_error he) (.inl (RcFile.faults_slot f _ _ _ he)))

theorem endsWell_writeChecked {x : Except EncodingFault Text}
    {k : Option Path → ServiceOperation Response}
    (hx : ∀ fault, x = .error fault → ∃ w ∈ ws, w.toText = .error fault)
    (hok : ∀ a u, EndsWell true ws accesses (k a u)) :
    EndsWell true ws accesses ((onStore (f.writeChecked x) >>= k) v) := by
  cases x with
  | ok t => exact endsWell_of_settledOrSlot hinfo (RcFile.failsWith_write f t) hok
  | error fault =>
    obtain ⟨w, hw, htext⟩ := hx fault rfl
    refine endsWell_bind (fun e u h => ?_) fun a u _ => hok a u
    obtain ⟨u, hu, rfl⟩ := onStore_eq_error.1 h
    rcases RcFile.failsWith_writeChecked f _ _ _ _ hu with (he | he) | he
    · exact he.imp_right (.path rfl)
    · exact .inr (.access hinfo (bind_of_error he) (.inl (RcFile.faults_slot f _ _ _ he)))
    · cases he
      exact .inr (.string hw htext)

variable (hpath : f.askPath ∈ accesses)
include hpath

theorem endsWell_replaceContent {content : Wording} (hw : content ∈ ws) :
    EndsWell true ws accesses (replaceContent env s f content v) := by
  refine endsWell_of_readFails (RcFile.failsWith_readOrEmpty f) hpath fun t u _ => ?_
  refine endsWell_writeChecked hinfo (fun fault h => ⟨content, hw, h⟩) fun _ _ => ?_
  exact endsWell_textOf hw fun _ _ =>
    endsWell_backupInfo hinfo fun _ _ => Response.IsRegular.success _

theorem endsWell_edited {edit : Text → Except EditError EditResult}
    {details : EditResult → List (String × Json)} :
    EndsWell true ws accesses (edited env s f edit details v) := by
  refine endsWell_of_readFails (RcFile.failsWith_read f) hpath fun t u _ => ?_
  exact endsWell_of_settledOrSlot hinfo (RcFile.failsWith_edit f edit) fun _ _ =>
    endsWell_changed hinfo

theorem endsWell_add {e : Text → Except EditError InsertResult} :
    EndsWell true ws accesses (addAliases.add env s f e v) := by
  refine endsWell_of_readFails (RcFile.failsWith_readOrEmpty f) hpath fun t u _ => ?_
  exact endsWell_of_settledOrSlot hinfo (RcFile.failsWith_insert f e) fun _ _ =>
    endsWell_changed hinfo

theorem endsWell_refuse {as : List AliasRequest} {fault : EncodingFault} {w : Wording} (hw : w ∈ ws)
    (hfault : w.toText = .error fault) :
    EndsWell true ws accesses (addAliases.refuse f as fault v) := by
  refine endsWell_of_readFails (RcFile.failsWith_readOrEmpty f) hpath fun t u _ => ?_
  cases as.find? fun a => !a.isNamed with
  | some a => exact Response.IsRegular.refused _ _ (.inl rfl)
  | none =>
    refine endsWell_writeChecked hinfo (fun fault' h => ?_) fun _ _ => .inr (.string hw hfault)
    cases h
    exact ⟨w, hw, hfault⟩

theorem endsWell_addAliases {new : NewAliases} (hws : new.strings ⊆ ws) :
    EndsWell true ws accesses (addAliases env s f new v) := by
  have hrefuse : ∀ {β : Type} {x : Except EncodingFault β} {as fault}, FaultyIn ws x →
      x = .error fault → EndsWell true ws accesses (addAliases.refuse f as fault v) := by
    intro β x as fault hx h
    obtain ⟨w, hw, hfault⟩ := hx fault h
    exact endsWell_refuse hinfo hpath hw hfault
  obtain ⟨name?, as, attribution⟩ := new
  have hsub : as.flatMap AliasRequest.strings ⊆ ws := fun w hw =>
    hws (by simp only [NewAliases.strings, List.mem_append]; exact .inl (.inr hw))
  cases name? with
  | some name =>
    have hx : FaultyIn ws (addAliases.insertion s ⟨some name, as, attribution⟩ name as) :=
      faultyIn_insertion (hws (by simp [NewAliases.strings])) hsub fun w hw =>
        hws (by simp only [NewAliases.strings, List.mem_append]; exact .inr hw)
    unfold addAliases
    dsimp only
    cases he : addAliases.insertion s ⟨some name, as, attribution⟩ name as with
    | error fault => exact hrefuse hx he
    | ok e => exact endsWell_add hinfo hpath
  | none =>
    rcases as with - | ⟨a, - | ⟨b, as⟩⟩
    · exact Response.IsRegular.refused _ _ (.inl rfl)
    · have hx : FaultyIn ws a.definition := faultyIn_definition fun w hw => hsub (by simpa using hw)
      unfold addAliases
      dsimp only
      cases he : a.definition with
      | error fault => exact hrefuse hx he
      | ok a => exact endsWell_add hinfo hpath
    · exact Response.IsRegular.refused _ _ (.inl rfl)

end Writing

/-! ### Requests about the backup -/

theorem endsWell_backup (hinfo : f.askInfo ∈ accesses) :
    EndsWell writes ws accesses (backup env f v) :=
  endsWell_backupInfo hinfo fun _ _ => Response.IsRegular.success _

theorem endsWell_backupDiff
    (hread : (do let _ ← (← f.slot).read : FileOperation Unit) ∈ accesses)
    (hpath : f.askPath ∈ accesses) (hinfo : f.askInfo ∈ accesses) :
    EndsWell writes ws accesses (backupDiff env s f v) := by
  refine endsWell_bind (fun e u h => ?_) fun slot u hslot => ?_
  · obtain ⟨rfl, hslot⟩ := onFiles_eq_error_of_keeps (RcFile.keeps_slot f) h
    exact .inr (.access hinfo (bind_of_error hslot) (.inl (RcFile.faults_slot f _ _ _ hslot)))
  · obtain ⟨rfl, hslot⟩ := onFiles_eq_ok_of_keeps (RcFile.keeps_slot f) hslot
    refine endsWell_bind (fun e w h => ?_) fun old? w h => ?_
    · obtain ⟨rfl, hold⟩ := onFiles_eq_error_of_keeps (BackupSlot.keeps_read slot) h
      exact .inr (.access hread ((bind_of_ok hslot).trans (bind_of_error hold))
        (BackupSlot.failsWith_read slot _ _ _ hold))
    · obtain ⟨rfl, -⟩ := onFiles_eq_ok_of_keeps (BackupSlot.keeps_read slot) h
      cases old? with
      | none => exact .inl (.noBackup _)
      | some old =>
        refine endsWell_of_readFails (RcFile.failsWith_readOrEmpty f) hpath fun t w hw => ?_
        -- reading the file leaves the files, so the slot is the same
        rw [← (RcFile.keeps_readOrEmpty f).of_ok hw] at hslot
        refine endsWell_bind (fun e u h => ?_) fun _ _ _ => Response.IsRegular.success _
        obtain ⟨rfl, hfails⟩ := onFiles_eq_error_of_keeps (BackupSlot.keeps_info slot) h
        exact .inr (.access hinfo ((bind_of_ok hslot).trans (bind_of_error hfails))
          (.inl (BackupSlot.faults_info slot _ _ _ hfails)))

theorem endsWell_restore : EndsWell true ws accesses (restore f v) := by
  refine endsWell_bind (fun e u h => absurd h attempt_ne_error) fun r u hr => ?_
  rcases attempt_eq_ok.1 hr with ⟨a, rfl, -⟩ | ⟨e, rfl, he⟩
  · exact Response.IsRegular.success _
  · obtain ⟨w, hw, rfl⟩ := onStore_eq_error.1 he
    rcases RcFile.failsWith_restoreBackup f _ _ _ hw with hfault | hexplained
    · cases hfault with
      | system g => exact Response.IsRegular.refused _ _ (.inr rfl)
      | unusable h => cases h <;> exact .inr (.path rfl (by constructor))
    · cases hexplained <;> exact .inl (by constructor)

theorem endsWell_deleteBackup
    (hdelete : (do (← f.slot).delete : FileOperation Unit) ∈ accesses) :
    EndsWell writes ws accesses (deleteBackup f v) := by
  refine endsWell_bind (fun e u h => ?_) fun slot u hslot => ?_
  · obtain ⟨rfl, hslot⟩ := onFiles_eq_error_of_keeps (RcFile.keeps_slot f) h
    exact .inr (.access hdelete (bind_of_error hslot) (.inl (RcFile.faults_slot f _ _ _ hslot)))
  · obtain ⟨rfl, hslot⟩ := onFiles_eq_ok_of_keeps (RcFile.keeps_slot f) hslot
    refine endsWell_bind (fun e w h => ?_) fun _ _ _ => Response.IsRegular.success _
    obtain ⟨w, hw, rfl⟩ := onStore_eq_error.1 h
    obtain ⟨t, ht, rfl⟩ := StoreOperation.onFiles_eq_error.1 hw
    obtain ⟨rfl, hfault | rfl⟩ := BackupSlot.delete_eq_error ht
    · exact .inr (.access hdelete ((bind_of_ok hslot).trans ht) (.inl hfault))
    · exact .inl (.noBackup _)

/-! ### All requests -/

variable {r : Request} {name : Text} {route : Route} {v₁ : Service}

theorem withFile_of_managed (hm : managed env v = .ok (s, f) v₁)
    (k : Settings → RcFile → ServiceOperation Response) : withFile env k v = k s f v₁ := by
  rw [withFile_eq, bind_of_ok hm]

theorem endsWell_ofBody (hm : managed env v = .ok (s, f) v₁)
    {check : List (Text × Json) → Checked α}
    {k : Settings → RcFile → α → ServiceOperation Response}
    (h : ∀ a, bodyOf? env r check = some a → EndsWell writes ws accesses (k s f a v₁)) :
    EndsWell writes ws accesses ((withBody env r fun b => withFile env fun s f =>
      accept (bodyRecord check b) (k s f)) v) := by
  refine endsWell_withBody fun b hb => ?_
  rw [withFile_of_managed hm]
  refine endsWell_accept fun a ha => h a ?_
  unfold bodyOf?
  rw [hb]
  dsimp only
  rw [ha]

theorem endsWell_run (hm : managed env v = .ok (s, f) v₁) (hroute : route.isOfFile = true) :
    EndsWell route.isOfWrite (strings env r route) (f.unguarded route)
      (run env r name route v) := by
  have hfile : ∀ {k : Settings → RcFile → ServiceOperation Response},
      EndsWell route.isOfWrite (strings env r route) (f.unguarded route) (k s f v₁) →
        EndsWell route.isOfWrite (strings env r route) (f.unguarded route) (withFile env k v) :=
    fun h => by rwa [withFile_of_managed hm]
  cases route with
  | health | settings | updateSettings | description => cases hroute
  | entries => exact hfile (endsWell_accept fun _ _ => endsWell_entries List.mem_cons_self)
  | sections => exact hfile (endsWell_sections List.mem_cons_self)
  | duplicates => exact hfile (endsWell_accept fun _ _ => endsWell_duplicates List.mem_cons_self)
  | format => exact hfile (endsWell_accept fun _ _ => endsWell_format List.mem_cons_self)
  | preview =>
    refine endsWell_ofBody hm fun w hw => endsWell_preview List.mem_cons_self ?_
    simp [strings, hw]
  | content =>
    refine endsWell_ofBody hm fun w hw => endsWell_replaceContent ?_ List.mem_cons_self ?_
    · exact List.mem_cons_of_mem _ List.mem_cons_self
    · simp [strings, hw]
  | aliases =>
    refine endsWell_ofBody hm fun new hnew => endsWell_addAliases ?_ List.mem_cons_self ?_
    · exact List.mem_cons_of_mem _ List.mem_cons_self
    · simp [strings, hnew]
  | toggle | remove =>
    rw [run_eq_edited r name (by simp)]
    refine hfile (endsWell_accept fun _ _ => endsWell_edited ?_ List.mem_cons_self)
    exact List.mem_cons_of_mem _ List.mem_cons_self
  | backup => exact hfile (endsWell_backup List.mem_cons_self)
  | backupDiff =>
    refine hfile (endsWell_backupDiff List.mem_cons_self ?_ ?_) <;> simp [RcFile.unguarded]
  | restore => exact hfile endsWell_restore
  | deleteBackup => exact hfile (endsWell_deleteBackup List.mem_cons_self)

/-- **Failures are told.** A request about the managed file or its backup, once the file is found,
has an answer that was meant, or it fails with a failure that is told in words. The exceptions are
failures that escape: a string of the body that has no bytes, a path that cannot be used in the
course of a write, and an access to the file or its backup that the request makes without looking
after all of its failures and that fails in the state that is left. -/
theorem failures_told (env : Environment) (r : Request) (v : Service) (route : Route) (name : Text)
    (s : Settings) (f : RcFile) (v₁ : Service) (hfind : Route.find r = .ok (route, name))
    (hroute : route.isOfFile = true) (hm : managed env v = .ok (s, f) v₁) :
    (∃ a v', respond env r v = .ok a v' ∧ answer env r v = (a, v') ∧ a.IsRegular) ∨
    ∃ e v', respond env r v = .error e v' ∧ answer env r v = (.ofFailure e, v') ∧
      (e.IsTold ∨ Escapes route.isOfWrite (strings env r route) (f.unguarded route) e v') := by
  have hrespond : respond env r = run env r name route := by
    unfold respond
    rw [hfind]
  have hends : EndsWell route.isOfWrite (strings env r route) (f.unguarded route)
      (respond env r v) := by
    rw [hrespond]
    exact endsWell_run hm hroute
  unfold answer
  cases hrun : respond env r v with
  | ok a v' =>
    rw [hrun] at hends
    exact .inl ⟨a, v', rfl, rfl, hends⟩
  | error e v' =>
    rw [hrun] at hends
    exact .inr ⟨e, v', rfl, rfl, hends.imp_left IsExplained.isTold⟩

/-- A request to a path, with no more than a method. -/
def plainRequest (method path : String) : Request :=
  { method := method.toList, path := path.toList }

/-- The service of a file that declares the alias `a`, with something in the slot of its backup. -/
def serviceWithBackup (n : Node) : Service := sampleService [([".zshrc.bak".toList], n)]

def sampleSlot : BackupSlot := ⟨sampleFile.path, .ofText "/.zshrc.bak".toList⟩

theorem managed_withBackup (n : Node) : managed sampleEnvironment (serviceWithBackup n) =
    .ok ({}, sampleFile) (serviceWithBackup n) := by
  have hsettings : currentSettings sampleEnvironment (serviceWithBackup n) =
      .ok {} (serviceWithBackup n) := by cbv
  have htarget : ({} : Settings).target? sampleEnvironment.homeOf = some sampleFile.path := rfl
  unfold managed rcFile target
  rw [bind_of_ok hsettings, htarget]
  rfl

theorem slot_withBackup (n : Node) : sampleFile.slot (serviceWithBackup n).store.files =
    .ok sampleSlot (serviceWithBackup n).store.files := by cbv

/-- A request to remove the backup when there is none fails, and the client is told. -/
theorem failures_told_noBackup :
    (Route.find (plainRequest "DELETE" "/api/backup") = .ok (.deleteBackup, []) ∧
      managed sampleEnvironment sampleService = .ok ({}, sampleFile) sampleService) ∧
    ∃ e v', respond sampleEnvironment (plainRequest "DELETE" "/api/backup") sampleService =
        .error e v' ∧
      answer sampleEnvironment (plainRequest "DELETE" "/api/backup") sampleService =
        (.ofFailure e, v') ∧
      (e.IsTold ∨ Escapes false [] [do (← sampleFile.slot).delete] e v') := by
  have hslot : sampleFile.slot sampleService.store.files =
      .ok sampleSlot sampleService.store.files := by cbv
  have hdelete : sampleSlot.delete sampleService.store.files =
      .error (.noBackup sampleSlot.backup) sampleService.store.files := by cbv
  have hrespond : respond sampleEnvironment (plainRequest "DELETE" "/api/backup") sampleService =
      .error (.noBackup sampleSlot.backup) sampleService :=
    (withFile_of_managed managed_sample _).trans <|
      (bind_of_ok (onFiles_of_ok hslot)).trans (bind_of_error (onFiles_of_error hdelete))
  refine ⟨⟨rfl, managed_sample⟩, ?_⟩
  rcases failures_told sampleEnvironment (plainRequest "DELETE" "/api/backup") sampleService
    .deleteBackup [] {} sampleFile sampleService rfl rfl managed_sample with ⟨a, v', h, -⟩ | h
  · rw [hrespond] at h
    cases h
  · exact h

/-- A file of one byte that is no text. -/
def noText : Node := .file ⟨#[0xFF]⟩ .secret (.set 0)

theorem respond_backupDiff_noText :
    respond sampleEnvironment (plainRequest "GET" "/api/backup/diff") (serviceWithBackup noText) =
      .error .undecodable (serviceWithBackup noText) := by
  have hrespond : respond sampleEnvironment (plainRequest "GET" "/api/backup/diff") =
      run sampleEnvironment (plainRequest "GET" "/api/backup/diff") [] .backupDiff := rfl
  have hread : sampleSlot.read (serviceWithBackup noText).store.files =
      .error .undecodable (serviceWithBackup noText).store.files := by cbv
  rw [hrespond]
  refine (withFile_of_managed (managed_withBackup noText) _).trans ?_
  exact (bind_of_ok (onFiles_of_ok (slot_withBackup noText))).trans
    (bind_of_error (onFiles_of_error hread))

theorem respond_deleteBackup_directory :
    respond sampleEnvironment (plainRequest "DELETE" "/api/backup")
        (serviceWithBackup (.dir .directory)) =
      .error (.system ⟨.isDirectory, sampleSlot.backup, none⟩)
        (serviceWithBackup (.dir .directory)) := by
  have hrespond : respond sampleEnvironment (plainRequest "DELETE" "/api/backup") =
      run sampleEnvironment (plainRequest "DELETE" "/api/backup") [] .deleteBackup := rfl
  have hdelete : sampleSlot.delete (serviceWithBackup (.dir .directory)).store.files =
      .error (.system ⟨.isDirectory, sampleSlot.backup, none⟩)
        (serviceWithBackup (.dir .directory)).store.files := by cbv
  rw [hrespond]
  refine (withFile_of_managed (managed_withBackup _) _).trans ?_
  exact (bind_of_ok (onFiles_of_ok (slot_withBackup _))).trans
    (bind_of_error (onFiles_of_error hdelete))

/-- A backup that is no text cannot be compared, and what stands in the slot without being a file
cannot be removed: both failures escape, though the file itself can be read. -/
theorem failures_escape :
    (let r := plainRequest "GET" "/api/backup/diff"
      let v := serviceWithBackup noText
      Route.find r = .ok (.backupDiff, []) ∧ managed sampleEnvironment v = .ok ({}, sampleFile) v ∧
        respond sampleEnvironment r v = .error .undecodable v ∧
        answer sampleEnvironment r v = (.broken, v)) ∧
    (let r := plainRequest "DELETE" "/api/backup"
      let v := serviceWithBackup (.dir .directory)
      Route.find r = .ok (.deleteBackup, []) ∧
        managed sampleEnvironment v = .ok ({}, sampleFile) v ∧
        respond sampleEnvironment r v =
          .error (.system ⟨.isDirectory, .ofText "/.zshrc.bak".toList, none⟩) v ∧
        answer sampleEnvironment r v = (.broken, v)) := by
  refine ⟨⟨rfl, managed_withBackup _, respond_backupDiff_noText, ?_⟩,
    ⟨rfl, managed_withBackup _, respond_deleteBackup_directory, ?_⟩⟩
  · unfold answer
    rw [respond_backupDiff_noText]
    rfl
  · unfold answer
    rw [respond_deleteBackup_directory]
    rfl

end Service
end ShellConfig
