import ShellConfig.Proofs.Diff.Script
import ShellConfig.Proofs.Service.History

/-!
# Answers to changes

A request that changes the managed file reads it, replaces it behind a backup, and answers with a
difference. Main statements: `run_changes`, what such a request reads and writes; and
`change_told`, that the difference leads from the text in the backup to the text that is now in the
file, after any history.
-/

namespace ShellConfig

open Operation FileOperation FileTree

/-- A member of the body of an answer. -/
def Response.member? (a : Response) (key : String) : Option Json :=
  match a.body with
  | .object ms => Json.member? key.toList ms
  | _ => none

theorem Response.member?_record (ms : List (String × Json)) (key : String) :
    (Response.ok (Json.record ms)).member? key =
      (ms.reverse.find? fun m => m.1 == key).map (·.2) := by
  have hkey : (fun m : Text × Json => m.1 == key.toList) ∘ (fun m => (m.1.toList, m.2)) =
      fun m : String × Json => m.1 == key := by
    funext m
    rw [Function.comp_apply, Bool.eq_iff_iff, beq_iff_eq, beq_iff_eq, String.toList_inj]
  simp only [Response.member?, Response.ok, Json.record, Json.member?, ← List.map_reverse,
    List.find?_map, hkey, Option.map_map]
  rfl

theorem Response.ofFailure_status_ne (e : Failure) : (Response.ofFailure e).status ≠ 200 := by
  unfold Response.ofFailure
  split <;> simp [Response.refused, Response.broken]

theorem Response.rejected_status_ne (issues : List Issue) :
    (Response.rejected issues).status ≠ 200 := by
  unfold Response.rejected
  split <;> simp [Response.broken]

/-- Whether a route is one by which a client changes the text of the file. -/
def Route.isOfChange : Route → Bool
  | .content | .aliases | .toggle | .remove => true
  | _ => false

namespace Service

variable {α : Type} {env : Environment} {s : Settings} {f : RcFile} {v v' v₁ : Service}
  {a : Response} {before after : Text} {q : Place} {k : Node}

/-! ### What requests read and write -/

/-- A request reads the text `before`, replaces it by `after`, and answers with the difference. -/
structure Changes (s : Settings) (f : RcFile) (v v' : Service) (a : Response)
    (before after : Text) : Prop where
  read : ∃ w, f.read v.store = .ok before w
  write : ∃ w r w', w.files = v.store.files ∧ f.write after w = .ok r w' ∧
    v'.store.files = w'.files
  diff : a.member? "diff" = some (Diff.between before after s.contextLines).toJson

theorem backupInfo_eq_ok {j : Json} (h : backupInfo env f v = .ok j v') : v' = v := by
  obtain ⟨i, w, honFiles, hpure⟩ := bind_eq_ok.1 h
  cases hpure
  exact (onFiles_eq_ok_of_keeps
    ((RcFile.keeps_slot f).bind fun slot => BackupSlot.keeps_info slot) honFiles).1

theorem changed_eq_ok {message : Text} {details : List (String × Json)}
    (h : changed env s f before after message details v = .ok a v') :
    v' = v ∧ ∃ j, a = .ok (Json.record
      ([("path", .text f.path.text), ("message", .text message),
        ("diff", (Diff.between before after s.contextLines).toJson), ("backup", j)] ++
          details)) := by
  obtain ⟨j, u, hinfo, hpure⟩ := bind_eq_ok.1 h
  obtain rfl := backupInfo_eq_ok hinfo
  cases hpure
  exact ⟨rfl, j, rfl⟩

theorem changes_replaceContent {content : Wording} (hf : v.store.files.find f.path = .ok (q, k))
    (h : replaceContent env s f content v = .ok a v') :
    ∃ before after, Changes s f v v' a before after := by
  obtain ⟨before, v₁, honStore, hrest⟩ := bind_eq_ok.1 h
  obtain ⟨w, hread, rfl⟩ := onStore_eq_ok.1 honStore
  obtain ⟨r, v₂, honStore', hrest⟩ := bind_eq_ok.1 hrest
  obtain ⟨w', hwrite, rfl⟩ := onStore_eq_ok.1 honStore'
  obtain ⟨after, v₃, htext, hrest⟩ := bind_eq_ok.1 hrest
  obtain ⟨j, v₄, hinfo, hpure⟩ := bind_eq_ok.1 hrest
  obtain rfl := backupInfo_eq_ok hinfo
  cases hpure
  unfold textOf at htext
  cases hcontent : content.toText with
  | error fault =>
    rw [hcontent] at htext
    cases htext
  | ok t =>
    rw [hcontent] at htext hwrite
    cases htext
    refine ⟨before, after, ⟨w, RcFile.read_of_readOrEmpty hf hread⟩, ?_, ?_⟩
    · exact ⟨w, r, w', (RcFile.keeps_readOrEmpty f).of_ok hread, hwrite, rfl⟩
    · simp [Response.member?_record]

theorem changes_add {e : Text → Except EditError InsertResult}
    (hf : v.store.files.find f.path = .ok (q, k))
    (h : addAliases.add env s f e v = .ok a v') :
    ∃ before after, Changes s f v v' a before after := by
  obtain ⟨before, v₁, honStore, hrest⟩ := bind_eq_ok.1 h
  obtain ⟨w, hread, rfl⟩ := onStore_eq_ok.1 honStore
  obtain ⟨x, v₂, honStore', hrest⟩ := bind_eq_ok.1 hrest
  obtain ⟨w', hinsert, rfl⟩ := onStore_eq_ok.1 honStore'
  obtain ⟨rfl, j, rfl⟩ := changed_eq_ok hrest
  obtain ⟨t, w₁, r, hagain, -, hwrite⟩ := RcFile.insert_eq_ok hinsert
  have hkeeps := RcFile.keeps_readOrEmpty f
  refine ⟨before, x.content, ⟨w, RcFile.read_of_readOrEmpty hf hread⟩, ?_, ?_⟩
  · exact ⟨w₁, r, w', (hkeeps.of_ok hagain).trans (hkeeps.of_ok hread), hwrite, rfl⟩
  · simp [Response.member?_record]

theorem refuse_status_ne {as : List AliasRequest} {fault : EncodingFault}
    (h : addAliases.refuse f as fault v = .ok a v') : a.status ≠ 200 := by
  obtain ⟨t, v₁, -, hrest⟩ := bind_eq_ok.1 h
  cases hnamed : as.find? fun a => !a.isNamed with
  | some b =>
    rw [hnamed] at hrest
    cases hrest
    simp [Response.refused]
  | none =>
    rw [hnamed] at hrest
    obtain ⟨r, v₂, -, hthrow⟩ := bind_eq_ok.1 hrest
    cases hthrow

theorem changes_addAliases {new : NewAliases} (hf : v.store.files.find f.path = .ok (q, k))
    (h : addAliases env s f new v = .ok a v') (hstatus : a.status = 200) :
    ∃ before after, Changes s f v v' a before after := by
  obtain ⟨name?, as, attribution⟩ := new
  unfold addAliases at h
  dsimp only at h
  cases name? with
  | some name =>
    dsimp only at h
    cases he : addAliases.insertion s ⟨some name, as, attribution⟩ name as with
    | error fault =>
      rw [he] at h
      exact absurd hstatus (refuse_status_ne h)
    | ok e =>
      rw [he] at h
      exact changes_add hf h
  | none =>
    rcases as with - | ⟨b, - | ⟨c, as⟩⟩
    · cases h
      cases hstatus
    · dsimp only at h
      cases he : b.definition with
      | error fault =>
        rw [he] at h
        exact absurd hstatus (refuse_status_ne h)
      | ok b =>
        rw [he] at h
        exact changes_add hf h
    · cases h
      cases hstatus

theorem member?_changed (ms : List (String × Json)) (x : EditResult) :
    (Response.ok (Json.record (ms ++ editDetails x .toggle))).member? "changed" =
      some (.bool x.changed) := by
  simp [Response.member?_record, editDetails]

/-- An edit that changes something reads at the end what it has written. -/
theorem changes_edited {edit : Text → Except EditError EditResult} {route : Route}
    (h : edited env s f edit (editDetails · route) v = .ok a v')
    (hroute : route = .toggle ∧ a.member? "changed" = some (.bool true) ∨
      route = .remove ∧ ∀ t x, edit t = .ok x → x.changed = true) :
    ∃ before after, Changes s f v v' a before after ∧ ∃ w, f.read w = .ok after v'.store := by
  obtain ⟨before, v₁, honStore, hrest⟩ := bind_eq_ok.1 h
  obtain ⟨w, hread, rfl⟩ := onStore_eq_ok.1 honStore
  obtain ⟨x, v₂, honStore', hrest⟩ := bind_eq_ok.1 hrest
  obtain ⟨w', hedit, rfl⟩ := onStore_eq_ok.1 honStore'
  obtain ⟨rfl, j, rfl⟩ := changed_eq_ok hrest
  obtain ⟨t, w₁, hagain, he, hwrites⟩ := RcFile.edit_writes hedit
  have hchanged : x.changed = true := by
    rcases hroute with ⟨rfl, hmember⟩ | ⟨-, hall⟩
    · rw [member?_changed] at hmember
      simpa using hmember
    · exact hall t x he
  obtain ⟨r, w₂, hwrite, hlast⟩ := hwrites hchanged
  have hkeeps := RcFile.keeps_read f
  refine ⟨before, x.content, ⟨⟨w, hread⟩, ?_, ?_⟩, w₂, hlast⟩
  · exact ⟨w₁, r, w₂, (hkeeps.of_ok hagain).trans (hkeeps.of_ok hread), hwrite, hkeeps.of_ok hlast⟩
  · rcases hroute with ⟨rfl, -⟩ | ⟨rfl, -⟩ <;> simp [Response.member?_record, editDetails]

/-! ### Requests that change the file -/

variable {ts : List FileTree} {r : Request} {name : Text} {route : Route}

theorem bodyValue_eq_ok {b : Json} : bodyValue env r = .ok (some b) ↔ r.body ≠ [] ∧
    ∃ t, Json.decode? (Text.toBytes r.body) = some t ∧ Json.read env.bodyLimits t = .ok b := by
  unfold bodyValue
  rw [Ne, ← List.isEmpty_iff]
  cases r.body.isEmpty with
  | true => simp
  | false => cases Json.decode? (Text.toBytes r.body) with
    | none => simp
    | some t => cases hread : Json.read env.bodyLimits t <;> simp [hread]

theorem withBody_eq_ok {k : Option Json → ServiceOperation Response}
    (h : withBody env r k v = .ok a v') (hstatus : a.status = 200) :
    ∃ b, bodyValue env r = .ok b ∧ k b v = .ok a v' := by
  unfold withBody at h
  cases hb : bodyValue env r with
  | ok b =>
    rw [hb] at h
    exact ⟨b, rfl, h⟩
  | error a' =>
    rw [hb] at h
    cases h
    rcases bodyValue_eq_error hb with rfl | ⟨issues, rfl⟩
    · cases hstatus
    · exact absurd hstatus (Response.rejected_status_ne issues)

theorem accept_eq_ok {x : Checked α} {k : α → ServiceOperation Response}
    (h : accept x k v = .ok a v') (hstatus : a.status = 200) :
    ∃ y, x = .ok y ∧ k y v = .ok a v' := by
  cases x with
  | ok y => exact ⟨y, rfl, h⟩
  | bad issues =>
    cases h
    exact absurd hstatus (Response.rejected_status_ne issues)

theorem changed_of_delete {t key : Text} {kind : Kind} {limit : Int} {x : EditResult}
    (h : Edit.delete t kind key limit = .ok x) : x.changed = true := by
  unfold Edit.delete at h
  cases hlocate : Edit.locate t kind key limit with
  | error e =>
    rw [hlocate] at h
    cases h
  | ok y =>
    rw [hlocate] at h
    cases h
    rfl

theorem changed_of_remove {edit : Text → Except EditError EditResult} {t : Text} {x : EditResult}
    (hedit : requestedEdit r name s .remove = .ok edit) (h : edit t = .ok x) :
    x.changed = true := by
  unfold requestedEdit at hedit
  cases hchecked : (Prod.mk <$> pathKind name
      <*> parameter r "key".toList (.fail .missing .null) Json.asText) with
  | bad issues =>
    rw [hchecked] at hedit
    cases hedit
  | ok y =>
    rw [hchecked] at hedit
    cases hedit
    exact changed_of_delete h

/-- A request that has changed the file has read it, replaced it, and is answered with the
difference. Where it switches or removes an entry, it has read what it has written. -/
theorem run_changes (hm : managed env v = .ok (s, f) v₁)
    (hf : v₁.store.files.find f.path = .ok (q, k)) (hroute : route.isOfChange = true)
    (h : run env r name route v = .ok a v') (hstatus : a.status = 200)
    (htoggle : route = .toggle → a.member? "changed" = some (.bool true)) :
    ∃ before after, Changes s f v₁ v' a before after ∧
      (route = .toggle ∨ route = .remove → ∃ w, f.read w = .ok after v'.store) := by
  cases route with
  | content =>
    obtain ⟨b, -, h⟩ := withBody_eq_ok h hstatus
    rw [withFile_of_managed hm] at h
    obtain ⟨content, -, h⟩ := accept_eq_ok h hstatus
    obtain ⟨before, after, hchanges⟩ := changes_replaceContent hf h
    exact ⟨before, after, hchanges, by simp⟩
  | aliases =>
    obtain ⟨b, -, h⟩ := withBody_eq_ok h hstatus
    rw [withFile_of_managed hm] at h
    obtain ⟨new, -, h⟩ := accept_eq_ok h hstatus
    obtain ⟨before, after, hchanges⟩ := changes_addAliases hf h hstatus
    exact ⟨before, after, hchanges, by simp⟩
  | toggle =>
    rw [run_eq_edited r name (.inl rfl), withFile_of_managed hm] at h
    obtain ⟨edit, -, h⟩ := accept_eq_ok h hstatus
    obtain ⟨before, after, hchanges, hread⟩ := changes_edited h (.inl ⟨rfl, htoggle rfl⟩)
    exact ⟨before, after, hchanges, fun _ => hread⟩
  | remove =>
    rw [run_eq_edited r name (.inr rfl), withFile_of_managed hm] at h
    obtain ⟨edit, hedit, h⟩ := accept_eq_ok h hstatus
    obtain ⟨before, after, hchanges, hread⟩ :=
      changes_edited h (.inr ⟨rfl, fun _ _ => changed_of_remove hedit⟩)
    exact ⟨before, after, hchanges, fun _ => hread⟩
  | _ => cases hroute

theorem answer_of_respond (h : respond env r v = .ok a v') : answer env r v = (a, v') := by
  unfold answer
  rw [h]

/-- An answer of success is no failure. -/
theorem respond_of_answer (h : answer env r v = (a, v')) (hstatus : a.status = 200) :
    respond env r v = .ok a v' := by
  unfold answer at h
  cases hrespond : respond env r v with
  | ok b w =>
    rw [hrespond] at h
    cases h
    rfl
  | error e w =>
    rw [hrespond] at h
    cases h
    exact absurd hstatus (Response.ofFailure_status_ne e)

/-- **What an answer tells of a change.** After any history, a request that changes the text of a
file that is there and is answered with success has a difference in its answer. Without the added
lines it is the text that was in the file and is now in the slot of its backup, and without the
removed lines it is the text that is now in the file. The path of the file still leads to that text
where an entry was switched or removed, and else if it is no link or the backup took the place of
none on the way. -/
theorem change_told (env : Environment) (r : Request) (v : Service) (ts : List FileTree)
    (route : Route) (name : Text) (s : Settings) (f : RcFile) (v₁ : Service) (q : Place) (k : Node)
    (a : Response) (v' : Service) (hv : History env ts v)
    (hfind : Route.find r = .ok (route, name)) (hroute : route.isOfChange = true)
    (hm : managed env v = .ok (s, f) v₁) (wf : v₁.store.files.WellFormed)
    (hf : v₁.store.files.find f.path = .ok (q, k)) (hanswer : answer env r v = (a, v'))
    (hstatus : a.status = 200)
    (htoggle : route = .toggle → a.member? "changed" = some (.bool true))
    (hfresh : Fresh ts v.store.files v'.store.files) :
    ∃ (d : Diff) (before after : Text) (slot : BackupSlot) (p : Place),
      a.member? "diff" = some d.toJson ∧
      DiffLine.Tells (before.splitOn '\n') (after.splitOn '\n') d.lines ∧
      (∃ m st, v.heldFiles q = some (Text.toBytes before, m, st)) ∧
      f.IsReplaced v₁.store.files v'.store.files q before after slot p ∧
      (route = .toggle ∨ route = .remove →
        ∃ q' m st, v'.store.files.find f.path = .ok (q', .file (Text.toBytes after) m st)) := by
  have hrespond := respond_of_answer hanswer hstatus
  have hrun : run env r name route v = .ok a v' := by
    unfold respond at hrespond
    rwa [hfind] at hrespond
  have hheld : v₁.heldFiles = v.heldFiles := (keeps_managed env).of_ok hm
  have hfaithful : v₁.store.IsFaithful := by
    refine (hv.isTruthful.of_same ?_ hheld).isFaithful
    rw [← stateAfter_of_ok hm]
    exact recalls_of_seen (keeps_seen_managed env) v
  obtain ⟨before, after, hchanges, hlast⟩ := run_changes hm hf hroute hrun hstatus htoggle
  obtain ⟨w, hread⟩ := hchanges.read
  obtain ⟨w₁, b, w₂, hfiles, hwrite, hfiles'⟩ := hchanges.write
  obtain ⟨q', m, st, hq⟩ := RcFile.find_of_read hfaithful hread
  obtain ⟨rfl, -⟩ := Prod.mk.inj (Except.ok.inj (hf.symm.trans hq))
  rw [← hfiles] at wf hq
  obtain ⟨slot, p, hreplaced⟩ := RcFile.isReplaced_of_write wf hq hwrite
  rw [hfiles, ← hfiles'] at hreplaced
  refine ⟨_, before, after, slot, p, hchanges.diff, (DiffLine.isScript_walk 0 _ _).tells,
    ⟨m, st, ?_⟩, hreplaced, fun hroute => ?_⟩
  · rw [← hheld]
    exact file?_eq_some.2 (find_eq_ok_iff.1 (hfiles ▸ hq)).2
  obtain ⟨w, hw⟩ := hlast hroute
  obtain ⟨u, hagain⟩ := RcFile.read_again hw
  refine RcFile.find_of_read ?_ hagain
  refine (hv.isTruthful.step ?_ hfresh).isFaithful
  rw [← stateAfter_of_ok hrespond]
  exact recalls_respond env r v

def switchRequest : Request := { sampleRequest with query := [("key".toList, "a".toList)] }

theorem stamp_of_sample {x : Place × Node} {st : Stamp} (hx : x ∈ sampleService.store.files.nodes)
    (hst : RcFile.stampOf x.2 = some st) : st = .set 0 := by
  have hx' : x = ([], .dir .directory) ∨ x = ([".zshrc".toList],
      .file (Text.toBytes "alias a='1'".toList) .ordinary (.set 0)) := by
    simpa [sampleService, RcFile.sampleStore] using hx
  rcases hx' with rfl | rfl
  · cases hst
  · exact (Option.some.inj hst).symm

def switched : EditResult :=
  ⟨"# alias a='1'".toList, "Alias 'a' disabled".toList, 1, false, true⟩

def sampleSwitched : Service :=
  { sampleService with
    store := { sampleFile.afterWrite switched.content sampleRead with
      cache := ⟨[(sampleFile.path, .tick 3, switched.content)]⟩ } }

theorem edit_switched :
    sampleFile.edit (switchAlias ['a']) sampleRead = .ok switched sampleSwitched.store := by
  have hread : sampleFile.read sampleRead = .ok "alias a='1'".toList sampleRead := by cbv
  have hedit : switchAlias ['a'] "alias a='1'".toList = .ok switched := rfl
  have hwrite : sampleFile.write switched.content sampleRead =
      .ok (some (.ofText "/.zshrc.bak".toList))
        (sampleFile.afterWrite switched.content sampleRead) := by cbv
  have hagain : sampleFile.read (sampleFile.afterWrite switched.content sampleRead) =
      .ok switched.content sampleSwitched.store := by cbv
  refine (RcFile.edit_of_read hread hedit).trans ((bind_of_ok hwrite).trans ?_)
  rw [bind_of_ok hagain]
  rfl

theorem respond_switched : ∃ j, respond sampleEnvironment switchRequest sampleService =
    .ok (.ok (Json.record
      ([("path", .text sampleFile.path.text), ("message", .text switched.message),
        ("diff", (Diff.between "alias a='1'".toList switched.content 3).toJson), ("backup", j)] ++
        editDetails switched .toggle))) sampleSwitched := by
  obtain ⟨j, hbackup⟩ : ∃ j, backupInfo sampleEnvironment sampleFile sampleSwitched =
      .ok j sampleSwitched := ⟨_, by cbv⟩
  have hrespond : respond sampleEnvironment switchRequest =
      run sampleEnvironment switchRequest "alias".toList .toggle := rfl
  refine ⟨j, ?_⟩
  rw [hrespond, run_eq_edited _ _ (.inl rfl), withFile_of_managed managed_sample]
  refine (bind_of_ok (onStore_eq_ok.2 ⟨_, read_sample, rfl⟩)).trans ?_
  refine (bind_of_ok (onStore_eq_ok.2 ⟨_, edit_switched, rfl⟩)).trans ?_
  exact bind_of_ok hbackup

theorem fresh_switched :
    Fresh [sampleService.store.files] sampleService.store.files sampleSwitched.store.files := by
  refine fresh_of_nodes fun q b m st hq => .inr fun w hw x hx hst => ?_
  have hnodes : sampleSwitched.store.files.nodes =
    [([".zshrc".toList], .file (Text.toBytes switched.content) .ordinary (.tick 3)),
      ([".zshrc.bak".toList], .file (Text.toBytes "alias a='1'".toList) .secret (.tick 1)),
      ([], .dir .directory)] := by cbv
  obtain rfl := List.mem_singleton.1 hw
  obtain rfl := stamp_of_sample hx hst
  simp [hnodes] at hq

/-- Switching an alias: the difference, the backup and the file tell the same. -/
theorem change_told_switched :
    ∃ a v', answer sampleEnvironment switchRequest sampleService = (a, v') ∧ a.status = 200 ∧
      ∃ (d : Diff) (before after : Text) (slot : BackupSlot) (p : Place),
        a.member? "diff" = some d.toJson ∧
        DiffLine.Tells (before.splitOn '\n') (after.splitOn '\n') d.lines ∧
        (∃ m st, sampleService.heldFiles [".zshrc".toList] = some (Text.toBytes before, m, st)) ∧
        sampleFile.IsReplaced sampleService.store.files v'.store.files [".zshrc".toList] before
          after slot p ∧
        (Route.toggle = .toggle ∨ Route.toggle = .remove → ∃ q' m st,
          v'.store.files.find sampleFile.path = .ok (q', .file (Text.toBytes after) m st)) := by
  obtain ⟨j, hrespond⟩ := respond_switched
  have hanswer := answer_of_respond hrespond
  have hfind : Route.find switchRequest = .ok (.toggle, "alias".toList) := rfl
  have wf : sampleService.store.files.WellFormed := wellFormed_of_check (by decide)
  have hf : sampleService.store.files.find sampleFile.path = .ok ([".zshrc".toList],
      .file (Text.toBytes "alias a='1'".toList) .ordinary (.set 0)) := by cbv
  have htold := change_told sampleEnvironment switchRequest sampleService _ .toggle "alias".toList
    {} sampleFile sampleService _ _ _ sampleSwitched (.start _ rfl) hfind rfl managed_sample wf hf
    hanswer rfl (fun _ => member?_changed _ _)
  exact ⟨_, _, hanswer, rfl, htold fresh_switched⟩

/-- Settings that select a path. -/
def linkedSettings : Settings := { path := some (.text "/.zshrc.bak".toList) }

def linkedSettingsText : Text := "\x7b\"zshrc_path\":\"/.zshrc.bak\"\x7d".toList

/-- A service of a file that is reached through a link in the slot of its backup. -/
def linkedService : Service :=
  { sampleService [([".zshrc.bak".toList], .link ".zshrc".toList),
      (["config.json".toList],
        .file (Text.toBytes linkedSettingsText) .ordinary (.set 0))] with
    settings := some ⟨.ofText "/config.json".toList,
      linkedSettings⟩ }

/-- The file that is reached through the link. -/
def linkedFile : RcFile := { sampleFile with path := .ofText "/.zshrc.bak".toList }

def contentRequest : Request where
  method := "PUT".toList
  path := "/api/zshrc/content".toList
  body := "\x7b\"content\":\"new\"\x7d".toList

theorem load_linked :
    SettingsStore.load sampleEnvironment.settingsLimits (.ofText "/config.json".toList)
      linkedService.store.files = .ok linkedSettings linkedService.store.files := by
  have hexists : ask (.ofText "/config.json".toList) (·.exists? (.ofText "/config.json".toList))
      linkedService.store.files = .ok true linkedService.store.files := by cbv
  have hread : query (.ofText "/config.json".toList) (·.read (.ofText "/config.json".toList))
      linkedService.store.files =
        .ok (Text.toBytes linkedSettingsText) linkedService.store.files := by cbv
  have hparse : SettingsStore.parse sampleEnvironment.settingsLimits linkedSettingsText =
      .ok linkedSettings := by cbv
  unfold SettingsStore.load
  rw [bind_of_ok hexists, if_pos rfl, bind_of_ok (attempt_of_ok hread)]
  dsimp only
  rw [Text.ofBytes?_toBytes]
  dsimp only
  rw [hparse]
  rfl

theorem managed_linked :
    managed sampleEnvironment linkedService = .ok (linkedSettings, linkedFile) linkedService := by
  have hreload : SettingsStore.reload ⟨.ofText "/config.json".toList, linkedSettings⟩
      sampleEnvironment linkedService.store.files =
        .ok ⟨.ofText "/config.json".toList, linkedSettings⟩ linkedService.store.files := by
    unfold SettingsStore.reload
    rw [bind_of_ok load_linked]
    rfl
  have hsettings : currentSettings sampleEnvironment linkedService =
      .ok linkedSettings linkedService :=
    bind_of_ok (onFiles_of_ok hreload)
  have htarget : linkedSettings.target? sampleEnvironment.homeOf = some linkedFile.path := by
    decide +kernel
  unfold managed rcFile target
  rw [bind_of_ok hsettings, htarget]
  rfl

def linkedRead : Store :=
  { linkedService.store with cache := ⟨[(sampleFile.path, .set 0, "alias a='1'".toList)]⟩ }

def linkedReplaced : Service :=
  { linkedService with store := linkedFile.afterWrite "new".toList linkedRead }

theorem respond_linked : ∃ j, respond sampleEnvironment contentRequest linkedService =
    .ok (.ok (Json.record
      [("path", .text linkedFile.path.text),
        ("diff", (Diff.between "alias a='1'".toList "new".toList 3).toJson), ("backup", j)]))
      linkedReplaced := by
  have hread : linkedFile.readOrEmpty linkedService.store =
      .ok "alias a='1'".toList linkedRead := by cbv
  have hwrite : linkedFile.write "new".toList linkedRead =
      .ok (some (.ofText "/.zshrc.bak".toList)) linkedReplaced.store := by cbv
  obtain ⟨j, hbackup⟩ : ∃ j, backupInfo sampleEnvironment linkedFile linkedReplaced =
      .ok j linkedReplaced := ⟨_, by cbv⟩
  have hbody : bodyValue sampleEnvironment contentRequest =
      .ok (some (.object [("content".toList, .text "new".toList)])) := by
    have hdecode : Json.decode? (Text.toBytes contentRequest.body) = some contentRequest.body := by
      decide +kernel
    have hread : Json.read sampleEnvironment.bodyLimits contentRequest.body =
        .ok (.object [("content".toList, .text "new".toList)]) := by cbv
    exact bodyValue_eq_ok.2 ⟨List.cons_ne_nil _ _, _, hdecode, hread⟩
  have hcontent : bodyRecord contentOf (some (.object [("content".toList, .text "new".toList)])) =
      .ok (.text "new".toList) := by cbv
  refine ⟨j, ?_⟩
  have hrespond : respond sampleEnvironment contentRequest =
      run sampleEnvironment contentRequest [] .content := rfl
  rw [hrespond]
  unfold run withBody
  rw [hbody]
  dsimp only
  rw [withFile_of_managed managed_linked, hcontent]
  refine (bind_of_ok (onStore_eq_ok.2 ⟨_, hread, rfl⟩)).trans ?_
  refine (bind_of_ok (onStore_eq_ok.2 ⟨_, hwrite, rfl⟩)).trans ?_
  exact bind_of_ok hbackup

theorem fresh_linked :
    Fresh [linkedService.store.files] linkedService.store.files linkedReplaced.store.files := by
  refine fresh_of_nodes fun q b m st hq => ?_
  have hnodes : linkedReplaced.store.files.nodes =
    [([".zshrc".toList], .file (Text.toBytes "new".toList) .ordinary (.tick 3)),
      ([".zshrc.bak".toList], .file (Text.toBytes "alias a='1'".toList) .secret (.tick 1)),
      ([], .dir .directory),
      (["config.json".toList], .file (Text.toBytes linkedSettingsText) .ordinary (.set 0))] := by
    cbv
  have hsettings : linkedService.store.files.file? ["config.json".toList] =
      some (Text.toBytes linkedSettingsText, .ordinary, .set 0) := by cbv
  have hstamp : ∀ x ∈ linkedService.store.files.nodes, ∀ n,
      RcFile.stampOf x.2 ≠ some (.tick n) := by
    simp [linkedService, sampleService, RcFile.sampleStore, RcFile.stampOf]
  simp only [hnodes, List.mem_cons, Prod.mk.injEq, Node.file.injEq, List.not_mem_nil, or_false,
    reduceCtorEq, and_false, false_or] at hq
  rcases hq with ⟨-, -, -, rfl⟩ | ⟨-, -, -, rfl⟩ | ⟨rfl, rfl, rfl, rfl⟩
  · exact .inr fun w hw x hx => hstamp x (List.mem_singleton.1 hw ▸ hx) 3
  · exact .inr fun w hw x hx => hstamp x (List.mem_singleton.1 hw ▸ hx) 1
  · exact .inl hsettings

/-- Where the managed path is a link in the slot of the backup, it leads to the old text once the
content is replaced, though the answer tells of the new one. -/
theorem change_told_elsewhere :
    let v := linkedService
    let d := Diff.between "alias a='1'".toList "new".toList 3
    History sampleEnvironment [v.store.files] v ∧
      Route.find contentRequest = .ok (.content, []) ∧
      managed sampleEnvironment v = .ok (linkedSettings, linkedFile) v ∧
      v.store.files.WellFormed ∧
      v.store.files.find linkedFile.path = .ok ([".zshrc".toList],
        .file (Text.toBytes "alias a='1'".toList) .ordinary (.set 0)) ∧
      Fresh [v.store.files] v.store.files linkedReplaced.store.files ∧
      ∃ a, answer sampleEnvironment contentRequest v = (a, linkedReplaced) ∧ a.status = 200 ∧
        a.member? "diff" = some d.toJson ∧
        linkedReplaced.store.files.find linkedFile.path = .ok ([".zshrc.bak".toList],
          .file (Text.toBytes "alias a='1'".toList) .secret (.tick 1)) ∧
        (d.lines.filter (·.change ≠ .remove)).map (·.content) ≠
          Text.splitOn '\n' "alias a='1'".toList := by
  obtain ⟨j, hrespond⟩ := respond_linked
  have hlines := (DiffLine.isScript_walk 0 (Text.splitOn '\n' "alias a='1'".toList)
    (Text.splitOn '\n' "new".toList)).after
  refine ⟨.start _ rfl, rfl, managed_linked, wellFormed_of_check (by decide), by cbv, fresh_linked,
    _, answer_of_respond hrespond, rfl, by simp [Response.member?_record], by cbv, fun heq => ?_⟩
  cases Diff.eq_of_splitOn (hlines.symm.trans heq)

end Service
end ShellConfig
