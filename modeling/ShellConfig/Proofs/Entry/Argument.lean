import ShellConfig.Proofs.Entry.Declaration
import ShellConfig.Proofs.Entry.Sorted

/-!
# Arguments

Some entries record all that stands behind a command or an equals sign. Main statements:
`exists_beginsAs_of_mem`, what is recorded of such a line; `payloads_eq_nil_iff`, when nothing is;
and `ofKind_argument`, that what is recorded is trimmed where anything but blanks stands there, and
that blanks alone make an entry all the same.
-/

namespace ShellConfig

open Text

/-! ### Lines with an argument -/

namespace Kind

/-- The field for all that stands behind a command or an equals sign, for the kinds that record it.
-/
def argument? : Kind → Option Field
  | setopt => some .option
  | source => some .path
  | eval | keybinding => some .command
  | path | history => some .value
  | _ => none

/-- The words for the command that entries of a kind are arguments of. -/
def commandWords : Kind → List Text
  | setopt => ["setopt".toList]
  | source => ["source".toList, ['.']]
  | eval => ["eval".toList]
  | keybinding => ["bindkey".toList]
  | _ => []

/-- The ways in which a line begins that declares an entry of a kind, each with what follows. A
command ends with a blank, and before an equals sign there may be any. -/
inductive BeginsAs : Kind → Text → Text → Prop
  | command {k : Kind} {b w : Text} {c : Char} (r : Text) (hb : allBlank b = true)
      (hw : w ∈ k.commandWords) (hc : isBlank c = true) : BeginsAs k (b ++ (w ++ c :: r)) r
  | path {b b' : Text} (r : Text) (hb : allBlank b = true) (hb' : allBlank b' = true) :
      BeginsAs .path (b ++ ("PATH".toList ++ (b' ++ '=' :: r))) r
  | history {b n b' : Text} (r : Text) (hb : allBlank b = true)
      (hn : ∀ c ∈ n, Recognize.isHistoryChar c = true) (hb' : allBlank b' = true) :
      BeginsAs .history (b ++ ("HIST".toList ++ (n ++ (b' ++ '=' :: r)))) r

theorem ne_plugin_of_argument? {k : Kind} {f : Field} (hk : k.argument? = some f) :
    k ≠ .plugin := by
  rintro rfl
  cases hk

end Kind

theorem Text.Says.isTrimmed_iff {r w : Text} (h : Says r w) :
    IsTrimmed w ↔ allBlank r = false := by
  cases h with
  | content hb hw hb' =>
    rw [allBlank_append, allBlank_append, hw.said, Bool.false_and, Bool.and_false]
    exact ⟨fun _ => rfl, fun _ => hw⟩
  | @blank b c hb hc =>
    have hsaid : allBlank [c] = true := by rw [allBlank_cons, hc]; rfl
    rw [allBlank_append, hb, hsaid]
    constructor
    · intro hw
      rw [hw.said] at hsaid
      cases hsaid
    · intro h
      cases h

namespace Recognize

variable {b r t w x : Text} {c : Char} {f : Field} {k : Kind} {p : Payload}

/-! ### Commands -/

theorem argument?_eq_some_iff :
    argument? t = some x ↔ ∃ c r, isBlank c = true ∧ t = c :: r ∧ content? r = some x := by
  cases t with
  | nil => simp [argument?]
  | cons c r =>
    rw [argument?]
    split
    · next hc => simp [hc]
    · next hc => simp [hc]

theorem argument?_cons (hc : isBlank c = true) (r : Text) : argument? (c :: r) = content? r :=
  if_pos hc

theorem command?_append (hw : (w.head?.any fun c => !isBlank c) = true) (hb : allBlank b = true)
    (hc : isBlank c = true) (r : Text) : command? w (b ++ (w ++ c :: r)) = content? r := by
  unfold command?
  rw [(after?_trimLeft_eq_some_iff hw).2 ⟨b, hb, rfl⟩, Option.bind_some, argument?_cons hc]

theorem exists_of_command? (hw : (w.head?.any fun c => !isBlank c) = true)
    (hk : w ∈ k.commandWords) (h : command? w t = some x) :
    ∃ r, k.BeginsAs t r ∧ content? r = some x := by
  obtain ⟨s, hs, hx⟩ := Option.bind_eq_some_iff.1 h
  obtain ⟨b, hb, rfl⟩ := (after?_trimLeft_eq_some_iff hw).1 hs
  obtain ⟨c, r, hc, rfl, hr⟩ := argument?_eq_some_iff.1 hx
  exact ⟨r, .command r hb hk hc, hr⟩

theorem source?_append (hw : w ∈ Kind.source.commandWords) (hb : allBlank b = true)
    (hc : isBlank c = true) (r : Text) : source? (b ++ (w ++ c :: r)) = content? r := by
  have hword : w = "source".toList ∨ w = ['.'] := by
    simpa [Kind.commandWords] using hw
  unfold source?
  rw [Edit.sourceCommand?_trimLeft_eq_some_iff.2 ⟨b, w, hb, hword, rfl⟩, Option.bind_some,
    argument?_cons hc]

theorem exists_of_source? (h : source? t = some x) :
    ∃ r, Kind.source.BeginsAs t r ∧ content? r = some x := by
  obtain ⟨s, hs, hx⟩ := Option.bind_eq_some_iff.1 h
  obtain ⟨b, w, hb, hword, rfl⟩ := Edit.sourceCommand?_trimLeft_eq_some_iff.1 hs
  obtain ⟨c, r, hc, rfl, hr⟩ := argument?_eq_some_iff.1 hx
  have hw : w ∈ Kind.source.commandWords := by
    simpa [Kind.commandWords] using hword
  exact ⟨r, .command r hb hw hc, hr⟩

/-! ### Assignments -/

theorem path?_append {b' : Text} (hb : allBlank b = true) (hb' : allBlank b' = true) (r : Text) :
    path? (b ++ ("PATH".toList ++ (b' ++ '=' :: r))) = content? r := by
  unfold path?
  rw [(after?_trimLeft_eq_some_iff rfl).2 ⟨b, hb, rfl⟩, Option.bind_some,
    Edit.afterEquals?_eq_some_iff.2 ⟨b', hb', rfl⟩, Option.bind_some]

theorem exists_of_path? (h : path? t = some x) :
    ∃ r, Kind.path.BeginsAs t r ∧ content? r = some x := by
  obtain ⟨r, hr, hx⟩ := Option.bind_eq_some_iff.1 h
  obtain ⟨s, hs, hequals⟩ := Option.bind_eq_some_iff.1 hr
  obtain ⟨b, hb, rfl⟩ := (after?_trimLeft_eq_some_iff rfl).1 hs
  obtain ⟨b', hb', rfl⟩ := Edit.afterEquals?_eq_some_iff.1 hequals
  exact ⟨r, .path r hb hb', hx⟩

theorem isHistoryChar_of_isBlank (h : isBlank c = true) : isHistoryChar c = false := by
  refine eq_false_of_isBlank (fun c hc => ?_) h
  simp only [isHistoryChar, isAliasChar, isNameChar, isLetter, Bool.or_eq_true] at hc ⊢
  tauto

/-- The variable of an assignment ends at the blanks before the equals sign. -/
theorem history?_append {n b' : Text} (hb : allBlank b = true)
    (hn : ∀ c ∈ n, isHistoryChar c = true) (hb' : allBlank b' = true) (r : Text) :
    history? (b ++ ("HIST".toList ++ (n ++ (b' ++ '=' :: r)))) =
      (content? r).map fun v => ("HIST".toList ++ n, v) := by
  obtain ⟨d, s, hrest, hd⟩ : ∃ d s, b' ++ '=' :: r = d :: s ∧ isHistoryChar d = false := by
    cases b' with
    | nil => exact ⟨'=', r, rfl, by decide⟩
    | cons d b' =>
      have hblank := isBlank_of_mem hb' List.mem_cons_self
      exact ⟨d, b' ++ '=' :: r, rfl, isHistoryChar_of_isBlank hblank⟩
  have hequals : afterEquals? (b' ++ '=' :: r) = some r :=
    Edit.afterEquals?_eq_some_iff.2 ⟨b', hb', rfl⟩
  have htake : (n ++ d :: s).takeWhile isHistoryChar = n := by
    rw [List.takeWhile_append_of_pos hn, List.takeWhile_cons_of_neg (by simp [hd]), List.append_nil]
  have hdrop : (n ++ d :: s).dropWhile isHistoryChar = d :: s := by
    rw [List.dropWhile_append_of_pos hn, List.dropWhile_cons_of_neg (by simp [hd])]
  unfold history?
  rw [(after?_trimLeft_eq_some_iff rfl).2 ⟨b, hb, rfl⟩]
  rw [hrest] at hequals ⊢
  simp only [Option.bind_eq_bind, Option.bind_some, hdrop, htake, hequals]
  cases content? r <;> rfl

theorem exists_of_history? {n v : Text} (h : history? t = some (n, v)) :
    ∃ r, Kind.history.BeginsAs t r ∧ content? r = some v := by
  obtain ⟨s, hs, h⟩ := Option.bind_eq_some_iff.1 h
  obtain ⟨x, hx, h⟩ := Option.bind_eq_some_iff.1 h
  obtain ⟨rfl, rfl⟩ := Prod.mk.inj (Option.some.inj h)
  obtain ⟨r, hr, hcontent⟩ := Option.bind_eq_some_iff.1 hx
  obtain ⟨b, hb, rfl⟩ := (after?_trimLeft_eq_some_iff rfl).1 hs
  obtain ⟨b', hb', hrest⟩ := Edit.afterEquals?_eq_some_iff.1 hr
  refine ⟨r, ?_, hcontent⟩
  rw [← List.takeWhile_append_dropWhile (p := isHistoryChar) (l := s), hrest]
  exact .history r hb (List.all_eq_true.1 List.all_takeWhile) hb'

/-! ### Payloads -/

/-- What is recorded of a line is what the text behind its command or its equals sign says. -/
theorem exists_beginsAs_of_mem (hk : k.argument? = some f) (hp : p ∈ payloads t k) :
    ∃ r w, k.BeginsAs t r ∧ content? r = some w ∧ p.get? f = some w := by
  have hsome : ∃ w, p.get? f = some w ∧ ∃ r, k.BeginsAs t r ∧ content? r = some w := by
    cases k with
    | setopt | eval | keybinding =>
      obtain rfl := Option.some.inj hk
      obtain ⟨w, hw, rfl⟩ := List.mem_map.1 hp
      exact ⟨w, rfl, exists_of_command? rfl List.mem_cons_self (Option.mem_toList.1 hw)⟩
    | source =>
      obtain rfl := Option.some.inj hk
      obtain ⟨w, hw, rfl⟩ := List.mem_map.1 hp
      exact ⟨w, rfl, exists_of_source? (Option.mem_toList.1 hw)⟩
    | path =>
      obtain rfl := Option.some.inj hk
      obtain ⟨w, hw, rfl⟩ := List.mem_map.1 hp
      exact ⟨w, rfl, exists_of_path? (Option.mem_toList.1 hw)⟩
    | history =>
      obtain rfl := Option.some.inj hk
      obtain ⟨⟨n, w⟩, hw, rfl⟩ := List.mem_map.1 hp
      exact ⟨w, rfl, exists_of_history? (Option.mem_toList.1 hw)⟩
    | _ => cases hk
  obtain ⟨w, hw, r, hr, hcontent⟩ := hsome
  exact ⟨r, w, hr, hcontent, hw⟩

/-- A line declares something of a kind that it begins as, unless nothing follows. -/
theorem payloads_eq_nil_iff (hk : k.argument? = some f) (h : k.BeginsAs t r) :
    payloads t k = [] ↔ r = [] := by
  rw [← content?_eq_none_iff]
  cases h with
  | @command _ b w c r hb hw hc =>
    cases k with
    | setopt | eval | keybinding =>
      obtain rfl := List.mem_singleton.1 hw
      rw [payloads, command?_append rfl hb hc, List.map_eq_nil_iff, Option.toList_eq_nil_iff]
    | source =>
      rw [payloads, source?_append hw hb hc, List.map_eq_nil_iff, Option.toList_eq_nil_iff]
    | _ => cases hw
  | path r hb hb' =>
    rw [payloads, path?_append hb hb', List.map_eq_nil_iff, Option.toList_eq_nil_iff]
  | history r hb hn hb' =>
    rw [payloads, history?_append hb hn hb', List.map_eq_nil_iff, Option.toList_eq_nil_iff,
      Option.map_eq_none_iff]

end Recognize

namespace Entry

variable {e : Entry} {f : Field} {k : Kind} {l : Line} {limit : Int} {r t : Text}

theorem mem_ofKind_iff : e ∈ ofKind k t limit ↔ e ∈ ofText t limit ∧ e.kind = k := by
  rw [ofKind_eq_filter, List.mem_filter, decide_eq_true_eq]

theorem exists_onLine_eq (hl : l ∈ Line.safe limit t) (k : Kind) :
    ∃ inside, ∀ e, e ∈ ofKind k t limit ∧ e.lineNumber = l.number ↔ e ∈ onLine inside l k := by
  have hsorted := (Line.sorted_numbered 1 t.lines).sublist (Line.short_sublist limit 1 t.lines)
  obtain ⟨inside, hread⟩ := filter_onLines false hsorted hl k
  refine ⟨inside, fun e => ?_⟩
  rw [← hread, List.mem_filter, mem_ofKind_iff, isOn, decide_eq_true_eq, and_assoc,
    and_comm (a := e.kind = k)]
  rfl

/-- A line that begins as one of a kind carries an entry of this kind unless nothing follows. -/
theorem exists_on_line_iff (hk : k.argument? = some f) (hl : l ∈ Line.safe limit t)
    (h : k.BeginsAs l.text r) :
    (∃ e ∈ ofKind k t limit, e.lineNumber = l.number) ↔ r ≠ [] := by
  obtain ⟨inside, hon⟩ := exists_onLine_eq hl k
  simp only [hon]
  rw [← List.length_pos_iff_exists_mem, List.length_pos_iff, onLine,
    payloadsOn_of_ne (Kind.ne_plugin_of_argument? hk), ne_eq, List.map_eq_nil_iff,
    Recognize.payloads_eq_nil_iff hk h]

/-- **Arguments.** An entry that records all that stands behind a command or an equals sign records
what the text there says, and this is trimmed exactly if the text is not blank. A line that begins
as one of such a kind carries an entry of the kind unless nothing at all follows. -/
theorem ofKind_argument (hk : k.argument? = some f) (t : Text) (limit : Int) :
    (∀ e, e ∈ ofKind k t limit ∨ e ∈ ofText t limit ∧ e.kind = k →
      ∃ r w, k.BeginsAs e.lineText r ∧ e.payload.get? f = some w ∧ Says r w ∧
        (IsTrimmed w ↔ allBlank r = false)) ∧
    ∀ l ∈ Line.safe limit t, ∀ r, k.BeginsAs l.text r →
      ((∃ e ∈ ofKind k t limit, e.lineNumber = l.number) ↔ r ≠ []) := by
  refine ⟨fun e he => ?_, fun l hl r hr => exists_on_line_iff hk hl hr⟩
  rw [← mem_ofKind_iff, or_self] at he
  obtain ⟨l, -, k', hk', inside, hread⟩ := exists_onLine_of_mem he
  obtain rfl := List.mem_singleton.1 hk'
  obtain ⟨p, hp, rfl⟩ := List.mem_map.1 hread
  rw [payloadsOn_of_ne (Kind.ne_plugin_of_argument? hk)] at hp
  obtain ⟨r, w, hr, hcontent, hw⟩ := Recognize.exists_beginsAs_of_mem hk hp
  have hsays := says_of_content? hcontent
  exact ⟨r, w, hr, hw, hsays, hsays.isTrimmed_iff⟩

/-- A text with a value between blanks, a value that is missing and one that is a blank. -/
def historyText : Text := "HISTFILE = ~/a b \nHISTSIZE=\n HISTDUP= ".toList

/-- The entry of the value between blanks. -/
def historyFile : Entry :=
  { kind := .history, lineNumber := 1, lineText := "HISTFILE = ~/a b ".toList
    payload := { varName := some "HISTFILE".toList, value := some "~/a b".toList } }

theorem ofKind_argument_history :
    (Kind.history.argument? = some .value ∧ historyFile ∈ ofKind .history historyText 1000 ∧
      ∃ r w, Kind.history.BeginsAs "HISTFILE = ~/a b ".toList r ∧
        historyFile.payload.get? .value = some w ∧ Says r w ∧
        (IsTrimmed w ↔ allBlank r = false)) ∧
    (⟨2, "HISTSIZE=".toList⟩ : Line) ∈ Line.safe 1000 historyText ∧
      Kind.history.BeginsAs "HISTSIZE=".toList [] ∧
      ((∃ e ∈ ofKind .history historyText 1000, e.lineNumber = 2) ↔ ([] : Text) ≠ []) := by
  have hfile : historyFile ∈ ofKind .history historyText 1000 := by decide
  have hline : (⟨2, "HISTSIZE=".toList⟩ : Line) ∈ Line.safe 1000 historyText := by decide
  have hbegins : Kind.history.BeginsAs "HISTSIZE=".toList [] :=
    @Kind.BeginsAs.history [] "SIZE".toList [] [] rfl (List.all_eq_true.1 rfl) rfl
  exact ⟨⟨rfl, hfile, (ofKind_argument rfl historyText 1000).1 historyFile (.inl hfile)⟩, hline,
    hbegins, (ofKind_argument rfl historyText 1000).2 _ hline [] hbegins⟩

/-- A command with nothing behind it but two blanks and an equals sign with nothing behind it but
one are entries, under a blank. -/
theorem arguments_blank :
    (∃ e ∈ ofKind .setopt "setopt  ".toList 1000,
      e.payload.get? .option = some [' '] ∧ ¬ IsTrimmed [' ']) ∧
    ∃ e ∈ ofKind .path "PATH= ".toList 1000,
      e.payload.get? .value = some [' '] ∧ ¬ IsTrimmed [' '] := by
  have hblank : ¬ IsTrimmed [' '] := fun h => by
    cases h.said
  exact ⟨⟨{ kind := .setopt, lineNumber := 1, lineText := "setopt  ".toList
            payload := { option := some [' '] } }, by decide, rfl, hblank⟩,
    { kind := .path, lineNumber := 1, lineText := "PATH= ".toList
      payload := { value := some [' '] } }, by decide, rfl, hblank⟩

end Entry
end ShellConfig
