import ShellConfig.Proofs.Entry.Declaration
import ShellConfig.Section.Marker

/-!
# Markers of lines

Which lines are markers, and how the markers of lines are put together. Main statements:
`readAs?_of_not_commented` and `readAs?_of_commented`, that ordinary lines and ordinary comments are
no markers; `readAs?_append_return`, that a carriage return at the end undoes no marker; and
`sorted_ofLines`, that markers come in the order of their lines.
-/

namespace ShellConfig

namespace Marker

open Text

variable {r t : Text}

/-! ### Shapes -/

/-- A line that is no comment is no marker. -/
theorem readAs?_of_not_commented {t : Text} (h : Edit.isCommented t = false) (d : Dialect) :
    readAs? t d = none := by
  have hhash : afterHash? t = none := by
    unfold Edit.isCommented at h
    unfold afterHash?
    cases ht : trimLeft t with
    | nil => rfl
    | cons c r =>
      rw [ht] at h
      rw [after?, if_neg fun hc => by simp [← hc] at h]
  cases d <;> simp only [readAs?, afterRule?, afterHashes?, hhash] <;> rfl

/-- A comment is no marker if what is commented begins with none of the signs and words that stand
behind the number sign of a marker. -/
theorem readAs?_of_commented {b r u : Text} {c : Char} (hb : allBlank b = true)
    (hr : trimLeft r = c :: u) (hhash : c ≠ '#') (hat : sameLetter '@' c = false) (hrule : c ≠ '-')
    (hbracket : c ≠ '[') (hword : afterBy? sameLetter "section".toList (c :: u) = none)
    (d : Dialect) : readAs? (b ++ '#' :: r) d = none := by
  have hafter : afterHash? (b ++ '#' :: r) = some r := by
    unfold afterHash?
    rw [Edit.trimLeft_commented hb]
    exact after?_append ['#'] r
  have hagain : afterHash? r = none := by
    unfold afterHash?
    rw [hr, after?, if_neg (Ne.symm hhash)]
  have hdrop : r.dropWhile (· == '#') = r := by
    cases r with
    | nil => rfl
    | cons e r =>
      refine List.dropWhile_cons_of_neg fun he => hhash ?_
      obtain rfl : e = '#' := beq_iff_eq.1 he
      rw [trimLeft_cons_of_not_blank (by decide), List.cons.injEq] at hr
      exact hr.1.symm
  have hsign : ∀ w, afterBy? sameLetter ('@' :: w) (c :: u) = none := by
    intro w
    rw [afterBy?, hat]
    rfl
  have hend : afterWord? "@end".toList (c :: u) = none :=
    congrArg (Option.filter atWordEnd) (hsign "end".toList)
  have hstart : afterBy? sameLetter "@start".toList (c :: u) = none := hsign _
  have hrule' : after? "---".toList (c :: u) = none := if_neg (Ne.symm hrule)
  have hbracket' : after? ['['] (c :: u) = none := if_neg (Ne.symm hbracket)
  have hbehind : (afterHash? (b ++ '#' :: r)).map trimLeft = some (c :: u) := by
    rw [hafter, Option.map_some, hr]
  have hbehind' : (afterHashes? (b ++ '#' :: r)).map trimLeft = some (c :: u) := by
    rw [afterHashes?, hafter, Option.map_some, hdrop, Option.map_some, hr]
  cases d with
  | customEnd => rw [readAs?, hbehind, Option.bind_some, hend, Option.bind_none]
  | customStart =>
    rw [readAs?, hbehind, Option.bind_some, hstart]
  | dashedEnd =>
    rw [readAs?, afterRule?, hbehind, Option.bind_some, hrule']
    rfl
  | dashedStart =>
    rw [readAs?, afterRule?, hbehind, Option.bind_some, hrule']
    rfl
  | bracketed =>
    rw [readAs?, hbehind', Option.bind_some, hbracket']
    rfl
  | labeled =>
    rw [readAs?, hbehind', Option.bind_some, hword]
    rfl
  | hash =>
    rw [readAs?, hafter, Option.bind_some, hagain]
    rfl

/-! ### Carriage returns -/

theorem label?_append_return (t : Text) : label? (t ++ ['\r']) = label? t := by
  unfold label?
  rw [trim_append_blank (by decide)]

theorem requiredLabel?_append_return {x : Text} (h : requiredLabel? t = some x) :
    requiredLabel? (t ++ ['\r']) = some x := by
  unfold requiredLabel? at h ⊢
  have hblank : allBlank (t ++ ['\r']) = allBlank t := by
    rw [allBlank, List.all_append]
    exact Bool.and_true _
  rw [hblank, label?_append_return]
  split at h
  · rw [if_pos ‹_›]
    split at h
    · rw [if_pos (by simp)]
      exact h
    · cases h
  · rwa [if_neg ‹_›]

theorem beforeRule?_append_return (t : Text) : beforeRule? (t ++ ['\r']) = beforeRule? t := by
  unfold beforeRule?
  rw [trimRight_append_blank (by decide)]

theorem trimLeft_append_return (h : trimLeft t ≠ []) :
    trimLeft (t ++ ['\r']) = trimLeft t ++ ['\r'] := by
  rw [trimLeft_append_blank (by decide), if_neg fun hb => h (trimLeft_eq_nil_iff.2 hb)]

theorem atWordEnd_append {c : Char} (hc : isWord c = false) (t s : Text) :
    atWordEnd (t ++ c :: s) = atWordEnd t := by
  cases t with
  | nil => simp [atWordEnd, hc]
  | cons d t => rfl

theorem afterWord?_eq_some_iff {w : Text} :
    afterWord? w t = some r ↔ afterBy? sameLetter w t = some r ∧ atWordEnd r = true :=
  Option.filter_eq_some_iff

theorem afterWord?_append {w : Text} {c : Char} (hw : w.any (sameLetter · c) = false)
    (hc : isWord c = false) (t s : Text) :
    afterWord? w (t ++ c :: s) = (afterWord? w t).map (· ++ c :: s) := by
  unfold afterWord?
  rw [afterBy?_append_of_any hw, Option.filter_map]
  exact congrArg (fun p => ((afterBy? sameLetter w t).filter p).map (· ++ c :: s))
    (funext fun u => atWordEnd_append hc u s)

theorem dropWhile_append_return (t : Text) :
    (t ++ ['\r']).dropWhile (· == '#') = t.dropWhile (· == '#') ++ ['\r'] := by
  induction t with
  | nil => rfl
  | cons c t ih =>
    simp only [List.cons_append, List.dropWhile_cons, ih]
    split <;> rfl

/-- A reader that a carriage return at the end does not disturb: it is left behind what is read. -/
def KeepsReturn (f : Text → Option Text) : Prop :=
  ∀ t r, f t = some r → f (t ++ ['\r']) = some (r ++ ['\r'])

namespace KeepsReturn

variable {f g : Text → Option Text}

theorem bind (hf : KeepsReturn f) (hg : KeepsReturn g) : KeepsReturn fun t => (f t).bind g := by
  intro t r h
  obtain ⟨u, hu, hr⟩ := Option.bind_eq_some_iff.1 h
  dsimp only
  rw [hf t u hu, Option.bind_some, hg u r hr]

/-- One reader behind another, with blanks between them. -/
theorem bind_trimLeft (hf : KeepsReturn f) (hg : KeepsReturn fun t => g (trimLeft t)) :
    KeepsReturn fun t => ((f t).map trimLeft).bind g := by
  intro t r h
  obtain ⟨v, hv, hr⟩ := Option.bind_eq_some_iff.1 h
  obtain ⟨u, hu, rfl⟩ := Option.map_eq_some_iff.1 hv
  dsimp only
  rw [hf t u hu, Option.map_some, Option.bind_some]
  exact hg u r hr

theorem after {w : Text} (hne : w ≠ []) (hw : '\r' ∉ w) :
    KeepsReturn fun t => after? w (trimLeft t) := by
  intro t r h
  dsimp only at h ⊢
  have ht : trimLeft t ≠ [] := by
    rw [after?_eq_some_iff] at h
    rw [h]
    exact List.append_ne_nil_of_left_ne_nil hne r
  rw [trimLeft_append_return ht, after?_append_of_not_mem hw, h, Option.map_some]

theorem afterBy {w : Text} (hne : w ≠ []) (hw : w.any (sameLetter · '\r') = false) :
    KeepsReturn fun t => afterBy? sameLetter w (trimLeft t) := by
  intro t r h
  dsimp only at h ⊢
  have ht : trimLeft t ≠ [] := by
    intro hnil
    rw [hnil] at h
    cases w with
    | nil => exact hne rfl
    | cons p w => cases h
  rw [trimLeft_append_return ht, afterBy?_append_of_any hw, h, Option.map_some]

theorem afterWord {w : Text} (hne : w ≠ []) (hw : w.any (sameLetter · '\r') = false) :
    KeepsReturn fun t => afterWord? w (trimLeft t) := by
  intro t r h
  rw [afterWord?_eq_some_iff] at h ⊢
  rw [atWordEnd_append (by decide)]
  exact ⟨afterBy hne hw t r h.1, h.2⟩

theorem afterHash : KeepsReturn afterHash? := after (by decide) (by decide)

theorem afterRule : KeepsReturn afterRule? :=
  afterHash.bind_trimLeft (after (by decide) (by decide))

theorem afterHashes : KeepsReturn afterHashes? := by
  intro t r h
  obtain ⟨u, hu, rfl⟩ := Option.map_eq_some_iff.1 h
  unfold afterHashes?
  rw [afterHash t u hu, Option.map_some]
  exact congrArg some (dropWhile_append_return u)

end KeepsReturn

theorem afterBlanks?_append_return (h : afterBlanks? t = some r) (hr : r ≠ []) :
    afterBlanks? (t ++ ['\r']) = some (r ++ ['\r']) := by
  cases t with
  | nil => cases h
  | cons c t =>
    rw [afterBlanks?] at h
    rw [List.cons_append, afterBlanks?]
    split at h
    · rw [Option.some.injEq] at h
      subst h
      rw [if_pos ‹_›, trimLeft_append_return hr]
    · cases h

/-- A carriage return at the end undoes no marker. -/
theorem readAs?_append_return {d : Dialect} {x : Text} (h : readAs? t d = some x) :
    readAs? (t ++ ['\r']) d = some x := by
  cases d with
  | customEnd =>
    have hend := KeepsReturn.afterHash.bind_trimLeft
      (KeepsReturn.afterWord (w := "@end".toList) (by decide) (by decide))
    obtain ⟨u, hu, hx⟩ := Option.bind_eq_some_iff.1 h
    refine Option.bind_eq_some_iff.2 ⟨_, hend t u hu, ?_⟩
    rw [label?_append_return, hx]
  | customStart =>
    rw [readAs?] at h ⊢
    split at h
    · next c u hu =>
      have hstart : ((afterHash? (t ++ ['\r'])).map trimLeft).bind
          (afterBy? sameLetter "@start".toList) = some (c :: (u ++ ['\r'])) :=
        KeepsReturn.afterHash.bind_trimLeft (KeepsReturn.afterBy (by decide) (by decide)) t _ hu
      rw [hstart]
      dsimp only
      split at h
      · rw [if_pos ‹_›]
        exact requiredLabel?_append_return h
      · cases h
    · cases h
  | dashedEnd =>
    have hend := KeepsReturn.afterRule.bind_trimLeft
      (KeepsReturn.afterWord (w := "End".toList) (by decide) (by decide))
    obtain ⟨b, hb, hx⟩ := Option.bind_eq_some_iff.1 h
    obtain ⟨u, hu, hb⟩ := Option.bind_eq_some_iff.1 hb
    refine Option.bind_eq_some_iff.2 ⟨b, Option.bind_eq_some_iff.2 ⟨_, hend t u hu, ?_⟩, hx⟩
    rw [beforeRule?_append_return, hb]
  | dashedStart =>
    obtain ⟨u, hu, h⟩ := Option.bind_eq_some_iff.1 h
    obtain ⟨r, hr, rfl⟩ := Option.map_eq_some_iff.1 hu
    split at h
    · cases h
    · obtain ⟨b, hb, hx⟩ := Option.bind_eq_some_iff.1 h
      have hne : trimLeft r ≠ [] := by
        intro hnil
        rw [hnil] at hb
        cases hb
      rw [readAs?, KeepsReturn.afterRule t r hr]
      refine Option.bind_eq_some_iff.2 ⟨_, rfl, ?_⟩
      rw [trimLeft_append_return hne, afterWord?_append (by decide) (by decide),
        Option.isSome_map, if_neg ‹_›, beforeRule?_append_return]
      exact Option.bind_eq_some_iff.2 ⟨b, hb, hx⟩
  | bracketed =>
    have hopen := KeepsReturn.afterHashes.bind_trimLeft
      (KeepsReturn.after (w := ['[']) (by decide) (by decide))
    obtain ⟨r, hr, h⟩ := Option.bind_eq_some_iff.1 h
    refine Option.bind_eq_some_iff.2 ⟨_, hopen t r hr, ?_⟩
    rw [trimRight_append_blank (by decide)]
    exact h
  | labeled =>
    have hword := KeepsReturn.afterHashes.bind_trimLeft
      (KeepsReturn.afterBy (w := "section".toList) (by decide) (by decide))
    have hcolon := KeepsReturn.after (w := [':']) (by decide) (by decide)
    obtain ⟨r, hr, h⟩ := Option.bind_eq_some_iff.1 h
    obtain ⟨s, hs, hx⟩ := Option.bind_eq_some_iff.1 h
    refine Option.bind_eq_some_iff.2 ⟨_, hword t r hr, ?_⟩
    exact Option.bind_eq_some_iff.2 ⟨_, hcolon r s hs, requiredLabel?_append_return hx⟩
  | hash =>
    have hhashes := KeepsReturn.afterHash.bind KeepsReturn.afterHash
    obtain ⟨r, hr, h⟩ := Option.bind_eq_some_iff.1 h
    obtain ⟨u, hu, hr⟩ := Option.bind_eq_some_iff.1 hr
    split at h
    · cases h
    · next hhead =>
      rw [not_or] at hhead
      cases r with
      | nil => exact absurd rfl hhead.1
      | cons c r =>
        have hblanks := afterBlanks?_append_return hr (List.cons_ne_nil c r)
        refine Option.bind_eq_some_iff.2
          ⟨_, Option.bind_eq_some_iff.2 ⟨_, hhashes t u hu, hblanks⟩, ?_⟩
        rw [label?_append_return, if_neg]
        · exact h
        · exact not_or.2 ⟨by simp, hhead.2⟩

end Marker

theorem Edit.IsSwitchable.readAs?_eq_none {t : Text} (h : IsSwitchable t) (d : Dialect) :
    Marker.readAs? t d = none := by
  cases h with
  | active r hb hw => exact Marker.readAs?_of_not_commented (isCommented_active hw hb r) d
  | @commented b b' w r hb hb' hw =>
    have hr := trimLeft_firstWord hw hb' r
    simp only [firstWords, List.mem_cons, List.not_mem_nil, or_false] at hw
    rcases hw with rfl | rfl | rfl | rfl | rfl | rfl | rfl <;>
      exact Marker.readAs?_of_commented hb hr (by decide) (by decide) (by decide) (by decide) rfl d

namespace Marker

open Text

variable {k n : Nat} {l : Line} {m : Marker} {as bs ls : List Line} {ts : List Text}

/-! ### Numbers -/

def moved (k : Nat) (m : Marker) : Marker := { m with lineNumber := m.lineNumber + k }

theorem ofLine?_eq_none_iff :
    ofLine? l = none ↔ maxLength < l.text.length ∨ ∀ d, readAs? l.text d = none := by
  unfold ofLine?
  split
  · simp [*]
  · rw [List.findSome?_eq_none_iff]
    constructor
    · intro h
      exact .inr fun d => Option.map_eq_none_iff.1 (h d (by cases d <;> decide))
    · rintro (hlength | h) d -
      · contradiction
      · rw [h d]
        rfl

/-- A line that is no marker is none without the carriage return it may end with. -/
theorem ofLine?_dropReturn {t : Text} {n : Nat} (hlength : t.length ≤ maxLength)
    (h : ofLine? ⟨n, t⟩ = none) (n' : Nat) : ofLine? ⟨n', dropReturn t⟩ = none := by
  have hread := (ofLine?_eq_none_iff.1 h).resolve_left (Nat.not_lt.2 hlength)
  refine ofLine?_eq_none_iff.2 (.inr fun d => ?_)
  by_cases hlast : t.getLast? = some '\r'
  · obtain ⟨s, rfl⟩ := List.getLast?_eq_some_iff.1 hlast
    rw [dropReturn_append_return]
    cases hd : readAs? s d with
    | none => rfl
    | some x =>
      have hx := hread d
      rw [readAs?_append_return hd] at hx
      cases hx
  · rw [dropReturn_of_getLast hlast]
    exact hread d

theorem lineNumber_of_ofLine? (h : ofLine? l = some m) : m.lineNumber = l.number := by
  unfold ofLine? at h
  split at h
  · cases h
  · obtain ⟨d, -, hd⟩ := List.exists_of_findSome?_eq_some h
    obtain ⟨t, -, rfl⟩ := Option.map_eq_some_iff.1 hd
    rfl

theorem ofLine?_moved (k : Nat) (l : Line) : ofLine? (l.moved k) = (ofLine? l).map (moved k) := by
  have hd : ∀ ds : List Dialect,
      (ds.findSome? fun d => (readAs? l.text d).map fun t => (⟨d, t, l.number + k⟩ : Marker)) =
        (ds.findSome? fun d => (readAs? l.text d).map fun t => (⟨d, t, l.number⟩ : Marker)).map
          (moved k) := by
    intro ds
    induction ds with
    | nil => rfl
    | cons d ds ih =>
      rw [List.findSome?_cons, List.findSome?_cons]
      cases readAs? l.text d with
      | none => exact ih
      | some t => rfl
  unfold ofLine?
  rw [Line.text_moved, Line.number_moved]
  by_cases hlength : maxLength < l.text.length
  · rw [if_pos hlength, if_pos hlength]
    rfl
  · rw [if_neg hlength, if_neg hlength]
    exact hd Dialect.all

theorem ofLines_append (as bs : List Line) : ofLines (as ++ bs) = ofLines as ++ ofLines bs :=
  List.filterMap_append

theorem ofLines_moved (k : Nat) (ls : List Line) :
    ofLines (ls.map (Line.moved k)) = (ofLines ls).map (moved k) := by
  unfold ofLines
  rw [List.filterMap_map, List.map_filterMap]
  exact congrArg (List.filterMap · ls) (funext fun l => ofLine?_moved k l)

theorem ofLines_eq_nil (h : ∀ l ∈ ls, ofLine? l = none) : ofLines ls = [] :=
  List.filterMap_eq_nil_iff.2 h

theorem exists_line_of_mem (h : m ∈ ofLines ls) : ∃ l ∈ ls, ofLine? l = some m :=
  List.mem_filterMap.1 h

theorem lineNumber_of_mem (h : m ∈ ofLines ls) (hls : ls.Sublist (Line.numbered n ts)) :
    n ≤ m.lineNumber ∧ m.lineNumber < n + ts.length := by
  obtain ⟨l, hl, hm⟩ := exists_line_of_mem h
  rw [lineNumber_of_ofLine? hm]
  exact Line.number_of_mem (hls.subset hl)

/-- Markers come in the order of their lines. -/
theorem sorted_ofLines (h : ls.Sublist (Line.numbered n ts)) :
    (ofLines ls).Pairwise fun a b => a.lineNumber < b.lineNumber := by
  refine ((Line.sorted_numbered n ts).sublist h).filterMap ofLine? fun a b hab m hm m' hm' => ?_
  rw [lineNumber_of_ofLine? hm, lineNumber_of_ofLine? hm']
  exact hab

end Marker
end ShellConfig
