import ShellConfig.Proofs.Entry.Written
import ShellConfig.Proofs.Text.Pieces

/-!
# Where entries come from

Every entry records pieces of one line of its text. Main statements: `inOrder_payloads`, that what a
line declares of a kind stands on it piece by piece; `isReadOf_of_mem`, that an entry can be traced
back to its line; `pairwise_onLines`, in which order entries are listed; and `ofText_provenance`,
all of this for the entries of a text.
-/

namespace ShellConfig

open Text

variable {t : Text} {k : Kind}

/-! ### Pieces of a payload -/

/-- The pieces of a payload, in the order of the fields of a kind. -/
def Kind.pieces (k : Kind) (p : Payload) : List Text := k.fields.filterMap p.get?

theorem Kind.filter_all (k : Kind) : Kind.all.filter (· = k) = [k] := by cases k <;> decide

def Entry.pieces (e : Entry) : List Text := e.kind.pieces e.payload

namespace Recognize

/-- A name and something behind its equals sign stand there in this order. -/
theorem inOrder_assignment {x v : Text} (n : Text) (hx : x <:+: v) :
    InOrder [n, x] (n ++ '=' :: v) :=
  .cons [] n ((inOrder_singleton hx).append_left ['='])

theorem inOrder_alias? {n c : Text} (h : alias? t = some (n, c)) : InOrder [n, c] t := by
  obtain ⟨b, b', f, v, -, -, -, -, rfl, rfl⟩ := exists_of_alias? h
  have hvalue : stripQuotes (trimRight v) <:+: v :=
    (stripQuotes_isInfix _).trans (trimRight_isPrefix v).isInfix
  have hname := ((inOrder_assignment n hvalue).append_left f).append_left b'
  exact (hname.append_left "alias".toList).append_left b

theorem inOrder_export? {n v : Text} (h : export? t = some (n, v)) : InOrder [n, v] t := by
  obtain ⟨b, w, b', x, -, -, -, -, rfl, rfl, -⟩ := exists_of_export? h
  have hname := inOrder_assignment n (trimRight_isPrefix x).isInfix
  exact ((hname.append_left b').append_left w).append_left b

theorem isInfix_of_source? {p : Text} (h : source? t = some p) : p <:+: t := by
  obtain ⟨r, hr, hp⟩ := Option.bind_eq_some_iff.1 h
  obtain ⟨b, w, -, -, rfl⟩ := Edit.sourceCommand?_trimLeft_eq_some_iff.1 hr
  exact (isInfix_of_argument? hp).trans
    ((List.suffix_append w r).trans (List.suffix_append b _)).isInfix

theorem isInfix_of_command? {w a : Text} (h : command? w t = some a) : a <:+: t := by
  obtain ⟨r, hr, ha⟩ := Option.bind_eq_some_iff.1 h
  exact (isInfix_of_argument? ha).trans (isSuffix_of_after? hr).isInfix

theorem isInfix_of_path? {v : Text} (h : path? t = some v) : v <:+: t := by
  obtain ⟨r, hr, hv⟩ := Option.bind_eq_some_iff.1 h
  obtain ⟨s, hs, hr⟩ := Option.bind_eq_some_iff.1 hr
  exact (isInfix_of_content? hv).trans
    ((isSuffix_of_after? hr).trans (isSuffix_of_after? hs)).isInfix

theorem inOrder_history? {n v : Text} (h : history? t = some (n, v)) : InOrder [n, v] t := by
  obtain ⟨r, hr, h⟩ := Option.bind_eq_some_iff.1 h
  obtain ⟨x, hx, h⟩ := Option.bind_eq_some_iff.1 h
  obtain ⟨rfl, rfl⟩ := Prod.mk.inj (Option.some.inj h)
  obtain ⟨u, hu, hcontent⟩ := Option.bind_eq_some_iff.1 hx
  obtain ⟨b, -, rfl⟩ := (after?_trimLeft_eq_some_iff rfl).1 hr
  have hvalue : x <:+: r.dropWhile isHistoryChar :=
    (isInfix_of_content? hcontent).trans (isSuffix_of_after? hu).isInfix
  have hline := InOrder.cons b ("HIST".toList ++ r.takeWhile isHistoryChar)
    (inOrder_singleton hvalue)
  rwa [List.append_assoc "HIST".toList, List.takeWhile_append_dropWhile] at hline

theorem themeName_isInfix (v : Text) : themeName v <:+: v := by
  have htrim : trimRight (trimLeft v) <:+: v := trim_isInfix v
  unfold themeName
  split
  · exact List.nil_infix
  · next q r hv =>
    rw [hv] at htrim
    split
    · have hr : r <:+ v := (List.suffix_cons q r).trans (hv ▸ trimLeft_isSuffix v)
      exact ((List.dropLast_prefix _).trans (trimRight_isPrefix r)).isInfix.trans hr.isInfix
    · exact htrim

theorem isInfix_of_theme? {n : Text} (h : theme? t = some n) : n <:+: t := by
  obtain ⟨v, hv, h⟩ := Option.bind_eq_some_iff.1 h
  obtain ⟨r, hr, hv⟩ := Option.bind_eq_some_iff.1 hv
  split at h
  · cases h
  · obtain rfl := Option.some.inj h
    exact (themeName_isInfix v).trans
      ((isSuffix_of_after? hv).trans (isSuffix_of_after? hr)).isInfix

theorem inOrder_fpath (t : Text) : InOrder (fpath t) t := by
  unfold fpath
  dsimp only
  split
  · exact .nil t
  · next r hr =>
    obtain ⟨s, hs, hr⟩ := Option.bind_eq_some_iff.1 hr
    obtain ⟨u, hu, rfl⟩ := Option.map_eq_some_iff.1 hs
    obtain ⟨v, hv, hu⟩ := Option.bind_eq_some_iff.1 hu
    obtain ⟨w, hw, rfl⟩ := Option.map_eq_some_iff.1 hv
    obtain ⟨x, hx, rfl⟩ := Option.map_eq_some_iff.1 hw
    -- a plus sign may stand in front of the equals sign
    have hplus : (after? ['+'] (trimLeft x)).getD (trimLeft x) <:+ x := by
      cases hp : after? ['+'] (trimLeft x) with
      | none => exact trimLeft_isSuffix x
      | some y => exact isSuffix_of_after? hp
    have hequals : u <:+ x := by
      rw [after?_eq_some_iff] at hu
      exact (hu ▸ List.suffix_append ['='] u).trans hplus
    have hsuffix : r <:+ t :=
      ((isSuffix_of_after? hr).trans hequals).trans (isSuffix_of_after? hx)
    split
    · have hinner : stripComment (trimRight r).dropLast <+: r :=
        (stripComment_isPrefix _).trans ((List.dropLast_prefix _).trans (trimRight_isPrefix r))
      exact (inOrder_words _).within (hinner.isInfix.trans hsuffix.isInfix)
    · exact .nil t

theorem inOrder_autoload (t : Text) : InOrder (autoload t) t := by
  unfold autoload
  split
  · exact .nil t
  · next a ha =>
    have hwords := (inOrder_words (stripComment a)).within
      ((stripComment_isPrefix a).isInfix.trans (isInfix_of_command? ha))
    exact hwords.sublist List.filter_sublist

theorem isInfix_of_completion? {c : Text} (h : completion? t = some c) : c <:+: t := by
  obtain ⟨r, -, h⟩ := Option.bind_eq_some_iff.1 h
  split at h
  · obtain rfl := Option.some.inj h
    exact trim_isInfix t
  · cases h

theorem isPrefix_of_name? {start next : Char → Bool} {n r : Text}
    (h : name? start next t = some (n, r)) : n <+: t :=
  append_of_name? h ▸ List.prefix_append n r

theorem isInfix_of_function? {n : Text} (h : function? t = some n) : n <:+: t := by
  unfold function? at h
  rw [Option.orElse_eq_orElse, Option.orElse_eq_or, Option.or_eq_some_iff] at h
  refine List.IsInfix.trans ?_ (trimLeft_isSuffix t).isInfix
  rcases h with h | ⟨-, h⟩
  · obtain ⟨r, hr, h⟩ := Option.bind_eq_some_iff.1 h
    obtain ⟨⟨n', u⟩, hn, h⟩ := Option.bind_eq_some_iff.1 h
    obtain ⟨s, hs, hr⟩ := Option.bind_eq_some_iff.1 hr
    dsimp only at h
    split at h
    · obtain rfl := Option.some.inj h
      obtain ⟨b, -, rfl⟩ := exists_gap_of_afterBlanks? hr
      rw [after?_eq_some_iff.1 hs]
      exact (isPrefix_of_name? hn).isInfix.trans
        ((List.suffix_append b r).trans (List.suffix_append _ _)).isInfix
    · cases h
  · obtain ⟨⟨n', u⟩, hn, h⟩ := Option.bind_eq_some_iff.1 h
    obtain ⟨r, -, h⟩ := Option.bind_eq_some_iff.1 h
    split at h
    · obtain rfl := Option.some.inj h
      exact (isPrefix_of_name? hn).isInfix
    · cases h

/-! ### All kinds -/

theorem inOrder_of_option {α : Type} {o : Option α} {f : α → Payload} {pieces : Payload → List Text}
    (h : ∀ a, o = some a → InOrder (pieces (f a)) t) :
    InOrder ((o.toList.map f).flatMap pieces) t := by
  cases o with
  | none => exact .nil t
  | some a => simpa using h a rfl

theorem inOrder_of_list {ws : List Text} {f : Text → Payload} {pieces : Payload → List Text}
    (hf : ∀ w, pieces (f w) = [w]) (h : InOrder ws t) : InOrder ((ws.map f).flatMap pieces) t := by
  rwa [List.flatMap_map, List.flatMap_congr fun w _ => hf w, List.flatMap_singleton']

/-- What a line declares of a kind stands on it, piece by piece. -/
theorem inOrder_payloads (t : Text) (k : Kind) : InOrder ((payloads t k).flatMap k.pieces) t := by
  cases k with
  | aliased => exact inOrder_of_option fun _ h => inOrder_alias? h
  | exported => exact inOrder_of_option fun _ h => inOrder_export? h
  | function => exact inOrder_of_option fun _ h => inOrder_singleton (isInfix_of_function? h)
  | source => exact inOrder_of_option fun _ h => inOrder_singleton (isInfix_of_source? h)
  | plugin => exact .nil t
  | autoload => exact inOrder_of_list (fun _ => rfl) (inOrder_autoload t)
  | fpath => exact inOrder_of_list (fun _ => rfl) (inOrder_fpath t)
  | path => exact inOrder_of_option fun _ h => inOrder_singleton (isInfix_of_path? h)
  | theme => exact inOrder_of_option fun _ h => inOrder_singleton (isInfix_of_theme? h)
  | completion => exact inOrder_of_option fun _ h => inOrder_singleton (isInfix_of_completion? h)
  | history => exact inOrder_of_option fun _ h => inOrder_history? h
  | setopt | eval | keybinding =>
    exact inOrder_of_option fun _ h => inOrder_singleton (isInfix_of_command? h)

theorem isSome_get?_iff {p : Payload} (hp : p ∈ payloads t k) (f : Field) :
    (p.get? f).isSome = true ↔ f ∈ k.fields := by
  cases k with
  | plugin => cases hp
  | _ =>
    obtain ⟨x, -, rfl⟩ := List.mem_map.1 hp
    cases f <;> simp [Payload.get?, Kind.fields]

end Recognize

/-! ### Plugins -/

namespace Plugins

theorem inOrder_row (t : Text) : InOrder (row t).names t := by
  have hcomment := (stripComment_isPrefix t).isInfix
  unfold row
  dsimp only
  split
  · exact (inOrder_words _).within ((List.takeWhile_prefix _).isInfix.trans hcomment)
  · exact (inOrder_words _).within hcomment

theorem isSuffix_of_opening? {r : Text} (h : opening? t = some r) : r <:+ t := by
  obtain ⟨s, hs, hr⟩ := Option.bind_eq_some_iff.1 h
  obtain ⟨u, hu, rfl⟩ := Option.map_eq_some_iff.1 hs
  obtain ⟨v, hv, hu⟩ := Option.bind_eq_some_iff.1 hu
  exact ((isSuffix_of_after? hr).trans (isSuffix_of_after? hu)).trans (isSuffix_of_after? hv)

theorem inOrder_read (inside : Bool) (t : Text) : InOrder (read inside t).names t := by
  unfold read
  split
  · exact inOrder_row t
  · split
    · next r hr => exact (inOrder_row r).within (isSuffix_of_opening? hr).isInfix
    · exact .nil t

end Plugins

namespace Entry

variable {e : Entry} {inside : Bool} {kinds : List Kind} {l : Line} {ls : List Line} {limit : Int}
  {n : Nat}

/-! ### Entries of a line -/

/-- What a line says of a kind stands on it, piece by piece. -/
theorem inOrder_onLine (inside : Bool) (l : Line) (k : Kind) :
    InOrder ((onLine inside l k).flatMap pieces) l.text := by
  have hpieces : (onLine inside l k).flatMap pieces =
      (payloadsOn inside l.text k).flatMap k.pieces := by
    unfold onLine
    rw [List.flatMap_map]
    rfl
  rw [hpieces]
  by_cases hk : k = .plugin
  · subst hk
    exact Recognize.inOrder_of_list (fun _ => rfl) (Plugins.inOrder_read inside l.text)
  · rw [payloadsOn_of_ne hk]
    exact Recognize.inOrder_payloads l.text k

theorem isSome_get?_iff {p : Payload} (hp : p ∈ payloadsOn inside t k) (f : Field) :
    (p.get? f).isSome = true ↔ f ∈ k.fields := by
  by_cases hk : k = .plugin
  · subst hk
    obtain ⟨n, -, rfl⟩ := List.mem_map.1 hp
    cases f <;> simp [Payload.get?, Kind.fields]
  · rw [payloadsOn_of_ne hk] at hp
    exact Recognize.isSome_get?_iff hp f

/-- An entry that can be traced back to a line of a text, one that is short enough: it has the
number and the text of the line and no label, holds the fields of its kind and no others, and all
that it holds is a piece of the line. -/
structure IsReadOf (t : Text) (limit : Int) (e : Entry) : Prop where
  one_le : 1 ≤ e.lineNumber
  le_length : e.lineNumber ≤ t.lines.length
  line : t.lines[(e.lineNumber - 1).toNat]? = some e.lineText
  fits : (e.lineText.length : Int) ≤ limit
  fields : ∀ f, (e.payload.get? f).isSome = true ↔ f ∈ e.kind.fields
  piece : ∀ f p, e.payload.get? f = some p → p <:+: e.lineText
  label : e.label = none

theorem kind_of_mem_onLine (h : e ∈ onLine inside l k) : e.kind = k := by
  obtain ⟨p, -, rfl⟩ := List.mem_map.1 h
  rfl

/-- The entries of a text can be traced back to their lines. -/
theorem isReadOf_of_mem (h : e ∈ onLines kinds inside (Line.safe limit t)) :
    e.IsReadOf t limit := by
  obtain ⟨l, hl, k, -, inside', hread⟩ := exists_onLine_of_mem h
  obtain ⟨p, hp, rfl⟩ := List.mem_map.1 hread
  have hbounds := Line.number_of_mem_short (Line.safe_eq limit t ▸ hl)
  have hline := Line.getElem?_of_mem ((Line.short_sublist limit 1 t.lines).subset hl)
  have hfits := (List.mem_filter.1 hl).2
  have hfields := isSome_get?_iff hp
  refine ⟨by dsimp only; omega, by dsimp only; omega, ?_, of_decide_eq_true hfits, hfields, ?_, rfl⟩
  · have hindex : ((l.number : Int) - 1).toNat = l.number - 1 := by omega
    dsimp only
    rw [hindex, hline]
  · intro f x hx
    have hmem : f ∈ k.fields := (hfields f).1 (by rw [hx]; rfl)
    have hpieces : x ∈ (onLine inside' l k).flatMap pieces :=
      List.mem_flatMap.2 ⟨_, hread, List.mem_filterMap.2 ⟨f, hmem, hx⟩⟩
    exact (inOrder_onLine inside' l k).isInfix_of_mem hpieces

/-! ### The order of entries -/

/-- An entry may stand before another one in a list: it is of an earlier line, or of the same line
and not of a kind that is listed later. -/
def Precedes (a b : Entry) : Prop :=
  a.lineNumber < b.lineNumber ∨
    a.lineNumber = b.lineNumber ∧ Kind.all.idxOf a.kind ≤ Kind.all.idxOf b.kind

theorem pairwise_kinds :
    Kind.all.Pairwise fun k k' => Kind.all.idxOf k ≤ Kind.all.idxOf k' := by decide

theorem pairwise_line (inside : Bool) (l : Line) :
    (Kind.all.flatMap (onLine inside l)).Pairwise Precedes := by
  have hline : ∀ {a b k k'}, a ∈ onLine inside l k → b ∈ onLine inside l k' →
      Kind.all.idxOf k ≤ Kind.all.idxOf k' → Precedes a b := by
    intro a b k k' ha hb hk
    rw [← kind_of_mem_onLine ha, ← kind_of_mem_onLine hb] at hk
    exact .inr ⟨(lineNumber_of_mem_onLine ha).trans (lineNumber_of_mem_onLine hb).symm, hk⟩
  rw [List.pairwise_flatMap]
  constructor
  · intro k _
    exact List.pairwise_of_forall_mem_list fun a ha b hb => hline ha hb (Nat.le_refl _)
  · exact pairwise_kinds.imp fun hk a ha b hb => hline ha hb hk

/-- The entries of lines come line by line. -/
theorem pairwise_onLines (h : ls.Pairwise fun a b => a.number < b.number) :
    (onLines Kind.all inside ls).Pairwise Precedes := by
  induction ls generalizing inside with
  | nil => exact .nil
  | cons l ls ih =>
    rw [List.pairwise_cons] at h
    rw [onLines, List.pairwise_append]
    refine ⟨pairwise_line inside l, ih h.2, fun a ha b hb => .inl ?_⟩
    obtain ⟨k, -, ha⟩ := List.mem_flatMap.1 ha
    obtain ⟨l', hl', hb⟩ := exists_line_of_mem hb
    have := h.1 l' hl'
    rw [lineNumber_of_mem_onLine ha, hb]
    omega

/-! ### The entries of one kind on a line -/

/-- Among the entries of a line, those of some kinds are the ones that are read of these kinds. -/
theorem filter_kind_line (p : Kind → Bool) (kinds : List Kind) (inside : Bool) (l : Line) :
    (kinds.flatMap (onLine inside l)).filter (fun e => p e.kind) =
      (kinds.filter p).flatMap (onLine inside l) := by
  induction kinds with
  | nil => rfl
  | cons k kinds ih =>
    rw [List.flatMap_cons, List.filter_append, ih, List.filter_cons]
    split
    · next hk =>
      rw [List.flatMap_cons, List.filter_eq_self.2]
      intro e he
      rw [kind_of_mem_onLine he, hk]
    · next hk =>
      rw [List.filter_eq_nil_iff.2, List.nil_append]
      intro e he
      rwa [kind_of_mem_onLine he]

/-- Whether an entry is one of a kind on the line with a number. -/
def isOn (n : Nat) (k : Kind) (e : Entry) : Bool := e.lineNumber = n ∧ e.kind = k

theorem filter_line (inside : Bool) (l : Line) (k : Kind) :
    (Kind.all.flatMap (onLine inside l)).filter (isOn l.number k) = onLine inside l k := by
  have hkind := filter_kind_line (· = k) Kind.all inside l
  rw [Kind.filter_all, List.flatMap_singleton] at hkind
  rw [← hkind]
  refine List.filter_congr fun e he => ?_
  obtain ⟨k', -, he⟩ := List.mem_flatMap.1 he
  simp [isOn, lineNumber_of_mem_onLine he]

theorem filter_onLines (inside : Bool) (h : ls.Pairwise fun a b => a.number < b.number)
    (hl : l ∈ ls) (k : Kind) :
    ∃ inside', (onLines Kind.all inside ls).filter (isOn l.number k) = onLine inside' l k := by
  induction ls generalizing inside with
  | nil => cases hl
  | cons l' ls ih =>
    rw [List.pairwise_cons] at h
    rw [onLines, List.filter_append]
    rcases List.mem_cons.1 hl with rfl | hl
    · refine ⟨inside, ?_⟩
      rw [filter_line, List.filter_eq_nil_iff.2, List.append_nil]
      intro e he
      obtain ⟨l', hl', hnumber⟩ := exists_line_of_mem he
      have := h.1 l' hl'
      simp only [isOn, decide_eq_true_eq, not_and]
      omega
    · obtain ⟨inside', hread⟩ := ih (Plugins.read inside l'.text).goesOn h.2 hl
      refine ⟨inside', ?_⟩
      rw [hread, List.filter_eq_nil_iff.2, List.nil_append]
      intro e he
      obtain ⟨k', -, he⟩ := List.mem_flatMap.1 he
      have := h.1 l hl
      have := lineNumber_of_mem_onLine he
      simp only [isOn, decide_eq_true_eq, not_and]
      omega

/-- **Provenance of entries.** Every entry of a text can be traced back to one of its lines. The
entries come in the order of their lines, those of a line in the order of the kinds, and those of
one kind on a line in the order in which they stand there. -/
theorem ofText_provenance (t : Text) (limit : Int) :
    (∀ e ∈ ofText t limit, e.IsReadOf t limit) ∧ (ofText t limit).Pairwise Precedes ∧
      ∀ n l k, t.lines[n]? = some l →
        InOrder (((ofText t limit).filter (isOn (n + 1) k)).flatMap pieces) l := by
  have hsorted := (Line.sorted_numbered 1 t.lines).sublist (Line.short_sublist limit 1 t.lines)
  refine ⟨fun e he => isReadOf_of_mem he, pairwise_onLines hsorted, fun n l k hl => ?_⟩
  by_cases hmem : (⟨n + 1, l⟩ : Line) ∈ Line.safe limit t
  · obtain ⟨inside, hread⟩ := filter_onLines false hsorted hmem k
    rw [ofText, Line.safe_eq, hread]
    exact inOrder_onLine inside ⟨n + 1, l⟩ k
  · -- nothing is read of a line that is passed over
    rw [List.filter_eq_nil_iff.2]
    · exact .nil l
    · intro e he hon
      obtain ⟨l', hl', hnumber⟩ := exists_line_of_mem he
      have hon := (of_decide_eq_true hon).1
      have hsame : l'.number = n + 1 := by omega
      have hline := Line.getElem?_of_mem ((Line.short_sublist limit 1 t.lines).subset hl')
      rw [hsame, Nat.add_sub_cancel, hl] at hline
      obtain ⟨number, text⟩ := l'
      dsimp only at hsame hline
      obtain rfl := Option.some.inj hline
      exact hmem (hsame ▸ hl')

end Entry
end ShellConfig
