import ShellConfig.Proofs.Entry.Declaration

/-!
# Grammars of declarations

The lines that declare an alias, an export or a function, as they are written. Main statements:
`stripQuotes_eq_iff`, what it means that quotes are taken off; `mem_payloads_iff`, that a line is
read as a declaration of one of these kinds exactly if it is written as one; `readsAs_unique`, that
it is written as one only; and `ofKind_grammar`, that the entry of such a line is the one that the
line is written for.
-/

namespace ShellConfig

open Text

variable {b r t : Text} {c : Char}

/-! ### Quotes -/

namespace Text

/-- What a value is without the one pair of equal quotes around it, if there is one. -/
inductive Unquotes : Text → Text → Prop
  | quoted {q : Char} (w : Text) (hq : isQuote q = true) : Unquotes (q :: (w ++ [q])) w
  | plain {w : Text} (h : ∀ q u, isQuote q = true → w ≠ q :: (u ++ [q])) : Unquotes w w

theorem Unquotes.unique {w w' : Text} (h : Unquotes t w) (h' : Unquotes t w') : w = w' := by
  cases h with
  | @quoted q w hq =>
    generalize ht : q :: (w ++ [q]) = t at h'
    cases h' with
    | quoted w' hq' =>
      obtain ⟨rfl, hw⟩ := List.cons.inj ht
      exact List.append_cancel_right hw
    | plain hplain => exact absurd ht.symm (hplain q w hq)
  | plain hplain =>
    cases h' with
    | quoted w' hq => exact absurd rfl (hplain _ w' hq)
    | plain => rfl

theorem unquotes_stripQuotes (t : Text) : Unquotes t (stripQuotes t) := by
  unfold stripQuotes
  split
  · next q d r =>
    split
    · next h =>
      obtain ⟨w, hw⟩ := List.getLast?_eq_some_iff.1 h.2
      rw [hw, List.dropLast_concat]
      exact .quoted w h.1
    · next h =>
      refine .plain fun q' u hq' heq => h ?_
      obtain ⟨rfl, hrest⟩ := List.cons.inj heq
      exact ⟨hq', by rw [hrest, List.getLast?_concat]⟩
  · next hshort =>
    -- between two quotes there are at least two characters
    refine .plain fun q u _ heq => ?_
    obtain ⟨d, r, hd⟩ := List.exists_cons_of_ne_nil
      (List.append_ne_nil_of_right_ne_nil u (List.cons_ne_nil q []))
    exact hshort q d r (by rw [heq, hd])

/-- What it means that quotes are taken off. -/
theorem stripQuotes_eq_iff {w : Text} : stripQuotes t = w ↔ Unquotes t w := by
  constructor
  · rintro rfl
    exact unquotes_stripQuotes t
  · exact fun h => (unquotes_stripQuotes t).unique h

/-! ### Parentheses and bodies -/

/-- A pair of parentheses with nothing between them but blanks. -/
inductive IsParens : Text → Prop
  | mk {b : Text} (hb : allBlank b = true) : IsParens ('(' :: (b ++ [')']))

/-- The end of a line, or an opening brace with anything behind it; there may be blanks before. -/
inductive OpensBody : Text → Prop
  | brace {b : Text} (r : Text) (hb : allBlank b = true) : OpensBody (b ++ '{' :: r)
  | lineEnd {b : Text} (hb : allBlank b = true) : OpensBody b

end Text

/-! ### Grammars -/

open Recognize in
/-- The lines that declare an alias, an export or a function, each with what is recorded of it. -/
inductive Kind.ReadsAs : Kind → Text → Payload → Prop
  | aliased {b b' b'' f n v w : Text} (hb : allBlank b = true) (hb' : IsGap b')
      (hf : Edit.IsFlag f) (hne : n ≠ []) (hn : ∀ c ∈ n, isAliasChar c = true)
      (hv : ∀ c ∈ v.getLast?, isBlank c = false) (hw : Unquotes v w)
      (hb'' : allBlank b'' = true) :
      ReadsAs .aliased (b ++ ("alias".toList ++ (b' ++ (f ++ (n ++ '=' :: (v ++ b''))))))
        { name := some n, command := some w }
  | exported {b b' b'' n v w : Text} (hb : allBlank b = true) (hw : Edit.IsExport w)
      (hb' : IsGap b') (hn : IsName isNameStart isNameChar n) (hne : v ≠ [])
      (hv : ∀ c ∈ v.getLast?, isBlank c = false) (hb'' : allBlank b'' = true) :
      ReadsAs .exported (b ++ (w ++ (b' ++ (n ++ '=' :: (v ++ b'')))))
        { varName := some n, value := some v }
  | named {b b' b'' n p r : Text} (hb : allBlank b = true) (hb' : IsGap b')
      (hn : IsName isNameStart isFunctionChar n) (hb'' : allBlank b'' = true)
      (hp : p = [] ∨ IsParens p) (hr : OpensBody r) :
      ReadsAs .function (b ++ ("function".toList ++ (b' ++ (n ++ (b'' ++ (p ++ r))))))
        { name := some n }
  | bare {b b' n p r : Text} (hb : allBlank b = true) (hn : IsName isNameStart isFunctionChar n)
      (hb' : allBlank b' = true) (hp : IsParens p) (hr : OpensBody r) :
      ReadsAs .function (b ++ (n ++ (b' ++ (p ++ r)))) { name := some n }

namespace Recognize

variable {n u v w : Text} {k : Kind} {p : Payload}

/-! ### Assignments -/

theorem alias?_eq_some_iff :
    alias? t = some (n, w) ↔ Kind.aliased.ReadsAs t { name := some n, command := some w } := by
  constructor
  · intro h
    obtain ⟨b, b', f, v, hb, hb', hf, hn, rfl, rfl⟩ := exists_of_alias? h
    obtain ⟨hne, hchars⟩ := isName_self_iff.1 hn
    obtain ⟨hlast, b'', hb'', hv⟩ := trimRight_eq_iff.1 (rfl : trimRight v = trimRight v)
    rw [hv, trimRight_append hb'', trimRight_of_getLast? hlast]
    exact .aliased hb hb' hf hne hchars hlast (unquotes_stripQuotes _) hb''
  · intro h
    cases h with
    | aliased hb hb' hf hne hn hv hw hb'' =>
      rw [alias?_eq hb hb' hf hne hn, trimRight_append hb'', trimRight_of_getLast? hv,
        stripQuotes_eq_iff.2 hw]

theorem export?_eq_some_iff :
    export? t = some (n, v) ↔ Kind.exported.ReadsAs t { varName := some n, value := some v } := by
  constructor
  · intro h
    obtain ⟨b, w, b', x, hb, hw, hb', hn, rfl, hv, hne⟩ := exists_of_export? h
    obtain ⟨hlast, b'', hb'', rfl⟩ := trimRight_eq_iff.1 hv.symm
    exact .exported hb hw hb' hn hne hlast hb''
  · intro h
    cases h with
    | exported hb hw hb' hn hne hv hb'' =>
      rw [export?_eq hb hw hb' hn, trimRight_append hb'', trimRight_of_getLast? hv]
      exact if_neg (by simpa using hne)

/-! ### Bodies of functions -/

theorem opensBody_eq_true_iff : opensBody t = true ↔ OpensBody t := by
  constructor
  · intro h
    unfold opensBody at h
    split at h
    · next hnil => exact .lineEnd (trimLeft_eq_nil_iff.1 hnil)
    · next c r hr =>
      obtain rfl : c = '{' := by simpa using h
      rw [eq_leadingBlanks_append hr]
      exact .brace r (allBlank_leadingBlanks t)
  · intro h
    unfold opensBody
    cases h with
    | brace r hb => rw [trimLeft_append hb, trimLeft_cons_of_not_blank (by decide)]; rfl
    | lineEnd hb => rw [trimLeft_eq_nil_iff.2 hb]

theorem afterParens?_eq_some_iff :
    afterParens? t = some r ↔ ∃ p, IsParens p ∧ t = p ++ r := by
  unfold afterParens?
  constructor
  · intro h
    obtain ⟨u, hu, hr⟩ := Option.bind_eq_some_iff.1 h
    obtain ⟨s, hs, rfl⟩ := Option.map_eq_some_iff.1 hu
    obtain ⟨b, hb, rfl⟩ := (after?_trimLeft_eq_some_iff rfl).1 hr
    exact ⟨_, .mk hb, by simpa using after?_eq_some_iff.1 hs⟩
  · rintro ⟨_, ⟨hb⟩, rfl⟩
    rw [List.cons_append, List.append_assoc]
    exact (after?_trimLeft_eq_some_iff rfl).2 ⟨_, hb, rfl⟩

theorem afterParens?_trimLeft_eq_some_iff :
    afterParens? (trimLeft t) = some r ↔
      ∃ b p, allBlank b = true ∧ IsParens p ∧ t = b ++ (p ++ r) := by
  rw [afterParens?_eq_some_iff]
  constructor
  · rintro ⟨p, hp, h⟩
    exact ⟨leadingBlanks t, p, allBlank_leadingBlanks t, hp, eq_leadingBlanks_append h⟩
  · rintro ⟨b, _, hb, ⟨hb'⟩, rfl⟩
    refine ⟨_, .mk hb', ?_⟩
    rw [trimLeft_append hb]
    exact trimLeft_cons_of_not_blank (by decide) _

theorem afterParens?_of_opensBody (h : OpensBody t) : afterParens? (trimLeft t) = none := by
  cases h with
  | brace r hb => rw [trimLeft_append hb, trimLeft_cons_of_not_blank (by decide)]; rfl
  | lineEnd hb => rw [trimLeft_eq_nil_iff.2 hb]; rfl

theorem opensBody_blanks_append (hb : allBlank b = true) (t : Text) :
    opensBody (b ++ t) = opensBody t := by
  unfold opensBody
  rw [trimLeft_append hb]

theorem opensBody_getD_eq_true_iff :
    opensBody ((afterParens? (trimLeft t)).getD t) = true ↔
      ∃ b p r, allBlank b = true ∧ (p = [] ∨ IsParens p) ∧ OpensBody r ∧ t = b ++ (p ++ r) := by
  constructor
  · intro h
    cases hparens : afterParens? (trimLeft t) with
    | none =>
      rw [hparens, Option.getD_none, opensBody_eq_true_iff] at h
      exact ⟨[], [], t, rfl, .inl rfl, h, rfl⟩
    | some r =>
      rw [hparens, Option.getD_some, opensBody_eq_true_iff] at h
      obtain ⟨b, p, hb, hp, rfl⟩ := afterParens?_trimLeft_eq_some_iff.1 hparens
      exact ⟨b, p, r, hb, .inr hp, h, rfl⟩
  · rintro ⟨b, p, r, hb, rfl | hp, hr, rfl⟩
    · rw [List.nil_append, trimLeft_append hb, afterParens?_of_opensBody hr, Option.getD_none,
        opensBody_blanks_append hb]
      exact opensBody_eq_true_iff.2 hr
    · rw [afterParens?_trimLeft_eq_some_iff.2 ⟨b, p, hb, hp, rfl⟩, Option.getD_some]
      exact opensBody_eq_true_iff.2 hr

/-! ### Names of functions -/

theorem isFunctionChar_of_isBlank (h : isBlank c = true) : isFunctionChar c = false := by
  refine eq_false_of_isBlank (fun c hc => ?_) h
  simp only [isFunctionChar, isAliasChar, Bool.or_eq_true, decide_eq_true_eq, List.mem_cons,
    List.not_mem_nil, or_false] at hc ⊢
  tauto

/-- A name ends in front of blanks, whatever follows these. -/
theorem isFunctionChar_of_head? (hb : allBlank b = true)
    (ht : ∀ c ∈ t.head?, isFunctionChar c = false) :
    ∀ c ∈ (b ++ t).head?, isFunctionChar c = false := by
  cases b with
  | nil => exact ht
  | cons d b =>
    intro c hc
    obtain rfl := Option.some.inj hc
    exact isFunctionChar_of_isBlank (isBlank_of_mem hb List.mem_cons_self)

theorem isFunctionChar_of_isGap (hb : IsGap b) (t : Text) :
    ∀ c ∈ (b ++ t).head?, isFunctionChar c = false := by
  rw [List.head?_append_of_ne_nil b hb.ne_nil]
  exact fun c hc =>
    isFunctionChar_of_isBlank (isBlank_of_mem hb.allBlank (List.mem_of_mem_head? hc))

theorem isFunctionChar_of_isParens (hp : IsParens u) (r : Text) :
    ∀ c ∈ (u ++ r).head?, isFunctionChar c = false := by
  cases hp with
  | mk hb =>
    intro c hc
    obtain rfl := Option.some.inj hc
    decide

theorem isFunctionChar_of_opensBody (hr : OpensBody r) :
    ∀ c ∈ r.head?, isFunctionChar c = false := by
  cases hr with
  | brace r hb =>
    refine isFunctionChar_of_head? hb fun c hc => ?_
    obtain rfl := Option.some.inj hc
    decide
  | lineEnd hb =>
    have h := isFunctionChar_of_head? (t := []) hb nofun
    rwa [List.append_nil] at h

theorem namedFunction?_eq_some_iff :
    namedFunction? t = some n ↔
      ∃ b b' p r, IsGap b ∧ IsName isNameStart isFunctionChar n ∧ allBlank b' = true ∧
        (p = [] ∨ IsParens p) ∧ OpensBody r ∧
        t = "function".toList ++ (b ++ (n ++ (b' ++ (p ++ r)))) := by
  constructor
  · intro h
    obtain ⟨s, hs, h⟩ := Option.bind_eq_some_iff.1 h
    obtain ⟨u, hu, hs⟩ := Option.bind_eq_some_iff.1 hs
    obtain ⟨⟨m, x⟩, hm, h⟩ := Option.bind_eq_some_iff.1 h
    dsimp only at h
    split at h
    · next hbody =>
      obtain rfl := Option.some.inj h
      obtain ⟨b, hb, rfl⟩ := exists_gap_of_afterBlanks? hs
      obtain ⟨hname, rfl, -⟩ := name?_eq_some_iff.1 hm
      obtain ⟨b', p, r, hb', hp, hr, rfl⟩ := opensBody_getD_eq_true_iff.1 hbody
      exact ⟨b, b', p, r, hb, hname, hb', hp, hr, after?_eq_some_iff.1 hu⟩
    · cases h
  · rintro ⟨b, b', p, r, hb, hname, hb', hp, hr, rfl⟩
    have hend : ∀ c ∈ (b' ++ (p ++ r)).head?, isFunctionChar c = false := by
      refine isFunctionChar_of_head? hb' ?_
      rcases hp with rfl | hp
      · exact isFunctionChar_of_opensBody hr
      · exact isFunctionChar_of_isParens hp r
    have hbody := opensBody_getD_eq_true_iff.2 ⟨b', p, r, hb', hp, hr, rfl⟩
    unfold namedFunction?
    simp only [after?_append, Option.bind_eq_bind, Option.bind_some, afterBlanks?_append hb,
      trimLeft_name hname, name?_eq_some_iff.2 ⟨hname, rfl, hend⟩, if_pos hbody]
    rfl

theorem bareFunction?_eq_some_iff :
    bareFunction? t = some n ↔
      ∃ b p r, IsName isNameStart isFunctionChar n ∧ allBlank b = true ∧ IsParens p ∧
        OpensBody r ∧ t = n ++ (b ++ (p ++ r)) := by
  constructor
  · intro h
    obtain ⟨⟨m, x⟩, hm, h⟩ := Option.bind_eq_some_iff.1 h
    obtain ⟨r, hr, h⟩ := Option.bind_eq_some_iff.1 h
    split at h
    · next hbody =>
      obtain rfl := Option.some.inj h
      obtain ⟨hname, rfl, -⟩ := name?_eq_some_iff.1 hm
      obtain ⟨b, p, hb, hp, rfl⟩ := afterParens?_trimLeft_eq_some_iff.1 hr
      exact ⟨b, p, r, hname, hb, hp, opensBody_eq_true_iff.1 hbody, rfl⟩
    · cases h
  · rintro ⟨b, p, r, hname, hb, hp, hr, rfl⟩
    have hend := isFunctionChar_of_head? hb (isFunctionChar_of_isParens hp r)
    have hparens : afterParens? (trimLeft (b ++ (p ++ r))) = some r :=
      afterParens?_trimLeft_eq_some_iff.2 ⟨b, p, hb, hp, rfl⟩
    unfold bareFunction?
    simp only [name?_eq_some_iff.2 ⟨hname, rfl, hend⟩, Option.bind_eq_bind, Option.bind_some,
      hparens, if_pos (opensBody_eq_true_iff.2 hr)]
    rfl

theorem isName_function : IsName isNameStart isFunctionChar "function".toList :=
  ⟨'f', "unction".toList, rfl, by decide, List.all_eq_true.1 rfl⟩

theorem bareFunction?_eq_none {g : Text} (hw : IsName isNameStart isFunctionChar w) (hg : IsGap g)
    (hc : isAliasChar c = true) (r : Text) : bareFunction? (w ++ (g ++ c :: r)) = none := by
  have hparens : afterParens? (c :: r) = none := by
    have hne : '(' ≠ c := by
      rintro rfl
      cases hc
    rw [afterParens?, after?, if_neg hne]
    rfl
  unfold bareFunction?
  simp only [name?_eq_some_iff.2 ⟨hw, rfl, isFunctionChar_of_isGap hg _⟩, Option.bind_eq_bind,
    Option.bind_some, trimLeft_append hg.allBlank,
    trimLeft_cons_of_not_blank (isBlank_of_isAliasChar hc), hparens, Option.bind_none]

/-- No line declares a function in both ways. -/
theorem namedFunction?_of_bareFunction? (h : bareFunction? t = some n) :
    namedFunction? t = none := by
  by_contra hnamed
  obtain ⟨m, hm⟩ := Option.ne_none_iff_exists'.1 hnamed
  obtain ⟨g, b, p, r, hg, ⟨c, s, rfl, hc, -⟩, -, -, -, rfl⟩ := namedFunction?_eq_some_iff.1 hm
  rw [List.cons_append,
    bareFunction?_eq_none isName_function hg (isAliasChar_of_isNameStart hc)] at h
  cases h

theorem function?_eq_some_iff :
    function? t = some n ↔ Kind.function.ReadsAs t { name := some n } := by
  unfold function?
  rw [Option.orElse_eq_orElse, Option.orElse_eq_or, Option.or_eq_some_iff]
  constructor
  · rintro (h | ⟨-, h⟩)
    · obtain ⟨b, b', p, r, hb, hn, hb', hp, hr, ht⟩ := namedFunction?_eq_some_iff.1 h
      rw [eq_leadingBlanks_append ht]
      exact .named (allBlank_leadingBlanks t) hb hn hb' hp hr
    · obtain ⟨b, p, r, hn, hb, hp, hr, ht⟩ := bareFunction?_eq_some_iff.1 h
      rw [eq_leadingBlanks_append ht]
      exact .bare (allBlank_leadingBlanks t) hn hb hp hr
  · intro h
    cases h with
    | @named b b' b'' _ p r hb hb' hn hb'' hp hr =>
      have htrim : trimLeft (b ++ ("function".toList ++ (b' ++ (n ++ (b'' ++ (p ++ r)))))) =
          "function".toList ++ (b' ++ (n ++ (b'' ++ (p ++ r)))) := by
        rw [trimLeft_append hb]
        exact trimLeft_cons_of_not_blank (by decide) _
      rw [htrim]
      exact .inl (namedFunction?_eq_some_iff.2 ⟨b', b'', p, r, hb', hn, hb'', hp, hr, rfl⟩)
    | @bare b b' _ p r hb hn hb' hp hr =>
      rw [trimLeft_append hb, trimLeft_name hn]
      have hbare := bareFunction?_eq_some_iff.2 ⟨b', p, r, hn, hb', hp, hr, rfl⟩
      exact .inr ⟨namedFunction?_of_bareFunction? hbare, hbare⟩

/-! ### Payloads -/

/-- A line is read as a declaration of one of these kinds exactly if it is written as one. -/
theorem mem_payloads_iff (hk : k ∈ [Kind.aliased, .exported, .function]) :
    p ∈ payloads t k ↔ k.ReadsAs t p := by
  simp only [List.mem_cons, List.not_mem_nil, or_false] at hk
  rcases hk with rfl | rfl | rfl
  · simp only [payloads, List.mem_map, Option.mem_toList, Prod.exists,
      alias?_eq_some_iff]
    constructor
    · rintro ⟨n, w, h, rfl⟩
      exact h
    · intro h
      cases h with
      | aliased hb hb' hf hne hn hv hw hb'' =>
        exact ⟨_, _, .aliased hb hb' hf hne hn hv hw hb'', rfl⟩
  · simp only [payloads, List.mem_map, Option.mem_toList, Prod.exists,
      export?_eq_some_iff]
    constructor
    · rintro ⟨n, v, h, rfl⟩
      exact h
    · intro h
      cases h with
      | exported hb hw hb' hn hne hv hb'' =>
        exact ⟨_, _, .exported hb hw hb' hn hne hv hb'', rfl⟩
  · simp only [payloads, List.mem_map, Option.mem_toList, function?_eq_some_iff]
    constructor
    · rintro ⟨n, h, rfl⟩
      exact h
    · intro h
      cases h with
      | named hb hb' hn hb'' hp hr => exact ⟨_, .named hb hb' hn hb'' hp hr, rfl⟩
      | bare hb hn hb' hp hr => exact ⟨_, .bare hb hn hb' hp hr, rfl⟩

/-- A line is read as one declaration of one of these kinds at most. -/
theorem exists_payloads_eq_toList (hk : k ∈ [Kind.aliased, .exported, .function]) (t : Text) :
    ∃ o : Option Payload, payloads t k = o.toList := by
  simp only [List.mem_cons, List.not_mem_nil, or_false] at hk
  rcases hk with rfl | rfl | rfl <;> exact ⟨_, Option.toList_map.symm⟩

/-! ### One kind -/

/-- The kind of the lines that begin with a word. -/
def commandKind? (w : Text) : Option Kind :=
  if w = "alias".toList then some .aliased
  else if w = "export".toList ∨ w = "typeset".toList then some .exported
  else if w = "function".toList then some .function
  else none

/-- The kind that a line can be of: its first word tells, unless there are parentheses behind it. -/
def lineKind? (t : Text) : Option Kind :=
  if (bareFunction? (trimLeft t)).isSome then some .function
  else (name? isNameStart isFunctionChar (trimLeft t)).bind fun p => commandKind? p.1

theorem lineKind?_eq {g : Text} (hb : allBlank b = true)
    (hw : IsName isNameStart isFunctionChar w) (hg : IsGap g) (hc : isAliasChar c = true)
    (r : Text) : lineKind? (b ++ (w ++ (g ++ c :: r))) = commandKind? w := by
  have hname : name? isNameStart isFunctionChar (w ++ (g ++ c :: r)) = some (w, g ++ c :: r) :=
    name?_eq_some_iff.2 ⟨hw, rfl, isFunctionChar_of_isGap hg _⟩
  unfold lineKind?
  rw [trimLeft_append hb, trimLeft_name hw, bareFunction?_eq_none hw hg hc, hname]
  rfl

theorem lineKind?_of_readsAs (h : k.ReadsAs t p) : lineKind? t = some k := by
  cases h with
  | @aliased b b' b'' f n v w hb hb' hf hne hn =>
    have hword : IsName isNameStart isFunctionChar "alias".toList :=
      ⟨'a', "lias".toList, rfl, by decide, List.all_eq_true.1 rfl⟩
    cases hf with
    | absent =>
      obtain ⟨c, s, rfl⟩ := List.exists_cons_of_ne_nil hne
      exact lineKind?_eq hb hword hb' (hn c List.mem_cons_self) _
    | present => exact lineKind?_eq hb hword hb' (by decide) _
  | exported hb hw hb' hn =>
    cases hw with
    | plain =>
      obtain ⟨c, s, rfl, hc, -⟩ := hn
      have hword : IsName isNameStart isFunctionChar "export".toList :=
        ⟨'e', "xport".toList, rfl, by decide, List.all_eq_true.1 rfl⟩
      exact lineKind?_eq hb hword hb' (isAliasChar_of_isNameStart hc) _
    | @typed g hg =>
      have hword : IsName isNameStart isFunctionChar "typeset".toList :=
        ⟨'t', "ypeset".toList, rfl, by decide, List.all_eq_true.1 rfl⟩
      simp only [List.append_assoc]
      exact lineKind?_eq hb hword hg (by decide) _
  | named hb hb' hn =>
    obtain ⟨c, s, rfl, hc, -⟩ := hn
    exact lineKind?_eq hb isName_function hb' (isAliasChar_of_isNameStart hc) _
  | @bare b b' n p r hb hn hb' hp hr =>
    have hbare := bareFunction?_eq_some_iff.2 ⟨b', p, r, hn, hb', hp, hr, rfl⟩
    unfold lineKind?
    rw [trimLeft_append hb, trimLeft_name hn, hbare]
    rfl

/-- A line is written for one thing at most. -/
theorem readsAs_unique {k' : Kind} {q : Payload} (h : k.ReadsAs t p) (h' : k'.ReadsAs t q) :
    k = k' ∧ p = q := by
  obtain rfl : k = k' :=
    Option.some.inj ((lineKind?_of_readsAs h).symm.trans (lineKind?_of_readsAs h'))
  have hk : k ∈ [Kind.aliased, .exported, .function] := by cases h <;> decide
  obtain ⟨o, ho⟩ := exists_payloads_eq_toList hk t
  rw [← mem_payloads_iff hk, ho, Option.mem_toList] at h h'
  exact ⟨rfl, Option.some.inj (h.symm.trans h')⟩

end Recognize

/-! ### Entries -/

/-- **Declarations and their grammars.** On a line that is short enough, the entries of one of these
kinds are those that the line is written for. There is one at most, and the line is not written for
anything else. -/
theorem Entry.ofKind_grammar {limit : Int} (hfeed : '\n' ∉ t) (hlength : (t.length : Int) ≤ limit) :
    (∀ k ∈ [Kind.aliased, .exported, .function],
      (∀ e, e ∈ ofKind k t limit ↔
        ∃ p, k.ReadsAs t p ∧ e = { kind := k, lineNumber := 1, lineText := t, payload := p }) ∧
      (ofKind k t limit).length ≤ 1) ∧
    ∀ (k k' : Kind) (p q : Payload), k.ReadsAs t p → k'.ReadsAs t q → k = k' ∧ p = q := by
  refine ⟨fun k hk => ?_, fun k k' p q => Recognize.readsAs_unique⟩
  have hplugin : k ≠ .plugin := by
    rintro rfl
    exact absurd hk (by decide)
  rw [ofKind_of_not_mem hfeed hlength, onLine, payloadsOn_of_ne hplugin]
  constructor
  · intro e
    simp only [List.mem_map, Recognize.mem_payloads_iff hk, eq_comm]
    exact Iff.rfl
  · obtain ⟨o, ho⟩ := Recognize.exists_payloads_eq_toList hk t
    rw [List.length_map, ho]
    exact Option.length_toList_le

theorem Entry.ofKind_grammar_flag :
    let t := " alias -g  -s=\"a b\" ".toList
    let p : Payload := { name := some "-s".toList, command := some "a b".toList }
    ('\n' ∉ t ∧ (t.length : Int) ≤ 30) ∧ Kind.aliased.ReadsAs t p ∧
      { kind := .aliased, lineNumber := 1, lineText := t, payload := p } ∈ ofKind .aliased t 30 ∧
      ∀ (k : Kind) (q : Payload), k.ReadsAs t q → Kind.aliased = k ∧ p = q := by
  intro t p
  have hfeed : '\n' ∉ t := by decide
  have hlength : (t.length : Int) ≤ 30 := by decide
  have hflag : Edit.IsFlag ('-' :: 'g' :: [' ', ' ']) := .present (by decide) ⟨by decide, rfl⟩
  have hreads : Kind.aliased.ReadsAs ([' '] ++ ("alias".toList ++ ([' '] ++
      (('-' :: 'g' :: [' ', ' ']) ++ ("-s".toList ++ '=' :: (('"' :: ("a b".toList ++ ['"'])) ++
        [' '])))))) p :=
    .aliased rfl ⟨by decide, rfl⟩ hflag (by decide) (List.all_eq_true.1 rfl)
      (fun c hc => Option.some.inj hc ▸ rfl) (.quoted _ rfl) rfl
  obtain ⟨hread, hunique⟩ := ofKind_grammar hfeed hlength
  exact ⟨⟨hfeed, hlength⟩, hreads, ((hread .aliased (by decide)).1 _).2 ⟨p, hreads, rfl⟩,
    fun k q => hunique .aliased k p q hreads⟩

-- the word for a function can be the name of one
example : Kind.function.ReadsAs "function function()".toList
    { name := some "function".toList } :=
  Recognize.function?_eq_some_iff.1 rfl

end ShellConfig
