import ShellConfig.Proofs.Entry.AliasLine

/-!
# Quoted lines are read back

The lines that are written for an alias and for a variable hold their text between quotes. Main
statements: `export?_exportLine`, what is read of the line of a variable; and
`quotedLines_readBack`, that each of the two lines is read as one entry which has all that was
written.
-/

namespace ShellConfig

open Text

namespace Shell

variable {n v : Text} {c : Char}

/-! ### Lines of variables -/

def exportLine (n v : Text) : Text :=
  "export ".toList ++ n ++ "=\"".toList ++ quoteDouble v ++ ['"']

theorem exportLine_eq (n v : Text) : exportLine n v =
    [] ++ ("export".toList ++ ([' '] ++ (n ++ '=' :: '"' :: (quoteDouble v ++ ['"'])))) := by
  have hword : "export ".toList = "export".toList ++ [' '] := by decide
  have hquote : "=\"".toList = ['=', '"'] := by decide
  unfold exportLine
  rw [hword, hquote]
  simp only [List.append_assoc, List.nil_append, List.cons_append]

theorem mem_of_mem_quoteDouble (h : c ∈ quoteDouble v) : c = '\\' ∨ c ∈ v := by
  obtain ⟨d, hd, h⟩ := List.mem_flatMap.1 h
  split at h
  · rcases List.mem_cons.1 h with rfl | h
    · exact .inl rfl
    · exact .inr (List.mem_singleton.1 h ▸ hd)
  · exact .inr (List.mem_singleton.1 h ▸ hd)

theorem not_mem_exportLine (hn : '\n' ∉ n) (hv : '\n' ∉ v) : '\n' ∉ exportLine n v := by
  have hquote : '\n' ∉ quoteDouble v := by
    intro h
    rcases mem_of_mem_quoteDouble h with h | h
    · cases h
    · exact hv h
  rw [exportLine_eq]
  simp [hn, hquote]

/-- What is read of the line of a variable: the quotes belong to the value. -/
theorem export?_exportLine (hname : isVarName n = true) (hbreak : '\n' ∉ n) (v : Text) :
    Recognize.export? (exportLine n v) = some (n, '"' :: (quoteDouble v ++ ['"'])) := by
  have hgap : IsGap [' '] := isGap_cons rfl allBlank_nil
  have hvalue : trimRight ('"' :: (quoteDouble v ++ ['"'])) = '"' :: (quoteDouble v ++ ['"']) :=
    trimRight_append_of_not_blank (by decide) ('"' :: quoteDouble v)
  rw [exportLine_eq,
    Recognize.export?_eq allBlank_nil .plain hgap (isName_of_not_mem hname hbreak), hvalue]
  rfl

end Shell

namespace Entry

variable {k : Kind} {l name text : Text} {limit : Int}

/-! ### Reading back -/

/-- **Reading back.** Of the line that is written for an alias or for a variable, exactly one entry
of this kind is read: it has the name, and the text as it was quoted, with nothing lost. -/
theorem quotedLines_readBack (hname : '\n' ∉ name) (htext : '\n' ∉ text) (limit : Int) :
    (Shell.isAliasName name = true → ∃ l, Shell.aliasLine? name text = some l ∧
      ((l.length : Int) ≤ limit → ofKind .aliased l limit =
        [{ kind := .aliased, lineNumber := 1, lineText := l
           payload := { name := some name, command := some (Shell.quoteSingle text) } }])) ∧
    (Shell.isVarName name = true → ∃ l, Shell.exportLine? name text = some l ∧
      ((l.length : Int) ≤ limit → ofKind .exported l limit =
        [{ kind := .exported, lineNumber := 1, lineText := l
           payload := { varName := some name
                        value := some ('"' :: (Shell.quoteDouble text ++ ['"'])) } }])) := by
  refine ⟨fun h => ?_, fun h => ?_⟩
  · let a : AliasDefinition := ⟨name, text, none⟩
    refine ⟨a.line, if_pos h, fun hlength => ?_⟩
    rw [ofKind_of_not_mem (AliasDefinition.not_mem_line hname htext) hlength, onLine,
      payloadsOn_of_ne (by decide), Recognize.payloads, AliasDefinition.alias?_line h hname]
    rfl
  · refine ⟨Shell.exportLine name text, if_pos h, fun hlength => ?_⟩
    rw [ofKind_of_not_mem (Shell.not_mem_exportLine hname htext) hlength, onLine,
      payloadsOn_of_ne (by decide), Recognize.payloads, Shell.export?_exportLine h hname]
    rfl

/-- A text with both quotes and a blank that ends with a backslash and a carriage return. -/
def quotedText : Text := Shell.singleQuote :: "x\" \\\r".toList

theorem quotedLines_readBack_return :
    ('\n' ∉ "LL".toList ∧ '\n' ∉ quotedText ∧
      Shell.isAliasName "LL".toList = true ∧ Shell.isVarName "LL".toList = true) ∧
    (∃ l, Shell.aliasLine? "LL".toList quotedText = some l ∧ (l.length : Int) ≤ 30 ∧
      ofKind .aliased l 30 =
        [{ kind := .aliased, lineNumber := 1, lineText := l
           payload := { name := some "LL".toList
                        command := some (Shell.quoteSingle quotedText) } }]) ∧
    ∃ l, Shell.exportLine? "LL".toList quotedText = some l ∧ (l.length : Int) ≤ 30 ∧
      ofKind .exported l 30 =
        [{ kind := .exported, lineNumber := 1, lineText := l
           payload := { varName := some "LL".toList
                        value := some ('"' :: (Shell.quoteDouble quotedText ++ ['"'])) } }] := by
  have hname : '\n' ∉ "LL".toList := by decide
  have htext : '\n' ∉ quotedText := by decide
  have hshort : ∀ l ∈ Shell.aliasLine? "LL".toList quotedText, (l.length : Int) ≤ 30 := by decide
  have hshort' : ∀ l ∈ Shell.exportLine? "LL".toList quotedText, (l.length : Int) ≤ 30 := by decide
  obtain ⟨halias, hexport⟩ := quotedLines_readBack hname htext 30
  obtain ⟨l, hl, hread⟩ := halias (by decide)
  obtain ⟨l', hl', hread'⟩ := hexport (by decide)
  exact ⟨⟨hname, htext, by decide, by decide⟩, ⟨l, hl, hshort l hl, hread (hshort l hl)⟩,
    l', hl', hshort' l' hl', hread' (hshort' l' hl')⟩

end Entry
end ShellConfig
