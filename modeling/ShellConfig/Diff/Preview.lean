import ShellConfig.Diff.Markdown

/-!
# Previews

The first lines of a changed text, and the preview that shows the difference before them.
-/

namespace ShellConfig.Preview

/-- The number of lines shown where nothing else is said. -/
def defaultLines : Int := 20

/-- The first lines of a list; a negative number says how many to leave out at the end. -/
def firstLines (n : Int) (ls : List Text) : List Text :=
  if 0 ≤ n then ls.take n.toNat else ls.take (ls.length - (-n).toNat)

/-- The first lines of the changed text in a code block. -/
def ofTexts (before after : Text) (maxLines : Int := defaultLines) : Text :=
  if !(Diff.between before after).hasChanges then "No changes to preview.".toList
  else
    let ls := after.splitOn '\n'
    let more := (ls.length : Int) - maxLines
    Text.join ['\n']
      (["## Preview".toList, "```zsh".toList] ++ firstLines maxLines ls ++
        (if 0 < more then ["... (".toList ++ Text.ofInt more ++ " more lines)".toList] else []) ++
        ["```".toList])

/-- The difference of two texts, and the first lines of the changed one. -/
def withDiff (before after : Text) (context : Int := DiffLine.defaultContext)
    (maxLines : Int := defaultLines) : Text :=
  (Diff.between before after context).markdown ++ ['\n', '\n'] ++
    ofTexts before after maxLines

end ShellConfig.Preview
