import ShellConfig.Text.Basic

/-!
# Texts as bytes

The encoding of texts in files. Main statement: `ofBytes?_eq_some_iff`, bytes are read as a text
exactly if they are its encoding.
-/

namespace ShellConfig.Text

/-- Bytes as text, if they are the encoding of one. -/
def ofBytes? (b : ByteArray) : Option Text := (String.fromUTF8? b).map String.toList

/-- The encoding of a text. -/
def toBytes (t : Text) : ByteArray := (String.ofList t).toUTF8

@[simp] theorem ofBytes?_toBytes (t : Text) : ofBytes? (toBytes t) = some t := by
  have valid : (String.ofList t).toUTF8.IsValidUTF8 := (String.ofList t).isValidUTF8
  have h : String.fromUTF8? (String.ofList t).toUTF8 = some (String.ofList t) := by
    rw [String.fromUTF8?, dif_pos valid]
    rfl
  rw [ofBytes?, toBytes, h]
  simp

theorem ofBytes?_eq_some_iff {b : ByteArray} {t : Text} :
    ofBytes? b = some t ↔ b = toBytes t := by
  constructor
  · intro h
    obtain ⟨s, hs, rfl⟩ := Option.map_eq_some_iff.1 h
    rw [toBytes, String.ofList_toList]
    rw [String.fromUTF8?] at hs
    split at hs
    · injection hs with hs
      rw [← hs]
      rfl
    · simp at hs
  · rintro rfl
    exact ofBytes?_toBytes t

end ShellConfig.Text
