import ShellConfig.Binary64
import ShellConfig.Text.Digits

/-!
# Sizes of files

A size is shown in bytes below a kilobyte, and else in kilobytes or megabytes with one decimal.
-/

namespace ShellConfig.ByteSize

/-- A number of units with one decimal, if it is in the range of floating point. -/
def inUnits? (unit n : Nat) : Option Text :=
  let x := Binary64.ofQuotient n unit
  if x.isFinite then some (Text.ofNat (x.tenths / 10) ++ '.' :: Text.ofNat (x.tenths % 10))
  else none

/-- A size for a reader, if it can be divided. -/
def text? (size : Int) : Option Text :=
  if size < 1024 then some (Text.ofInt size ++ " B".toList)
  else if size < 1024 * 1024 then (inUnits? 1024 size.toNat).map (· ++ " KB".toList)
  else (inUnits? (1024 * 1024) size.toNat).map (· ++ " MB".toList)

end ShellConfig.ByteSize
