import Mathlib.Data.List.Basic

/-!
# Fields of formatted text

What the conversions of `sprintf` make of their arguments, and how long it is. A field
of hexadecimal digits as wide as its value needs has exactly that length.
-/

namespace Xremu

abbrev Text := List Char

/-- A field of at least `width` characters, filled up on the left. -/
def padLeft (fill : Char) (width : Nat) (text : Text) : Text :=
  List.replicate (width - text.length) fill ++ text

/-- A field of at least `width` characters, filled up with blanks on the right. -/
def padRight (width : Nat) (text : Text) : Text :=
  text ++ List.replicate (width - text.length) ' '

/-- `%0<width>x`. -/
def hexField (width value : Nat) : Text := padLeft '0' width (Nat.toDigits 16 value)

/-- `%0<width>X`. -/
def hexFieldUpper (width value : Nat) : Text := (hexField width value).map Char.toUpper

/-- `%d` of a number that is not negative. -/
def decimalField (value : Nat) : Text := Nat.toDigits 10 value

@[simp] theorem padLeft_length (fill : Char) (width : Nat) (text : Text) :
    (padLeft fill width text).length = max width text.length := by
  unfold padLeft
  rw [List.length_append, List.length_replicate]
  omega

@[simp] theorem padRight_length (width : Nat) (text : Text) :
    (padRight width text).length = max width text.length := by
  unfold padRight
  rw [List.length_append, List.length_replicate]
  omega

theorem hexField_length {width value : Nat} (hwidth : 0 < width) (h : value < Nat.pow 16 width) :
    (hexField width value).length = width := by
  have hdigits := (Nat.length_toDigits_le_iff (by decide) hwidth).mpr h
  unfold hexField
  rw [padLeft_length]
  omega

theorem hexFieldUpper_length {width value : Nat} (hwidth : 0 < width) (h : value < Nat.pow 16 width) :
    (hexFieldUpper width value).length = width := by
  unfold hexFieldUpper
  rw [List.length_map]
  exact hexField_length hwidth h

theorem decimalField_length {width value : Nat} (hwidth : 0 < width) (h : value < Nat.pow 10 width) :
    (decimalField value).length ≤ width :=
  (Nat.length_toDigits_le_iff (by decide) hwidth).mpr h

end Xremu
