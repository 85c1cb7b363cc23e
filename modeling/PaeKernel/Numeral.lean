/-!
# Numbers as text

Hexadecimal numerals with a fixed least width, and the padding that lines up columns.
-/

namespace PaeKernel.Numeral

/-- Fills up with `c` on the left until there are `width` characters. -/
def padLeft (width : Nat) (c : Char) (text : List Char) : List Char :=
  List.replicate (width - text.length) c ++ text

/-- Hexadecimal digits in lower case, at least `width` of them. -/
def lowerDigits (width n : Nat) : String :=
  String.ofList (padLeft width '0' (Nat.toDigits 16 n))

/-- Hexadecimal digits in upper case, at least `width` of them. -/
def upperDigits (width n : Nat) : String :=
  String.ofList (padLeft width '0' ((Nat.toDigits 16 n).map Char.toUpper))

/-- The plain hexadecimal numeral, without leading zeros. -/
def hex (n : Nat) : String := "0x" ++ lowerDigits 1 n

/-- A hexadecimal numeral of at least eight digits. -/
def hex8 (n : Nat) : String := "0x" ++ lowerDigits 8 n

/-- A hexadecimal numeral of at least four digits. -/
def hex4 (n : Nat) : String := "0x" ++ lowerDigits 4 n

/-- A decimal numeral, moved to the right edge of a column. -/
def column (width n : Nat) : String :=
  String.ofList (padLeft width ' ' (Nat.toDigits 10 n))

theorem length_padLeft (width : Nat) (c : Char) (text : List Char) :
    (padLeft width c text).length = max width text.length := by
  simp [padLeft]; omega

end PaeKernel.Numeral
