/-
# Code points, blanks and decimal digits

A `str` of the source is a sequence of Unicode code points.  Surrogates are
code points too, and a JSON escape can produce a lone one, so the alphabet is
`Fin 0x110000` and not `Char`.

`isSpace` is `str.isspace` of one character, the class that `str.strip`
removes and that `\s` matches; `decimalDigit` is the value `int` gives a
character of category `Nd` (Unicode 15.0, the version of the oldest
interpreter the project runs on).
-/

import EvidenceLab.Text.Str
import Mathlib.Algebra.GroupWithZero.Nat

namespace EvidenceLab
namespace Text

/-- A Unicode code point. -/
abbrev CodePoint := Fin 0x110000

instance neZero_codePoint : NeZero 0x110000 := ⟨by decide⟩

/-- A `str` value. -/
abbrev Str := List CodePoint

instance lawfulBEq_str : LawfulBEq Str := inferInstance

/-- The code point of a character. -/
def ofChar (c : Char) : CodePoint := Fin.ofNat _ c.toNat

/-- A string literal. -/
def lit (s : List Char) : Str := s.map ofChar

def tab : CodePoint := 0x09
def lf : CodePoint := 0x0A
def cr : CodePoint := 0x0D
def blankChar : CodePoint := 0x20
def fullStop : CodePoint := 0x2E
def numberSign : CodePoint := 0x23

/-- U+FFFD, what a decoder writes for bytes it cannot read. -/
def replacementChar : CodePoint := 0xFFFD

/-- The blank characters: `str.isspace` of one character. -/
def isSpace (c : CodePoint) : Bool :=
  let n := c.val
  (0x09 ≤ n && n ≤ 0x0D) || (0x1C ≤ n && n ≤ 0x20) || n == 0x85 || n == 0xA0 || n == 0x1680 ||
    (0x2000 ≤ n && n ≤ 0x200A) || n == 0x2028 || n == 0x2029 || n == 0x202F || n == 0x205F ||
    n == 0x3000

/-- The zeros of the sets of ten decimal digits. -/
def decimalZeros : List ℕ :=
  [0x30, 0x660, 0x6F0, 0x7C0, 0x966, 0x9E6, 0xA66, 0xAE6, 0xB66, 0xBE6, 0xC66, 0xCE6, 0xD66,
    0xDE6, 0xE50, 0xED0, 0xF20, 0x1040, 0x1090, 0x17E0, 0x1810, 0x1946, 0x19D0, 0x1A80, 0x1A90,
    0x1B50, 0x1BB0, 0x1C40, 0x1C50, 0xA620, 0xA8D0, 0xA900, 0xA9D0, 0xA9F0, 0xAA50, 0xABF0,
    0xFF10, 0x104A0, 0x10D30, 0x11066, 0x110F0, 0x11136, 0x111D0, 0x112F0, 0x11450, 0x114D0,
    0x11650, 0x116C0, 0x11730, 0x118E0, 0x11950, 0x11C50, 0x11D50, 0x11DA0, 0x11F50, 0x16A60,
    0x16AC0, 0x16B50, 0x1D7CE, 0x1D7D8, 0x1D7E2, 0x1D7EC, 0x1D7F6, 0x1E140, 0x1E2F0, 0x1E4F0,
    0x1E950, 0x1FBF0]

/-- The value of a decimal digit. -/
def decimalDigit (c : CodePoint) : Option ℕ :=
  (decimalZeros.find? fun z => decide (z ≤ c.val) && decide (c.val < z + 10)).map (c.val - ·)

end Text
end EvidenceLab
