/-
# JSON values and what the language makes of them

The values `json.loads` returns, with the operations a program applies to a value
it has not checked: truth (`truthy`), `int` (`toInt`), `str` (`toStr`) and
iteration (`iterate`).  `json.loads` reads `NaN` and `Infinity`, so a float need
not be finite; `int` of an infinite float raises `OverflowError`, which is
neither a `TypeError` nor a `ValueError`.

`int` of a string accepts blanks around, a sign, decimal digits of any script and
single underscores between them, and refuses more than 4300 digits.  `str` of a
value that is no string is left to a parameter: nothing here depends on how a
float or a list is written.
-/

import EvidenceLab.Core.Errors
import EvidenceLab.Data.Float64

namespace EvidenceLab
namespace Data

open Text EvidenceLab.Core

/-- A value of `json.loads`. -/
inductive Json
  | null
  | bool (b : Bool)
  | int (n : ℤ)
  | float (x : Float64)
  | str (s : Str)
  | list (xs : List Json)
  | dict (entries : List (Str × Json))

namespace Json

/-- `bool(value)`. -/
def truthy : Json → Bool
  | null => false
  | bool b => b
  | int n => n != 0
  | float (.finite q _) => q != 0
  | float .negZero => false
  | float _ => true
  | str s => !s.isEmpty
  | list xs => !xs.isEmpty
  | dict entries => !entries.isEmpty

/-- `d.get(key)` of a dictionary; of anything else there is nothing to get. -/
def get? : Json → Str → Option Json
  | dict entries, key => entries.lookup key
  | _, _ => none

/-- `isinstance(value, dict)`. -/
def isDict : Json → Bool
  | dict _ => true
  | _ => false

/-! ### `int` -/

def plusSign : CodePoint := 0x2B
def minusSign : CodePoint := 0x2D
def underscore : CodePoint := 0x5F

/-- The blanks `int` skips around a number: those of `isSpace` without the
information separators. -/
def isIntSpace (c : CodePoint) : Bool := isSpace c && !(decide (0x1C ≤ c.val ∧ c.val ≤ 0x1F))

/-- The digits of a numeral: at least one, an underscore only between two. -/
def digits : Str → Option (List ℕ)
  | [] => none
  | [c] => (decimalDigit c).map fun d => [d]
  | c :: c' :: rest =>
      if c' = underscore then (decimalDigit c).bind fun d => (digits rest).map (d :: ·)
      else (decimalDigit c).bind fun d => (digits (c' :: rest)).map (d :: ·)

/-- `sys.get_int_max_str_digits()`. -/
def intMaxStrDigits : ℕ := 4300

/-- The value of a numeral without a sign. -/
def natOfStr (s : Str) : Option ℕ :=
  (digits s).bind fun ds =>
    if ds.length ≤ intMaxStrDigits then some (ds.foldl (fun n d => 10 * n + d) 0) else none

/-- `int(s)` of a string; `none` stands for the `ValueError`. -/
def intOfStr (s : Str) : Option ℤ :=
  match strip isIntSpace s with
  | [] => none
  | c :: rest =>
      if c = minusSign then (natOfStr rest).map fun n => -(n : ℤ)
      else if c = plusSign then (natOfStr rest).map fun n => (n : ℤ)
      else (natOfStr (c :: rest)).map fun n => (n : ℤ)

/-- `int(value)`; a float is cut towards zero. -/
def toInt : Json → Except Exc ℤ
  | null => .error .typeError
  | bool b => .ok (if b then 1 else 0)
  | int n => .ok n
  | float (.finite q _) => .ok (q.num.tdiv q.den)
  | float .negZero => .ok 0
  | float .inf => .error .overflowError
  | float .negInf => .error .overflowError
  | float .nan => .error .valueError
  | str s => (intOfStr s).elim (.error .valueError) .ok
  | list _ => .error .typeError
  | dict _ => .error .typeError

/-! ### `str` and iteration -/

/-- `str(value or "")`, `render` being `str` of a value that is no string. -/
def toStr (render : Json → Str) : Option Json → Str
  | none => []
  | some (str s) => s
  | some value => if value.truthy then render value else []

/-- `for element in value or []`. -/
def iterate : Option Json → Except Exc (List Json)
  | none => .ok []
  | some value =>
      if value.truthy then
        match value with
        | list xs => .ok xs
        | str s => .ok (s.map fun c => str [c])
        | dict entries => .ok (entries.map fun e => str e.1)
        | _ => .error .typeError
      else .ok []

/-! ### Values taken apart -/

/-- `value[key]` for a string key. -/
def subscript : Json → Str → Except Exc Json
  | dict entries, key => (entries.lookup key).elim (.error .keyError) .ok
  | _, _ => .error .typeError

/-- `value[0]`; no key of a dictionary is a number. -/
def subscriptZero : Json → Except Exc Json
  | list (x :: _) => .ok x
  | list [] => .error .indexError
  | str (c :: _) => .ok (str [c])
  | str [] => .error .indexError
  | dict _ => .error .keyError
  | _ => .error .typeError

/-- `for element in value`. -/
def elements : Json → Except Exc (List Json)
  | list xs => .ok xs
  | str s => .ok (s.map fun c => str [c])
  | dict entries => .ok (entries.map fun e => str e.1)
  | _ => .error .typeError

/-! ### `float` -/

/-- The least integer that is too large for a `float`: half way from the greatest
finite one to `2 ^ 1024`. -/
def floatOverflow : ℕ := 2 ^ 1024 - 2 ^ 970

/-- `float(value)`; that of a string, which may be refused, is the parameter. -/
def toFloat (floatOfStr : Str → Option Float64) : Json → Except Exc Float64
  | null => .error .typeError
  | bool b => .ok (.ofRat (if b then 1 else 0))
  | int n => if n.natAbs < floatOverflow then .ok (.ofRat n) else .error .overflowError
  | float x => .ok x
  | str s => (floatOfStr s).elim (.error .valueError) .ok
  | list _ => .error .typeError
  | dict _ => .error .typeError

end Json
end Data
end EvidenceLab
