/-!
The four operations on 64-bit signed integers, with overflow found before it happens.

Each operation is guarded by a test that itself stays within 64 bits: it moves one operand to the
other side of the bound, where nothing can overflow. Division truncates toward zero; its only
quotient out of range is that of the least integer by minus one.
-/

namespace Turtle.Checked

def max : Int64 := Int64.maxValue
def min : Int64 := Int64.minValue

/-! ### The guards -/

def addOverflows (l r : Int64) : Bool :=
  (0 < r && max - r < l) || (r < 0 && l < min - r)

def subOverflows (l r : Int64) : Bool :=
  (r < 0 && max + r < l) || (0 < r && l < min + r)

def mulOverflows (l r : Int64) : Bool :=
  if 0 < l then
    if 0 < r then max / r < l else r < min / l
  else if l < 0 then
    if 0 < r then l < min / r else r != 0 && r < max / l
  else false

def divOverflows (l r : Int64) : Bool :=
  l == min && r == -1

/-! ### The operations -/

inductive Failure
  | overflow
  | divisionByZero
  deriving DecidableEq, Repr

/-- The result, unless it is out of range. -/
def guarded (overflows : Bool) (result : Int64) : Except Failure Int64 :=
  if overflows then .error .overflow else .ok result

def add (l r : Int64) : Except Failure Int64 :=
  guarded (addOverflows l r) (l + r)

def sub (l r : Int64) : Except Failure Int64 :=
  guarded (subOverflows l r) (l - r)

def mul (l r : Int64) : Except Failure Int64 :=
  guarded (mulOverflows l r) (l * r)

def div (l r : Int64) : Except Failure Int64 :=
  if r == 0 then .error .divisionByZero else guarded (divOverflows l r) (l / r)

end Turtle.Checked
