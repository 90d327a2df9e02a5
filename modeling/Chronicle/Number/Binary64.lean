/-!
The numbers of readings. `Arithmetic` is what aggregation asks of a number: accumulators are
written over it, so one definition runs on doubles and can also be read over an exact field.
No law is assumed, since doubles satisfy few of them. The doubles are those of IEEE 754, as
their 64 bits: a stored reading keeps its bits whatever they are, so a not-a-number value with
a payload is a value like any other here. Comparison is done on the bits. The rounded
operations use the machine's own arithmetic for numbers and say themselves what happens to a
not-a-number operand.
-/

namespace Chronicle

/-- Numbers that can be counted into, combined and compared. `less` is a plain
test: a value that is not a number may stand in no order to anything. -/
class Arithmetic (α : Type) where
  ofNat : Nat → α
  add : α → α → α
  sub : α → α → α
  mul : α → α → α
  div : α → α → α
  sqrt : α → α
  less : α → α → Bool

namespace Arithmetic

variable {α : Type} [Arithmetic α]

/-- The first of two values, unless the second is strictly below it. -/
def lower (held offered : α) : α := if less offered held then offered else held

def upper (held offered : α) : α := if less held offered then offered else held

end Arithmetic

structure Binary64 where
  bits : UInt64
deriving DecidableEq, Inhabited

namespace Binary64

def zero : Binary64 := ⟨0⟩

def magnitude (value : Binary64) : UInt64 := value.bits &&& 0x7fffffffffffffff

def isNegative (value : Binary64) : Bool := value.bits >= 0x8000000000000000

def isNaN (value : Binary64) : Bool := value.magnitude > 0x7ff0000000000000

/-- Numbers are ordered as these keys are: the bits below the sign grow with the
absolute value, and both zeros have key zero. -/
def orderKey (value : Binary64) : Int :=
  if value.isNegative then -(value.magnitude.toNat : Int) else value.magnitude.toNat

def less (left right : Binary64) : Bool :=
  !left.isNaN && !right.isNaN && decide (left.orderKey < right.orderKey)

def toFloat (value : Binary64) : Float := Float.ofBits value.bits

def invalid : Binary64 := ⟨0xfff8000000000000⟩

/-- A not-a-number operand comes out of an operation with its quiet bit set. -/
def quiet (value : Binary64) : Binary64 := ⟨value.bits ||| 0x0008000000000000⟩

def ofFloat (result : Float) : Binary64 :=
  if result.isNaN then invalid else ⟨result.toBits⟩

/-- A rounded operation; the first operand that is not a number decides. -/
def rounded (operation : Float → Float → Float) (left right : Binary64) : Binary64 :=
  if left.isNaN then left.quiet
  else if right.isNaN then right.quiet
  else ofFloat (operation left.toFloat right.toFloat)

def add : Binary64 → Binary64 → Binary64 := rounded (· + ·)

def sub : Binary64 → Binary64 → Binary64 := rounded (· - ·)

def mul : Binary64 → Binary64 → Binary64 := rounded (· * ·)

def div : Binary64 → Binary64 → Binary64 := rounded (· / ·)

def sqrt (value : Binary64) : Binary64 :=
  if value.isNaN then value.quiet else ofFloat value.toFloat.sqrt

def neg (value : Binary64) : Binary64 := ⟨value.bits ^^^ 0x8000000000000000⟩

def ofNat (count : Nat) : Binary64 := ofFloat (Float.ofNat count)

instance : Arithmetic Binary64 where
  ofNat := ofNat
  add := add
  sub := sub
  mul := mul
  div := div
  sqrt := sqrt
  less := less

end Binary64

end Chronicle
