/-!
Single-precision numbers as their 32 bits. A sum with a NaN operand is that operand made quiet, the
left one first, so the bits of every sum of given operands are fixed.
-/
namespace BehaviorTree

/-- A single-precision number, by its bits. -/
structure Single where
  bits : UInt32
  deriving DecidableEq, Repr, Inhabited

namespace Single

def isNaN (x : Single) : Bool := x.bits &&& 0x7fffffff > 0x7f800000

/-- A NaN with its quiet bit set. -/
def quiet (x : Single) : Single := ⟨x.bits ||| 0x00400000⟩

def add (x y : Single) : Single :=
  if x.isNaN then x.quiet
  else if y.isNaN then y.quiet
  else ⟨(Float32.ofBits x.bits + Float32.ofBits y.bits).toBits⟩

instance : Add Single := ⟨add⟩

/-- The key that orders the numbers other than NaN; the two zeros share one. -/
def rank (x : Single) : Int :=
  let magnitude : Int := (x.bits &&& 0x7fffffff).toNat
  if x.bits &&& 0x80000000 = 0 then magnitude else -magnitude

/-- `y ≤ x` between numbers; a NaN is not comparable. -/
def atLeast (x y : Single) : Bool := !x.isNaN && !y.isNaN && decide (y.rank ≤ x.rank)

def zero : Single := ⟨0⟩

end Single
end BehaviorTree
