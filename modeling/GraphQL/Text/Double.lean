/-! Doubles are kept as their 64 bits. Comparison is that of the numbers: the two
zeros are equal, and what is not a number differs from everything, itself included. No
literal denotes anything that is not a number. -/
namespace GraphQL

structure Double where
  bits : UInt64

namespace Double

def isZero (d : Double) : Bool := d.bits <<< 1 == 0

/-- The magnitude is at most that of infinity. -/
def isNumber (d : Double) : Bool := d.bits <<< 1 ≤ 0xffe0000000000000

def same (a b : Double) : Bool :=
  a.isNumber && b.isNumber && (a.bits == b.bits || (a.isZero && b.isZero))

instance : BEq Double := ⟨same⟩

theorem same_self (d : Double) : same d d = d.isNumber := by simp [same]

def zero : Double := ⟨0⟩

def infinity : Double := ⟨0x7ff0000000000000⟩

def notANumber : Double := ⟨0x7ff8000000000000⟩

def negate (d : Double) : Double := ⟨d.bits ^^^ 0x8000000000000000⟩

/-- The double nearest to `digits * 10 ^ exponent`, where `places` is the number of
digits and the first of them is not zero. Values of 10^309 and above are infinite, values below 10^-325 are zero. -/
def ofDecimal (digits places : Nat) (exponent : Int) : Double :=
  if digits = 0 then zero
  else if exponent + places > 309 then infinity
  else if exponent + places ≤ -325 then zero
  else ⟨(Float.ofScientific digits (exponent < 0) exponent.natAbs).toBits⟩

end Double
end GraphQL
