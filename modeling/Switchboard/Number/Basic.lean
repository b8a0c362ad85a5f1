/-!
Numbers: double-precision values, held as their 64 bits. Exponent and fraction
are read off in `Nat`, so that every question about a number (is it whole, is it
small, is it equal to another) is a question of exact arithmetic. A finite number
is its significand times a power of two, in units of the smallest positive number.
-/

namespace Switchboard

/-- Two to a natural power. -/
def twoTo (exponent : Nat) : Nat :=
  Nat.pow 2 exponent

/-- Ten to a natural power. -/
def tenTo (exponent : Nat) : Nat :=
  Nat.pow 10 exponent

/-- A double-precision number. -/
structure Number where
  bits : UInt64
  deriving DecidableEq, Repr

namespace Number

/-- The eleven bits of the exponent. -/
def exponentField (n : Number) : Nat :=
  n.bits.toNat / twoTo 52 % 2048

/-- The fifty-two bits of the fraction. -/
def fraction (n : Number) : Nat :=
  n.bits.toNat % twoTo 52

/-- The sign bit, set also in negative zero. -/
def isNegative (n : Number) : Bool :=
  twoTo 63 ≤ n.bits.toNat

def isNaN (n : Number) : Bool :=
  n.exponentField == 2047 && n.fraction != 0

def isInfinite (n : Number) : Bool :=
  n.exponentField == 2047 && n.fraction == 0

def isFinite (n : Number) : Bool :=
  n.exponentField != 2047

/-- Either zero. -/
def isZero (n : Number) : Bool :=
  n.exponentField == 0 && n.fraction == 0

/-- The integer that the power of two scales; the leading bit is implied unless
the exponent is the smallest. -/
def significand (n : Number) : Nat :=
  if n.exponentField = 0 then n.fraction else twoTo 52 + n.fraction

/-- The power of two, counted from the unit `2 ^ (-1074)`. -/
def scale (n : Number) : Nat :=
  n.exponentField - 1

/-- The magnitude of a finite number in units of `2 ^ (-1074)`. -/
def units (n : Number) : Nat :=
  n.significand * twoTo n.scale

/-- How many units make one. -/
def unitsPerOne : Nat :=
  twoTo 1074

/-- Equality of numbers: NaN equals nothing, and the two zeros are equal. -/
def equal (a b : Number) : Bool :=
  !a.isNaN && !b.isNaN && (a.bits == b.bits || (a.isZero && b.isZero))

/-- Finite and without a fractional part. -/
def isWhole (n : Number) : Bool :=
  n.isFinite && n.units % unitsPerOne == 0

/-- Finite and of a magnitude below a natural bound. -/
def isBelow (bound : Nat) (n : Number) : Bool :=
  n.isFinite && n.units < bound * unitsPerOne

/-- The integer that a whole number is. -/
def toInt? (n : Number) : Option Int :=
  if n.isWhole then
    let magnitude : Int := (n.units / unitsPerOne : Nat)
    some (if n.isNegative then -magnitude else magnitude)
  else none

/-- A number from its sign and the bits of its magnitude. -/
def ofMagnitude (negative : Bool) (magnitude : Nat) : Number :=
  ⟨UInt64.ofNat (if negative then twoTo 63 + magnitude else magnitude)⟩

/-- The magnitude bits of infinity. -/
def infiniteMagnitude : Nat :=
  2047 * twoTo 52

def zero : Number := ofMagnitude false 0

def negativeZero : Number := ofMagnitude true 0

def infinity (negative : Bool) : Number := ofMagnitude negative infiniteMagnitude

def nan : Number := ofMagnitude false (infiniteMagnitude + twoTo 51)

theorem equal_comm (a b : Number) : a.equal b = b.equal a := by
  unfold equal
  rw [Bool.and_comm (!a.isNaN), Bool.and_comm a.isZero, BEq.comm (a := a.bits)]

theorem equal_self (a : Number) : a.equal a = !a.isNaN := by
  simp [equal]

theorem equal_trans {a b c : Number} (hab : a.equal b = true) (hbc : b.equal c = true) :
    a.equal c = true := by
  simp only [equal, Bool.and_eq_true, Bool.or_eq_true, Bool.not_eq_true', beq_iff_eq] at *
  obtain ⟨⟨ha, _⟩, hab⟩ := hab
  obtain ⟨⟨_, hc⟩, hbc⟩ := hbc
  refine ⟨⟨ha, hc⟩, ?_⟩
  have zero_of_bits {x y : Number} (h : x.bits = y.bits) (hz : y.isZero = true) :
      x.isZero = true := by
    obtain ⟨xb⟩ := x
    obtain ⟨yb⟩ := y
    obtain rfl : xb = yb := h
    exact hz
  rcases hab with hab | ⟨hza, hzb⟩
  · rcases hbc with hbc | ⟨hzb, hzc⟩
    · exact Or.inl (hab.trans hbc)
    · exact Or.inr ⟨zero_of_bits hab hzb, hzc⟩
  · rcases hbc with hbc | ⟨_, hzc⟩
    · exact Or.inr ⟨hza, zero_of_bits hbc.symm hzb⟩
    · exact Or.inr ⟨hza, hzc⟩

end Number

end Switchboard
