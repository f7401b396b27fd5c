import GatewayRules.Text.Decimal

/-!
Numbers of a JSON text. A number without fraction and exponent is an integer if it fits into 64
bits. Every other number is a float: its digits are gathered into 64 bits and scaled by a power of
ten, and what matters is whether the result is finite.
-/
namespace GatewayRules.Json

inductive Number where
  | integer (value : Int)
  | float (isFinite : Bool)
  deriving DecidableEq, Repr, Inhabited

namespace Number

/-- The nearest number with at most 53 significant bits; a number in the middle goes to the even
one. -/
def roundTo53 (n : Nat) : Nat :=
  let shift := (Nat.log2 n + 1) - 53
  let unit := 1 <<< shift
  let quotient := n / unit
  let rest := n % unit
  if 2 * rest < unit ∨ shift = 0 then quotient * unit
  else if unit < 2 * rest ∨ quotient % 2 = 1 then (quotient + 1) * unit
  else quotient * unit

/-- The float for `significand * 10 ^ exponent` is finite. -/
def isFinite (significand : Nat) (exponent : Int) : Bool :=
  if significand = 0 ∨ exponent ≤ 0 then true
  else if 308 < exponent then false
  else roundTo53 (roundTo53 significand * roundTo53 (Nat.pow 10 exponent.toNat)) < 1 <<< 1024

structure Gathered where
  value : Nat
  dropped : Nat

def Gathered.push (g : Gathered) (c : Char) : Gathered :=
  let value := 10 * g.value + (c.toNat - '0'.toNat)
  if g.dropped = 0 ∧ value < UInt64.size then { g with value }
  else { g with dropped := g.dropped + 1 }

def gather (start : Nat) (digits : List Char) : Gathered := digits.foldl .push ⟨start, 0⟩

def maxExponent : Nat := 0x7fffffff

/-- The finiteness of a number with the given digits before and after the point and after the
exponent mark. -/
def floatIsFinite (whole fraction : List Char) (exponent : Option (Bool × List Char)) : Bool :=
  let before := gather 0 whole
  let after := gather before.value fraction
  let kept : Nat := fraction.length - after.dropped
  let scale : Int := (before.dropped : Int) - kept
  match exponent with
  | none => isFinite after.value scale
  | some (negative, digits) =>
    let size := Text.ofDecimal digits
    if negative then isFinite after.value (scale - size)
    else if maxExponent < size then after.value = 0
    else isFinite after.value (scale + size)

def ofDigits (negative : Bool) (whole : List Char) (fraction : Option (List Char))
    (exponent : Option (Bool × List Char)) : Number :=
  match fraction, exponent with
  | none, none =>
    let n := Text.ofDecimal whole
    if negative then
      if 0 < n ∧ n ≤ UInt64.size / 2 then .integer (-n) else .float (floatIsFinite whole [] none)
    else if n < UInt64.size then .integer n
    else .float (floatIsFinite whole [] none)
  | _, _ => .float (floatIsFinite whole (fraction.getD []) exponent)

end Number

end GatewayRules.Json
