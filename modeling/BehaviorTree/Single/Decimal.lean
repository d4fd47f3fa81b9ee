import BehaviorTree.Single

/-!
Single-precision numbers written in decimal. A numeral means the nearest number, of two the one whose
last bit is zero; numerals too large for any number mean infinity.
-/
namespace BehaviorTree.Single

/-- The quotient rounded to the nearest natural number, a tie to the even one. -/
def roundDiv (num den : Nat) : Nat :=
  let q := num / den
  let r := num % den
  if den < 2 * r ∨ (2 * r = den ∧ q % 2 = 1) then q + 1 else q

/-- The exponent `e` of two such that `num / den` lies in `[2 ^ e, 2 ^ (e + 1))`, for positive numbers. -/
def exponent (num den : Nat) : Int :=
  let e : Int := (Nat.log2 num : Int) - (Nat.log2 den : Int)
  let below : Bool := if 0 ≤ e then num < den <<< e.toNat else num <<< (-e).toNat < den
  if below then e - 1 else e

/-- The bits of the number nearest to `num / den`, for positive numbers. The last of its 24 digits
counts `2 ^ (e - 23)`, but never less than `2 ^ -149`. -/
def ofRatio (num den : Nat) : UInt32 :=
  let unit : Int := max (exponent num den - 23) (-149)
  let m := if 0 ≤ unit then roundDiv num (den <<< unit.toNat) else roundDiv (num <<< (-unit).toNat) den
  let bits : Nat := (unit + 149).toNat * 0x800000 + m
  UInt32.ofNat (min bits 0x7f800000)

/-- The bits of the number nearest to `m * 10 ^ e`. -/
def ofDecimal (m : Nat) (e : Int) : UInt32 :=
  let top : Int := (Nat.toDigits 10 m).length + e
  if m = 0 ∨ top < -60 then 0
  else if 60 < top then 0x7f800000
  else if 0 ≤ e then ofRatio (m * Nat.pow 10 e.toNat) 1
  else ofRatio m (Nat.pow 10 (-e).toNat)

def natOf (cs : List Char) : Nat := cs.foldl (fun n c => 10 * n + (c.toNat - 48)) 0

/-- A sign and what follows it; the sign is whether the number is negative. -/
def signed : List Char → Bool × List Char
  | '-' :: cs => (true, cs)
  | '+' :: cs => (false, cs)
  | cs => (false, cs)

def exponent? : List Char → Option Int
  | [] => some 0
  | c :: cs =>
    let (negative, cs) := signed cs
    if (c = 'e' ∨ c = 'E') ∧ !cs.isEmpty ∧ cs.all Char.isDigit then
      some (if negative then -(natOf cs : Int) else natOf cs)
    else none

/-- The bits of a numeral without sign: digits, perhaps a point among or around them, an exponent. -/
def numeral? (cs : List Char) : Option UInt32 :=
  let (whole, cs) := cs.span Char.isDigit
  let (fraction, cs) :=
    match cs with
    | '.' :: cs => cs.span Char.isDigit
    | cs => ([], cs)
  if whole.isEmpty ∧ fraction.isEmpty then none
  else do
    let e ← exponent? cs
    return ofDecimal (natOf (whole ++ fraction)) (e - fraction.length)

/-- The bits of a number without sign: a numeral, infinity or the quiet NaN, by name in any case. -/
def magnitude? (cs : List Char) : Option UInt32 :=
  let name := String.ofList (cs.map Char.toLower)
  if name = "inf" ∨ name = "infinity" then some 0x7f800000
  else if name = "nan" then some 0x7fc00000
  else numeral? cs

def ofText? (text : String) : Option Single := do
  let (negative, cs) := signed text.toList
  let bits ← magnitude? cs
  return ⟨if negative then bits ||| 0x80000000 else bits⟩

end BehaviorTree.Single
