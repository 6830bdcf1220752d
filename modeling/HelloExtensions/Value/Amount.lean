import HelloExtensions.Value.Text

/-!
Values taken as amounts. A truth value counts as zero or one, and a named code point is no
amount. Lengths are whole amounts as a rule, but callers may declare other ones.
-/
namespace HelloExtensions

inductive Amount where
  | whole (n : Int)
  /-- The number `mantissa / 10 ^ places`. -/
  | fraction (mantissa : Int) (places : Nat)
deriving DecidableEq, Repr, Inhabited

namespace Amount

def text : Amount → String
  | .whole n => toString n
  | .fraction m p => Value.decimalText m p

/-- What the mantissa is if the amount is one. -/
def unit (places : Nat) : Int := Nat.pow 10 places

/-- The whole part, towards zero. -/
def truncate : Amount → Int
  | .whole n => n
  | .fraction m p => m.tdiv (unit p)

def minus (k : Nat) : Amount → Amount
  | .whole n => .whole (n - k)
  | .fraction m p => .fraction (m - k * unit p) p

def equals (k : Int) : Amount → Bool
  | .whole n => n == k
  | .fraction m p => m == k * unit p

def isBelow (k : Int) : Amount → Bool
  | .whole n => n < k
  | .fraction m p => m < k * unit p

def isAbove (k : Int) : Amount → Bool
  | .whole n => k < n
  | .fraction m p => k * unit p < m

end Amount

namespace Value

/-- The integer that a value is, without any reading. A named code point is a text. -/
def integer? : Value → Option Int
  | .int n => some n
  | .bool b => some b.toInt
  | .code ⟨n, none⟩ => some n
  | _ => none

def amount? : Value → Option Amount
  | .decimal m p => some (.fraction m p)
  | v => v.integer?.map .whole

end Value
end HelloExtensions
