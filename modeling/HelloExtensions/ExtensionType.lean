import HelloExtensions.Registry.Assignments
import HelloExtensions.Value.Shape

/-!
Types of extensions as numbers, as names and as code points. Some numbers are GREASE: they are
kept free so that peers get used to types they do not know. Each byte of such a number ends in
the hexadecimal digit a. One of the GREASE numbers has a name as well.
-/
namespace HelloExtensions.ExtensionType

open Registry

/-- The numbers of types have two bytes. -/
def bound : Int := 65536

def greaseMask : Nat := 0x0f0f

def greasePattern : Nat := 0x0a0a

/-- Whether a number is a GREASE one. Only its last two bytes count. -/
def isGrease (number : Int) : Bool :=
  (number % bound).toNat &&& greaseMask == greasePattern

/-- The code point of a number, which has to have two bytes. -/
def ofNumber (number : Int) : Except ShapeError CodePoint :=
  if number < 0 then .error .negativeCode
  else if bound ≤ number then .error .wideCode
  else .ok (extensionTypes.codePoint number.toNat)

/-- The code point of a value, which has to be an integer. -/
def ofValue (value : Value) : Except ShapeError CodePoint :=
  match value.integer? with
  | some number => ofNumber number
  | none => .error .noFields

/-- Whether a value is a number or a code point, so that it is not looked up by its text. -/
def isNumeric : Value → Bool
  | .int _ => true
  | .bool _ => true
  | .code _ => true
  | _ => false

end HelloExtensions.ExtensionType
