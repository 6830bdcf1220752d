import HelloExtensions.Registry

/-!
The values that extensions are read into and written from. Writing takes values that callers
put together, so nothing is known of their shape: fields may be missing and numbers may be
booleans or texts.
-/
namespace HelloExtensions

inductive Value where
  | null
  | bool (b : Bool)
  | int (n : Int)
  /-- The number `mantissa / 10 ^ places`. -/
  | decimal (mantissa : Int) (places : Nat)
  | text (s : String)
  | bytes (b : List UInt8)
  | code (c : CodePoint)
  | list (items : List Value)
  | record (fields : List (String × Value))
deriving Repr, Inhabited

end HelloExtensions
