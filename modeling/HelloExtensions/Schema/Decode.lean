import HelloExtensions.BigEndian
import HelloExtensions.Schema
import HelloExtensions.Schema.Portion
import HelloExtensions.Schema.Scope

/-!
Reading bytes by a schema. The result is a value and the bytes behind it. A list takes items
until one fails, and what has been read of that one is left where it was; nothing a region
leaves is seen outside it.
-/
namespace HelloExtensions

/-- No byte string is read in portions of more bytes. -/
def readingCap : Int := 0x7fffffffffffffff

/-- As many bytes as an amount says. -/
def takeAmount (size : Amount) (bytes : List UInt8) : Except Fault (List UInt8 × List UInt8) :=
  if size.isBelow 0 then .error (.mismatch [] (.negativeLength size))
  else match size with
    | .whole n =>
      if readingCap < n then .error (.mismatch [] (.unreadable size))
      else takeBytes n.toNat bytes
    | .fraction _ _ => .error (.mismatch [] (.unreadable size))

mutual

def Schema.decode : Schema → (scope : Value) → List UInt8 → Except Fault (Value × List UInt8)
  | .uint width, _, bytes => do
    let (digits, rest) ← takeBytes width bytes
    return (.int (BigEndian.decode digits), rest)
  | .code registry, _, bytes => do
    let (digits, rest) ← takeBytes registry.width bytes
    return (.code (registry.codePoint (BigEndian.decode digits)), rest)
  | .rest, _, bytes => .ok (.bytes bytes, [])
  | .bytes up less, scope, bytes => do
    let (content, rest) ← takeAmount (← Scope.remaining scope up less) bytes
    return (.bytes content, rest)
  | .region width content, scope, bytes => do
    let (digits, rest) ← takeBytes width bytes
    let (inside, outside) ← takeBytes (BigEndian.decode digits) rest
    let (value, _) ← content.decode scope inside
    return (value, outside)
  | .many item, scope, bytes =>
    let (items, rest) := readAll (item.decode scope) bytes
    .ok (.list items, rest)
  | .single item, scope, bytes => do
    let (value, rest) ← item.decode scope bytes
    return (.list [value], rest)
  | .optional content, scope, bytes =>
    match content.decode scope bytes with
    | .ok result => .ok result
    | .error _ => .ok (.null, bytes)
  | .onlyIf up test content, scope, bytes => do
    if ← test.holds (← Scope.length scope up) then content.decode scope bytes
    else return (.null, bytes)
  | .ifElse up test yes no, scope, bytes => do
    if ← test.holds (← Scope.length scope up) then yes.decode scope bytes
    else no.decode scope bytes
  | .record fields, scope, bytes => do
    let (entries, rest) ← fields.decode (Scope.inside [] scope) bytes
    return (.record entries, rest)

def Fields.decode :
    Fields → (scope : Value) → List UInt8 → Except Fault (List (String × Value) × List UInt8)
  | .done, _, bytes => .ok ([], bytes)
  | .label name text more, scope, bytes => do
    let (entries, rest) ← more.decode scope bytes
    return ((name, .text text) :: entries, rest)
  | .typeNumber name more, scope, bytes => do
    let number ← Scope.typeNumber scope
    let (entries, rest) ← more.decode scope bytes
    return ((name, .int number) :: entries, rest)
  | .check test more, scope, bytes => do
    if ← test.holds (← Scope.length scope 1) then more.decode scope bytes
    else .error (.mismatch [] .lengthCheck)
  | .field name schema more, scope, bytes => do
    let (value, rest) ← (schema.decode scope bytes).mapError (Fault.under name)
    let (entries, rest) ← more.decode scope rest
    return ((name, value) :: entries, rest)

end

end HelloExtensions
