import HelloExtensions.BigEndian
import HelloExtensions.Schema
import HelloExtensions.Schema.Scope

/-!
Writing a value by a schema. Labels, type numbers and checks take nothing from the value, and
of the value's fields only those that the schema names count. An integer stands for itself
where a registry is used, a text for the number it is assigned.
-/
namespace HelloExtensions

namespace Schema

def fail {α : Type} (reason : Mismatch) : Except Fault α := .error (.mismatch [] reason)

def encodeUInt (width : Nat) (n : Int) : Except Fault (List UInt8) :=
  if 0 ≤ n ∧ n < BigEndian.capacity width then .ok (BigEndian.encode width n.toNat)
  else fail (.outOfRange n width)

def encodeCode (registry : Registry) (value : Value) : Except Fault (List UInt8) :=
  match value.integer? with
  | some n => encodeUInt registry.width n
  | none => do
    let key ← value.key.mapError .shape
    match key.bind registry.number? with
    | some n => encodeUInt registry.width n
    | none => fail (.noAssignment value)

/-- Bytes as they are. Of anything else it is asked first how long it is. -/
def encodeRest (value : Value) : Except Fault (List UInt8) :=
  match value with
  | .bytes b => .ok b
  | _ => match value.elements with
    | .ok _ => fail (.notBytes value)
    | .error e => .error (.shape e)

/-- No byte string is longer. -/
def lengthCap : Int := 0x8000000000000000 - 34

/-- There is no memory for longer ones. -/
def memoryCap : Int := 0x40000000

/-- A value that is the integer `n`, written in a given size. -/
def encodeInteger (size : Amount) (n : Int) (value : Value) : Except Fault (List UInt8) :=
  if size.isBelow 1 then .error (.shape (.noWidth size))
  else match size with
    | .fraction _ _ => .error (.shape .unsupported)
    | .whole width =>
      if lengthCap < width then .error (.shape (.tooWide value width))
      else if memoryCap < width then .error (.shape .noMemory)
      else if 0 ≤ n ∧ n < BigEndian.capacity width.toNat then
        .ok (BigEndian.encode width.toNat n.toNat)
      else .error (.shape (.tooWide value width))

/-- Bytes of a given size. An integer is written in as many. -/
def encodeBytes (size : Amount) (value : Value) : Except Fault (List UInt8) :=
  match value.integer?, value with
  | some n, _ => encodeInteger size n value
  | none, .bytes b =>
    if size.isBelow 0 then fail (.negativeLength size)
    else if size.equals b.length then .ok b
    else fail (.wrongSize size.truncate b.length)
  | none, _ => fail (.notBytes value)

/-- Put the length of `content` before it. -/
def encodeRegion (width : Nat) (content : List UInt8) : Except Fault (List UInt8) := do
  let length ← encodeUInt width content.length
  return length ++ content

/-- Write items one after the other. -/
def encodeAll (write : Value → Except Fault (List UInt8)) :
    List Value → Except Fault (List UInt8)
  | [] => .ok []
  | v :: vs => do
    let first ← write v
    let others ← encodeAll write vs
    return first ++ others

def encodeSingle (write : Value → Except Fault (List UInt8)) (value : Value) :
    Except Fault (List UInt8) := do
  let items ← value.elements.mapError .shape
  if items.length = 1 then encodeAll write items else fail (.wrongCount 1 items.length)

/-- Whether the field may be missing from a record; it is then written as null. -/
def mayBeMissing : Schema → Bool
  | .optional _ => true
  | _ => false

end Schema

/-- Whether the first field needs nothing from the value. -/
def Fields.startDerived : Fields → Bool
  | .field .. => false
  | _ => true

mutual

def Schema.encode : Schema → (scope : Value) → Value → Except Fault (List UInt8)
  | .uint width, _, value =>
    match value.integer? with
    | some n => Schema.encodeUInt width n
    | none => Schema.fail (.notInteger value)
  | .code registry, _, value => Schema.encodeCode registry value
  | .rest, _, value => Schema.encodeRest value
  | .bytes up less, scope, value => do
    Schema.encodeBytes (← Scope.remaining scope up less) value
  | .region width content, scope, value => do
    let inside ← content.encode scope value
    Schema.encodeRegion width inside
  | .many item, scope, value => do
    let items ← value.elements.mapError .shape
    Schema.encodeAll (item.encode scope) items
  | .single item, scope, value => Schema.encodeSingle (item.encode scope) value
  | .optional content, scope, value =>
    if Scope.hasTakenName scope then Schema.fail (.noAlternative value)
    else match content.encode scope value with
      | .ok bytes => .ok bytes
      | .error _ => .ok []
  | .onlyIf up test content, scope, value => do
    if ← test.holds (← Scope.length scope up) then content.encode scope value else return []
  | .ifElse up test yes no, scope, value => do
    if ← test.holds (← Scope.length scope up) then yes.encode scope value
    else no.encode scope value
  | .record fields, scope, value => do
    let entries ← (value.entries fields.startDerived).mapError .shape
    fields.encode (Scope.inside entries scope) entries

def Fields.encode :
    Fields → (scope : Value) → List (String × Value) → Except Fault (List UInt8)
  | .done, _, _ => .ok []
  | .label _ _ more, scope, entries => more.encode scope entries
  | .typeNumber _ more, scope, entries => do
    let _ ← Scope.typeNumber scope
    more.encode scope entries
  | .check test more, scope, entries => do
    if ← test.holds (← Scope.length scope 1) then more.encode scope entries
    else .error (.mismatch [] .lengthCheck)
  | .field name schema more, scope, entries => do
    let value ←
      if schema.mayBeMissing then .ok ((entries.lookup name).getD .null)
      else ((Value.record entries).entry name).mapError .shape
    let first ← (schema.encode scope value).mapError (Fault.under name)
    let others ← more.encode scope entries
    return first ++ others

end

end HelloExtensions
