import HelloExtensions.Content
import HelloExtensions.Extension.Error
import HelloExtensions.ExtensionType

/-!
Questions about an extension or about its content alone, asked of a value that may be either.
The type follows from the label of the content, so all GREASE numbers count as one type; a
content of unknown layout has to be asked together with its extension.
-/
namespace HelloExtensions.Extension

open Registry Text.Numeral

/-- The number of the type that a value names: a number or code point for itself, a text for
the number it is assigned. What is no type is quoted in the error, and this may fail. -/
def typeNumber (limit? : Option DigitLimit) (value : Value) : Except ExtensionError Int :=
  if ExtensionType.isNumeric value then do
    let number ← value.number.mapError .shape
    if 0 ≤ number ∧ number < ExtensionType.bound then return number
    else .error ((ExtensionError.typeOutOfRange value).raised limit?)
  else do
    let key ← value.key.mapError .shape
    match key.bind extensionTypes.number? with
    | some number => return number
    | none => .error ((ExtensionError.unknownType value).raised limit?)

/-- The content of a value that is an extension, or the value. -/
def contentOf (value : Value) : Except ShapeError Value := do
  return (← value.field? "extension_data").getD value

/-- The number of the type that the label of the content stands for. -/
def typeOf (value : Value) : Except ExtensionError Int := do
  let content ← (contentOf value).mapError .shape
  let label ← (content.entry "_name").mapError .shape
  if label.text? = some "Unknown" then
    match value.field? "extension_type" with
    | .ok (some type) => type.number.mapError .shape
    | _ => .error .untyped
  else
    let key ← label.key.mapError .shape
    match key.bind fun name => Content.labelTypes.lookup name with
    | some name => typeNumber (some .standard) (.text name)
    | none => .error (.shape (.noEntry label))

/-- The version that a server has selected. Only the form that a server sends has one. -/
def selectedVersion (value : Value) : Except ExtensionError (Option Value) := do
  let content ← (contentOf value).mapError .shape
  let label ← (content.entry "_name").mapError .shape
  if label.text? = some "SelectedVersion" then
    let versions ← (content.entry "versions").mapError .shape
    let version ← (versions.get (.int 0)).mapError .shape
    return some version
  else return none

/-- What the content holds under a key. Bytes stand for themselves, whatever the key. -/
def payload (value key : Value) : Except ExtensionError Value :=
  match value with
  | .bytes b => .ok (.bytes b)
  | _ => do
    let content ← (contentOf value).mapError .shape
    (content.get key).mapError .shape

end HelloExtensions.Extension
