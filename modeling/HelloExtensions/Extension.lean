import HelloExtensions.BigEndian
import HelloExtensions.Content
import HelloExtensions.Extension.Error
import HelloExtensions.ExtensionType
import HelloExtensions.Schema.Decode
import HelloExtensions.Schema.Encode

/-!
An extension is its type and the length of its content, two bytes each, and the content. The
layout of the content follows from the type: GREASE numbers come first, then the names that
have a layout, and everything else is of unknown layout. A content never sees the bytes behind
it, so once the declared length is there more bytes do not change the result.
-/
namespace HelloExtensions

structure Extension where
  type : CodePoint
  length : Nat
  content : Value

namespace Extension

open ExtensionType Registry

def headerSize : Nat := 4

/-- The layout of the content of an extension whose type has this number and name. -/
def layout (number : Int) (name? : Option String) : Schema :=
  if isGrease number then Content.grease
  else (name?.bind fun name => Content.contents.lookup name).getD Content.unknown

/-- What the content of an extension can see of it while it is read. -/
def scope (type : CodePoint) (length : Nat) : Value :=
  Scope.inside [(Scope.typeName, .code type), (Scope.lengthName, .int length)]
    (Scope.outermost none)

/-- The content in `body`, which holds all of it and nothing else. -/
def decodeContent (type : CodePoint) (body : List UInt8) : Except Fault Value := do
  let (content, _) ← (layout type.number type.name?).decode (scope type body.length) body
  return content

/-- The extension at the start of the bytes, field by field. -/
def read (bytes : List UInt8) : Except Fault (Extension × List UInt8) := do
  let (digits, rest) ← (takeBytes 2 bytes).mapError (.under "extension_type")
  let type := extensionTypes.codePoint (BigEndian.decode digits)
  let (size, rest) ← (takeBytes 2 rest).mapError (.under "_length")
  let length := BigEndian.decode size
  let (body, rest) ← (takeBytes length rest).mapError (.under "extension_data")
  let content ← (decodeContent type body).mapError (.under "extension_data")
  return (⟨type, length, content⟩, rest)

/-- The extension at the start of the bytes and the bytes behind it. If the header or the
content is cut off, the error tells how many bytes are needed to get on. -/
def decode : List UInt8 → Except ExtensionError (Extension × List UInt8)
  | a :: b :: c :: d :: rest =>
    let type := extensionTypes.codePoint (BigEndian.decode [a, b])
    let length := BigEndian.decode [c, d]
    let body := rest.take length
    if body.length < length then .error (.incomplete (length - body.length))
    else match decodeContent type body with
      | .ok content => .ok (⟨type, length, content⟩, rest.drop length)
      | .error fault =>
        .error (.ofFault (.extension type length) (fault.under "extension_data"))
  | bytes => .error (.incomplete (headerSize - bytes.length))

/-- The extension as a record of its fields. -/
def toValue (ext : Extension) : Value :=
  .record [("_name", .text "Extension"), ("extension_type", .code ext.type),
    ("_length", .int ext.length), ("extension_data", ext.content)]

/-- Write a record as an extension. The content is padded with zeros to the length that the
record declares. -/
def encode (value : Value) : Except Fault (List UInt8) := do
  let entries ← (value.entries true).mapError .shape
  let ext := Value.record entries
  let around := Scope.outermost none
  let type ← (ext.entry "extension_type").mapError .shape
  let typeBytes ← (Schema.encodeCode extensionTypes type).mapError (.under "extension_type")
  let size ← (ext.entry "_length").mapError .shape
  let sizeBytes ← (Schema.uint16.encode around size).mapError (.under "_length")
  let content ← (ext.entry "extension_data").mapError .shape
  let number ← type.number.mapError .shape
  let length := BigEndian.decode sizeBytes
  let body ← ((layout number type.text?).encode (Scope.inside entries around) content).mapError
    (.under "extension_data")
  if body.length ≤ length then
    return typeBytes ++ sizeBytes ++ body ++ List.replicate (length - body.length) 0
  else .error (.mismatch ["extension_data"] (.overfull body.length length))

end Extension
end HelloExtensions
