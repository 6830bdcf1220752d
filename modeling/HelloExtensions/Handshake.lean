import HelloExtensions.Content
import HelloExtensions.Extension.Typing
import HelloExtensions.Schema.Decode

/-!
Contents whose layout depends on the handshake message that carries the extension. They are
kept as bytes until the message is known. The bytes are complete then, so whatever does not
follow the layout is malformed, and bytes behind it are passed over.
-/
namespace HelloExtensions

open Schema Registry

inductive Message where
  | clientHello
  | serverHello
  | helloRetryRequest
deriving DecidableEq, Repr

namespace Message

def name : Message → String
  | .clientHello => "client_hello"
  | .serverHello => "server_hello"
  | .helloRetryRequest => "hello_retry_request"

def all : List Message := [.clientHello, .serverHello, .helloRetryRequest]

def ofName? (name : String) : Option Message := all.find? (·.name = name)

theorem ofName?_eq_some_iff {s : String} {message : Message} :
    ofName? s = some message ↔ message.name = s := by
  refine ⟨fun h => by simpa using List.find?_some h, fun h => ?_⟩
  subst h
  cases message <;> decide

end Message

namespace Handshake

def keyShareEntry : Schema :=
  Content.labelled "KeyShareEntry"
    (.field "group" (.code namedGroups) (.last "key_exchange" opaque16))

def keyShareClientHello : Schema :=
  Content.labelled "KeyShareClientHello" (.last "client_shares" (list16 keyShareEntry))

def keyShareHelloRetryRequest : Schema :=
  Content.labelled "KeyShareHelloRetryRequest" (.last "selected_group" (.code namedGroups))

def keyShareServerHello : Schema :=
  Content.labelled "KeyShareServerHello" (.last "server_share" keyShareEntry)

def pskIdentity : Schema :=
  .record (.field "identity" opaque16 (.last "obfuscated_ticket_age" uint32))

def pskBinderEntry : Schema := .record (.last "binder" opaque8)

def offeredPsks : Schema :=
  Content.labelled "OfferedPsks"
    (.field "identities" (list16 pskIdentity) (.last "binders" (list16 pskBinderEntry)))

def selectedIdentity : Schema :=
  Content.labelled "SelectedIdentity" (.last "selected_identity" uint16)

/-- A field that is kept as bytes, and its layout in each message that can carry it. -/
structure Payload where
  field : String
  layout? : Message → Option Schema

def keyShare : Payload where
  field := "key_share"
  layout?
    | .clientHello => some keyShareClientHello
    | .serverHello => some keyShareServerHello
    | .helloRetryRequest => some keyShareHelloRetryRequest

def preSharedKey : Payload where
  field := "pre_shared_key"
  layout?
    | .clientHello => some offeredPsks
    | .serverHello => some selectedIdentity
    | .helloRetryRequest => none

namespace Payload

/-- The message that a value names, with the layout in it. Another value is quoted in the
error, and this may fail. -/
def messageLayout (limit? : Option Text.Numeral.DigitLimit) (payload : Payload)
    (message : Value) : Except ExtensionError (Message × Schema) := do
  let key ← message.key.mapError .shape
  let found := do
    let m ← Message.ofName? (← key)
    return (m, ← payload.layout? m)
  match found with
  | some result => return result
  | none => .error ((ExtensionError.unexpectedMessage message).raised limit?)

/-- What bytes mean in a message. -/
def decodeBytes (payload : Payload) (message : Message) (layout : Schema) (bytes : List UInt8) :
    Except ExtensionError Value :=
  match layout.decode (Scope.outermost none) bytes with
  | .ok (value, _) => .ok value
  | .error fault => .error (.ofFault (.payload payload.field message.name) fault)

/-- What the field means in an extension, in its content, or in bytes given for it. -/
def decode (limit? : Option Text.Numeral.DigitLimit) (payload : Payload)
    (value message : Value) : Except ExtensionError Value := do
  let (m, layout) ← payload.messageLayout limit? message
  match ← Extension.payload value (.text payload.field) with
  | .bytes b => payload.decodeBytes m layout b
  | .null => payload.decodeBytes m layout []
  | _ => .error (.shape .unsupported)

end Payload
end Handshake
end HelloExtensions
