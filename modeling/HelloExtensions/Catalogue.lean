import HelloExtensions.Extension
import HelloExtensions.Handshake

/-!
Every layout of the library under its name, to be read and written on its own. The length that
a content would find in its extension is then given beside it, or not at all.
-/
namespace HelloExtensions

open Content Handshake Registry

namespace Catalogue

def registries : List (String × Registry) :=
  [("ExtensionType", extensionTypes), ("NameType", nameTypes),
   ("MaxFragmentLengthValue", fragmentLengths), ("CertificateStatusType", certificateStatusTypes),
   ("HeartbeatMode", heartbeatModes), ("PskKeyExchangeMode", pskKeyExchangeModes),
   ("ProtocolVersion", protocolVersions), ("NamedGroup", namedGroups),
   ("CipherSuite", cipherSuites), ("SignatureScheme", signatureSchemes)]

/-- A number in `width` bytes. -/
def bytesOf (width number : Int) : Except ShapeError (List UInt8) :=
  if width < 0 then .error .negativeWidth
  else if number < 0 then .error .negativeCode
  else if BigEndian.capacity width.toNat ≤ number then .error .wideCode
  else .ok (BigEndian.encode width.toNat number.toNat)

/-- What a registry reads at the front of a number in `width` bytes. -/
def codePointAt (registry : Registry) (width number : Int) : Except Fault CodePoint := do
  let bytes ← (bytesOf width number).mapError .shape
  let (digits, _) ← takeBytes registry.width bytes
  return registry.codePoint (BigEndian.decode digits)

/-- The start of an extension, without its content. -/
def extensionHeader : Schema :=
  .record (.field "extension_type" (.code extensionTypes) (.last "length" Schema.uint16))

def schemas : List (String × Schema) :=
  registries.map (fun r => (r.1, .code r.2)) ++
  [("ProtocolVersionList", protocolVersionList), ("NamedGroupList", namedGroupList),
   ("ServerName", serverName), ("ServerNameList", serverNameList),
   ("MaxFragmentLength", maxFragmentLength),
   ("CertificateStatusRequest", certificateStatusRequest), ("StatusRequest", statusRequest),
   ("ECPointFormatList", ecPointFormatList), ("SignatureSchemeList", signatureSchemeList),
   ("Heartbeat", heartbeat), ("ProtocolName", protocolName),
   ("ProtocolNameList", protocolNameList),
   ("SignedCertificateTimestamp", signedCertificateTimestamp), ("Padding", padding),
   ("EncryptThenMac", encryptThenMac), ("ExtendedMasterSecret", extendedMasterSecret),
   ("PostHandshakeAuth", postHandshakeAuth),
   ("NextProtocolNegotiation", nextProtocolNegotiation), ("RecordSizeLimit", recordSizeLimit),
   ("SessionTicket", sessionTicket), ("KeyShareOld", keyShareOld), ("KeyShare", Content.keyShare),
   ("PreSharedKey", Content.preSharedKey), ("Cookie", cookie),
   ("EarlyDataIndication", earlyDataIndication), ("SelectedVersion", selectedVersion),
   ("VersionList", versionList), ("SupportedVersions", supportedVersions),
   ("PskKeyExchangeModes", pskKeyExchangeModeList), ("OIDFilter", oidFilter),
   ("OIDFilterExtension", oidFilterExtension), ("RenegotiationInfo", renegotiationInfo),
   ("EncryptedServerName", encryptedServerName), ("Grease", grease), ("Unknown", unknown),
   ("ExtensionHeader", extensionHeader), ("KeyShareEntry", keyShareEntry),
   ("KeyShareClientHello", keyShareClientHello),
   ("KeyShareHelloRetryRequest", keyShareHelloRetryRequest),
   ("KeyShareServerHello", keyShareServerHello), ("PskIdentity", pskIdentity),
   ("PskBinderEntry", pskBinderEntry), ("OfferedPsks", offeredPsks),
   ("SelectedIdentity", selectedIdentity)]

/-- What has a name in the catalogue. -/
inductive Layout where
  | schema (schema : Schema)
  | extension

def find? (name : String) : Option Layout :=
  if name = "Extension" then some .extension else (schemas.lookup name).map .schema

namespace Layout

def decode (layout : Layout) (length? : Option Value) (bytes : List UInt8) : Except Fault Value :=
  match layout with
  | .schema s => (s.decode (Scope.outermost length?) bytes).map (·.1)
  | .extension => (Extension.read bytes).map (·.1.toValue)

/-- Write a value. What is wrong with it is quoted in the fault, and this may fail. -/
def encode (layout : Layout) (length? : Option Value) (value : Value) :
    Except Fault (List UInt8) :=
  let written := match layout with
    | .schema s => s.encode (Scope.outermost length?) value
    | .extension => Extension.encode value
  written.mapError (.raised (some .standard))

end Layout
end Catalogue
end HelloExtensions
