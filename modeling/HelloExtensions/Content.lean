import HelloExtensions.Registry.Assignments
import HelloExtensions.Schema

/-!
The contents of extensions. Each is a record whose label names its layout. A content is read
inside the extension that carries it, so the declared length it refers to is the extension's;
`contents` gives the layout for each type of extension that has one.
-/
namespace HelloExtensions

open Schema Registry

namespace Content

/-- A record that is labelled with the name of its layout. -/
def labelled (name : String) (fields : Fields) : Schema :=
  .record (.label "_name" name fields)

/-- A content that tells by being there. -/
def empty (name : String) : Schema := labelled name (.check (.equals 0) .done)

def serverName : Schema :=
  .record (.field "name_type" (.code nameTypes) (.last "name" opaque16))

def serverNameList : Schema :=
  labelled "ServerNameList" (.last "server_name_list" (list16 serverName))

def maxFragmentLength : Schema :=
  labelled "MaxFragmentLength"
    (.check (.equals 1) (.last "max_fragment_length" (.code fragmentLengths)))

/-- The request takes what the extension has left after the type of the status. -/
def certificateStatusRequest : Schema :=
  .record (.field "status_type" (.code certificateStatusTypes) (.last "request" (.bytes 2 1)))

/-- A server acknowledges the request by an empty content. -/
def statusRequest : Schema :=
  labelled "StatusRequest" (.last "status" (.onlyIf 1 .positive certificateStatusRequest))

def namedGroupList : Schema :=
  labelled "NamedGroupList" (.last "named_group_list" (list16 (.code namedGroups)))

def ecPointFormatList : Schema :=
  labelled "ECPointFormatList" (.last "ec_point_format_list" opaque8)

def signatureSchemeList : Schema :=
  labelled "SignatureSchemeList"
    (.last "supported_signature_algorithms" (list16 (.code signatureSchemes)))

def heartbeat : Schema :=
  labelled "Heartbeat" (.check (.equals 1) (.last "mode" (.code heartbeatModes)))

def protocolName : Schema := opaque8

def protocolNameList : Schema :=
  labelled "ProtocolNameList" (.last "protocol_name_list" (list16 protocolName))

def signedCertificateTimestamp : Schema :=
  labelled "SignedCertificateTimestamp"
    (.last "signed_certificate_timestamp" (.optional opaque16))

def padding : Schema := labelled "Padding" (.last "padding" .rest)

def encryptThenMac : Schema := empty "EncryptThenMac"

def extendedMasterSecret : Schema := empty "ExtendedMasterSecret"

def postHandshakeAuth : Schema := empty "PostHandshakeAuth"

def nextProtocolNegotiation : Schema := empty "NextProtocolNegotiation"

def recordSizeLimit : Schema := labelled "RecordSizeLimit" (.last "record_size_limit" uint16)

def sessionTicket : Schema := labelled "SessionTicket" (.last "ticket" .rest)

def keyShareOld : Schema := labelled "KeyShareOld" (.last "key_share" .rest)

def keyShare : Schema := labelled "KeyShare" (.last "key_share" .rest)

def preSharedKey : Schema := labelled "PreSharedKey" (.last "pre_shared_key" .rest)

def cookie : Schema := labelled "Cookie" (.last "cookie" .rest)

/-- Only a new session ticket tells the size. -/
def earlyDataIndication : Schema :=
  labelled "EarlyDataIndication" (.last "max_early_data_size" (.onlyIf 1 .positive uint32))

def protocolVersionList : Schema := .many (.code protocolVersions)

/-- The version that a server selects. -/
def selectedVersion : Schema :=
  labelled "SelectedVersion" (.last "versions" (.single (.code protocolVersions)))

/-- The versions that a client offers. The length before them is kept but not used. -/
def versionList : Schema :=
  labelled "VersionList"
    (.check .positive (.field "_versions_length" (.uint 1) (.last "versions" protocolVersionList)))

/-- A client sends an odd number of bytes and a server two. -/
def supportedVersions : Schema := .ifElse 0 (.equals 2) selectedVersion versionList

def pskKeyExchangeModeList : Schema :=
  labelled "PskKeyExchangeModes" (.last "ke_modes" (list8 (.code pskKeyExchangeModes)))

def oidFilter : Schema :=
  .record (.field "certificate_extension_oid" opaque8
    (.last "certificate_extension_values" opaque16))

def oidFilterExtension : Schema :=
  labelled "OIDFilterExtension" (.last "filters" (list16 oidFilter))

def renegotiationInfo : Schema :=
  labelled "RenegotiationInfo" (.last "renegotiated_connection" opaque8)

def encryptedServerName : Schema :=
  labelled "EncryptedServerName"
    (.field "cipher_suite" (.code cipherSuites) (.field "group" (.code namedGroups)
      (.field "key_share" opaque16 (.field "record_digest" opaque16
        (.last "encrypted_sni" opaque16)))))

/-- The content of a GREASE extension, which means nothing. -/
def grease : Schema := labelled "Grease" (.typeNumber "grease_value" (.last "data" .rest))

def unknown : Schema := labelled "Unknown" (.last "data" .rest)

/-- The layouts, under the names of the types that they belong to. -/
def contents : List (String × Schema) :=
  [("server_name", serverNameList), ("max_fragment_length", maxFragmentLength),
   ("status_request", statusRequest), ("supported_groups", namedGroupList),
   ("ec_point_formats", ecPointFormatList), ("signature_algorithms", signatureSchemeList),
   ("heartbeat", heartbeat), ("application_layer_protocol_negotiation", protocolNameList),
   ("signed_certificate_timestamp", signedCertificateTimestamp), ("padding", padding),
   ("encrypt_then_mac", encryptThenMac), ("extended_master_secret", extendedMasterSecret),
   ("record_size_limit", recordSizeLimit), ("session_ticket", sessionTicket),
   ("key_share_old", keyShareOld), ("pre_shared_key", preSharedKey),
   ("early_data", earlyDataIndication), ("supported_versions", supportedVersions),
   ("cookie", cookie), ("psk_key_exchange_modes", pskKeyExchangeModeList),
   ("oid_filters", oidFilterExtension), ("post_handshake_auth", postHandshakeAuth),
   ("key_share", keyShare), ("next_protocol_negotiation", nextProtocolNegotiation),
   ("renegotiation_info", renegotiationInfo), ("encrypted_server_name", encryptedServerName),
   ("grease", grease)]

/-- The type that the label of a content stands for. A content of unknown layout has none. -/
def labelTypes : List (String × String) :=
  [("ServerNameList", "server_name"), ("MaxFragmentLength", "max_fragment_length"),
   ("StatusRequest", "status_request"), ("NamedGroupList", "supported_groups"),
   ("ECPointFormatList", "ec_point_formats"), ("SignatureSchemeList", "signature_algorithms"),
   ("Heartbeat", "heartbeat"), ("ProtocolNameList", "application_layer_protocol_negotiation"),
   ("SignedCertificateTimestamp", "signed_certificate_timestamp"), ("Padding", "padding"),
   ("EncryptThenMac", "encrypt_then_mac"), ("ExtendedMasterSecret", "extended_master_secret"),
   ("RecordSizeLimit", "record_size_limit"), ("SessionTicket", "session_ticket"),
   ("KeyShareOld", "key_share_old"), ("KeyShare", "key_share"),
   ("PreSharedKey", "pre_shared_key"), ("EarlyDataIndication", "early_data"),
   ("SelectedVersion", "supported_versions"), ("VersionList", "supported_versions"),
   ("Cookie", "cookie"), ("PskKeyExchangeModes", "psk_key_exchange_modes"),
   ("OIDFilterExtension", "oid_filters"), ("PostHandshakeAuth", "post_handshake_auth"),
   ("NextProtocolNegotiation", "next_protocol_negotiation"),
   ("RenegotiationInfo", "renegotiation_info"), ("EncryptedServerName", "encrypted_server_name"),
   ("Grease", "grease")]

end Content
end HelloExtensions
