import HelloExtensions.Registry

/-!
The registries that extensions draw their numbers from. Of the cipher suites only those of
TLS 1.3 and the two signalling values are named.
-/
namespace HelloExtensions.Registry

def extensionTypes : Registry where
  width := 2
  assignments := [
    ("server_name", 0x0000), ("max_fragment_length", 0x0001), ("client_certificate_url", 0x0002),
    ("trusted_ca_keys", 0x0003), ("truncated_hmac", 0x0004), ("status_request", 0x0005),
    ("user_mapping", 0x0006), ("client_authz", 0x0007), ("server_authz", 0x0008),
    ("cert_type", 0x0009), ("supported_groups", 0x000a), ("ec_point_formats", 0x000b),
    ("srp", 0x000c), ("signature_algorithms", 0x000d), ("use_srtp", 0x000e),
    ("heartbeat", 0x000f), ("application_layer_protocol_negotiation", 0x0010),
    ("status_request_v2", 0x0011), ("signed_certificate_timestamp", 0x0012),
    ("client_certificate_type", 0x0013), ("server_certificate_type", 0x0014), ("padding", 0x0015),
    ("encrypt_then_mac", 0x0016), ("extended_master_secret", 0x0017), ("token_binding", 0x0018),
    ("cached_info", 0x0019), ("compress_certificate", 0x001b), ("record_size_limit", 0x001c),
    ("session_ticket", 0x0023), ("key_share_old", 0x0028), ("pre_shared_key", 0x0029),
    ("early_data", 0x002a), ("supported_versions", 0x002b), ("cookie", 0x002c),
    ("psk_key_exchange_modes", 0x002d), ("ticket_early_data_info", 0x002e),
    ("certificate_authorities", 0x002f), ("oid_filters", 0x0030), ("post_handshake_auth", 0x0031),
    ("signature_algorithms_cert", 0x0032), ("key_share", 0x0033),
    ("next_protocol_negotiation", 0x3374), ("grease", 0xfafa), ("renegotiation_info", 0xff01),
    ("encrypted_server_name", 0xffce)]

def nameTypes : Registry where
  width := 1
  assignments := [
    ("host_name", 0x00)]

def fragmentLengths : Registry where
  width := 1
  assignments := [
    ("two_pow_9", 0x01), ("two_pow_10", 0x02), ("two_pow_11", 0x03), ("two_pow_12", 0x04)]

def certificateStatusTypes : Registry where
  width := 1
  assignments := [
    ("ocsp", 0x01), ("ocsp_multi", 0x02)]

def heartbeatModes : Registry where
  width := 1
  assignments := [
    ("peer_allowed_to_send", 0x01), ("peer_not_allowed_to_send", 0x02)]

def pskKeyExchangeModes : Registry where
  width := 1
  assignments := [
    ("psk_ke", 0x00), ("psk_dhe_ke", 0x01)]

def protocolVersions : Registry where
  width := 2
  assignments := [
    ("ssl_3_0", 0x0300), ("tls_1_0", 0x0301), ("tls_1_1", 0x0302), ("tls_1_2", 0x0303),
    ("tls_1_3", 0x0304), ("dtls_1_0", 0xfeff), ("dtls_1_2", 0xfefd), ("dtls_1_3", 0xfefc)]

def namedGroups : Registry where
  width := 2
  assignments := [
    ("sect163k1", 0x0001), ("sect163r1", 0x0002), ("sect163r2", 0x0003), ("sect193r1", 0x0004),
    ("sect193r2", 0x0005), ("sect233k1", 0x0006), ("sect233r1", 0x0007), ("sect239k1", 0x0008),
    ("sect283k1", 0x0009), ("sect283r1", 0x000a), ("sect409k1", 0x000b), ("sect409r1", 0x000c),
    ("sect571k1", 0x000d), ("sect571r1", 0x000e), ("secp160k1", 0x000f), ("secp160r1", 0x0010),
    ("secp160r2", 0x0011), ("secp192k1", 0x0012), ("secp192r1", 0x0013), ("secp224k1", 0x0014),
    ("secp224r1", 0x0015), ("secp256k1", 0x0016), ("secp256r1", 0x0017), ("secp384r1", 0x0018),
    ("secp521r1", 0x0019), ("brainpoolP256r1", 0x001a), ("brainpoolP384r1", 0x001b),
    ("brainpoolP512r1", 0x001c), ("x25519", 0x001d), ("x448", 0x001e),
    ("brainpoolP256r1tls13", 0x001f), ("brainpoolP384r1tls13", 0x0020),
    ("brainpoolP512r1tls13", 0x0021), ("GC256A", 0x0022), ("GC256B", 0x0023), ("GC256C", 0x0024),
    ("GC256D", 0x0025), ("GC512A", 0x0026), ("GC512B", 0x0027), ("GC512C", 0x0028),
    ("curveSM2", 0x0029), ("ffdhe2048", 0x0100), ("ffdhe3072", 0x0101), ("ffdhe4096", 0x0102),
    ("ffdhe6144", 0x0103), ("ffdhe8192", 0x0104), ("X25519Kyber768Draft00", 0x6399),
    ("SecP256r1MLKEM768", 0x11eb), ("X25519MLKEM768", 0x11ec),
    ("arbitrary_explicit_prime_curves", 0xff01), ("arbitrary_explicit_char2_curves", 0xff02)]

def cipherSuites : Registry where
  width := 2
  assignments := [
    ("TLS_AES_128_GCM_SHA256", 0x1301), ("TLS_AES_256_GCM_SHA384", 0x1302),
    ("TLS_CHACHA20_POLY1305_SHA256", 0x1303), ("TLS_AES_128_CCM_SHA256", 0x1304),
    ("TLS_AES_128_CCM_8_SHA256", 0x1305), ("TLS_EMPTY_RENEGOTIATION_INFO_SCSV", 0x00ff),
    ("TLS_FALLBACK_SCSV", 0x5600)]

def signatureSchemes : Registry where
  width := 2
  assignments := [
    ("rsa_pkcs1_sha256", 0x0401), ("rsa_pkcs1_sha384", 0x0501), ("rsa_pkcs1_sha512", 0x0601),
    ("ecdsa_secp256r1_sha256", 0x0403), ("ecdsa_secp384r1_sha384", 0x0503),
    ("ecdsa_secp521r1_sha512", 0x0603), ("rsa_pss_rsae_sha256", 0x0804),
    ("rsa_pss_rsae_sha384", 0x0805), ("rsa_pss_rsae_sha512", 0x0806), ("ed25519", 0x0807),
    ("ed448", 0x0808), ("rsa_pss_pss_sha256", 0x0809), ("rsa_pss_pss_sha384", 0x080a),
    ("rsa_pss_pss_sha512", 0x080b), ("rsa_pkcs1_sha1", 0x0201), ("ecdsa_sha1", 0x0203)]

theorem extensionTypes_wellFormed : extensionTypes.WellFormed := by decide +kernel

theorem nameTypes_wellFormed : nameTypes.WellFormed := by decide +kernel

theorem fragmentLengths_wellFormed : fragmentLengths.WellFormed := by decide +kernel

theorem certificateStatusTypes_wellFormed : certificateStatusTypes.WellFormed := by decide +kernel

theorem heartbeatModes_wellFormed : heartbeatModes.WellFormed := by decide +kernel

theorem pskKeyExchangeModes_wellFormed : pskKeyExchangeModes.WellFormed := by decide +kernel

theorem protocolVersions_wellFormed : protocolVersions.WellFormed := by decide +kernel

theorem namedGroups_wellFormed : namedGroups.WellFormed := by decide +kernel

theorem cipherSuites_wellFormed : cipherSuites.WellFormed := by decide +kernel

theorem signatureSchemes_wellFormed : signatureSchemes.WellFormed := by decide +kernel

end HelloExtensions.Registry
