import HelloExtensions.Proofs.Acceptance

/-!
Signed certificate timestamps. Their content is the only one with a field that may be missing. It
is there exactly if the body starts with a length of two bytes that tells of no more bytes than
follow it. Any other body has no such field, be it empty or malformed, so no body of this type is
rejected, and a length that tells of too many bytes is passed over in silence.
-/
namespace HelloExtensions

open Reading Registry

theorem Schema.decode_optional_opaque16 (scope : Value) (bytes : List UInt8) :
    (Schema.optional .opaque16).decode scope bytes =
      .ok (if Delimits 2 bytes then (.bytes (delimited 2 bytes), behind 2 bytes)
        else (.null, bytes)) := by
  by_cases hdelimits : Delimits 2 bytes
  · have hregion : Schema.opaque16.decode scope bytes =
        .ok (.bytes (delimited 2 bytes), behind 2 bytes) :=
      (Schema.decode_opaque16_eq_ok_iff _ _ _ _).mpr ⟨hdelimits, rfl, rfl⟩
    rw [Schema.decode, hregion, if_pos hdelimits]
  · obtain ⟨fault, hfault⟩ : ∃ fault, Schema.opaque16.decode scope bytes = .error fault := by
      cases hdecode : Schema.opaque16.decode scope bytes with
      | error fault => exact ⟨fault, rfl⟩
      | ok result =>
        exact absurd ((Schema.decode_opaque16_eq_ok_iff _ _ _ _).mp hdecode).1 hdelimits
    rw [Schema.decode, hfault, if_neg hdelimits]

namespace Content

/-- The timestamps that a body has, or null if it has none. -/
def timestamps (body : List UInt8) : Value :=
  if Delimits 2 body then .bytes (delimited 2 body) else .null

/-- What the content of a body of timestamps is. -/
def ofTimestamps (body : List UInt8) : Value :=
  .record [("_name", .text "SignedCertificateTimestamp"),
    ("signed_certificate_timestamp", timestamps body)]

theorem decode_signedCertificateTimestamp (scope : Value) (bytes : List UInt8) :
    signedCertificateTimestamp.decode scope bytes =
      .ok (ofTimestamps bytes, if Delimits 2 bytes then behind 2 bytes else bytes) := by
  refine (decode_labelled_eq_ok_iff _ _ _ _ _ _).mpr
    ⟨[("signed_certificate_timestamp", timestamps bytes)], ?_, rfl⟩
  refine (Fields.decode_last_eq_ok_iff _ _ _ _ _ _).mpr ⟨_, ?_, rfl⟩
  rw [Schema.decode_optional_opaque16, timestamps]
  split
  · rfl
  · rfl

end Content

namespace Extension

theorem decodeContent_timestamps (body : List UInt8) :
    decodeContent (extensionTypes.codePoint 0x0012) body = .ok (Content.ofTimestamps body) := by
  refine (decodeContent_eq_ok_iff _ _ _).mpr
    ⟨if Delimits 2 body then behind 2 body else body, ?_⟩
  exact Content.decode_signedCertificateTimestamp _ body

/-- Every body of timestamps is accepted. It has timestamps exactly if its length delimits them,
so not only an empty body has none but each that is too short for its length as well. -/
theorem decode_timestamps {envelope : Envelope} (h : envelope.number = 0x0012)
    (rest : List UInt8) :
    ∃ ext, Extension.decode (envelope.bytes ++ rest) = .ok (ext, rest) ∧
      ext.content.entry "signed_certificate_timestamp" =
        .ok (Content.timestamps envelope.body) ∧
      (Content.timestamps envelope.body = .null ↔ ¬ Delimits 2 envelope.body) := by
  have hcontent : decodeContent envelope.type envelope.body =
      .ok (Content.ofTimestamps envelope.body) := by
    rw [Envelope.type, h]
    exact decodeContent_timestamps envelope.body
  refine ⟨⟨envelope.type, envelope.body.length, Content.ofTimestamps envelope.body⟩, ?_, rfl, ?_⟩
  · rw [envelope.decode_append, Envelope.extension, hcontent]
    rfl
  · unfold Content.timestamps
    split
    · next hdelimits => simp [hdelimits]
    · next hdelimits => simp [hdelimits]

/-- Nothing follows a length that tells of five bytes, and this is no error. -/
theorem decode_timestamps_overflow :
    ∃ ext, Extension.decode [0, 18, 0, 2, 0, 5] = .ok (ext, []) ∧
      ext.content.entry "signed_certificate_timestamp" = .ok .null := by
  obtain ⟨ext, hdecode, hentry, -⟩ :=
    @decode_timestamps ⟨0x0012, [0, 5], by decide, by decide⟩ rfl []
  exact ⟨ext, hdecode, hentry⟩

end Extension

end HelloExtensions
