import HelloExtensions.Proofs.HandshakePayloads

/-!
The extensions that a payload is taken from. A payload is looked up by the name of its field, and
the type of the extension is not asked. Only one layout has a field for pre-shared keys. Three have
one for a share of a key: those of the two types of key shares, which keep their whole body there,
and that of an encrypted server name, where the field is a region behind two numbers. So what is
taken for a share of a key may come from an extension of another type.
-/
namespace HelloExtensions

open ExtensionType Reading Registry

/-- The names of the fields that what is read by a schema may have. -/
def Schema.fieldNames : Schema → List String
  | .record fields => fields.names
  | .ifElse _ _ yes no => yes.fieldNames ++ no.fieldNames
  | _ => []

theorem Schema.exists_fields_of_decode (schema : Schema) (h : schema.isLabelled = true)
    {scope value : Value} {bytes rest : List UInt8}
    (hdecode : schema.decode scope bytes = .ok (value, rest)) :
    ∃ entries : Entries Value, value = .record entries ∧
      ∀ name ∈ Entries.keys entries, name ∈ schema.fieldNames := by
  cases schema with
  | record fields =>
    obtain ⟨entries, hfields, rfl⟩ := (decode_record_eq_ok_iff _ _ _ _ _).mp hdecode
    refine ⟨entries, rfl, fun name hname => ?_⟩
    rwa [Fields.keys_of_decode fields hfields] at hname
  | ifElse up test yes no =>
    simp only [isLabelled, Bool.and_eq_true] at h
    simp only [decode, bind_eq_ok_iff] at hdecode
    obtain ⟨length, -, holds, -, hdecode⟩ := hdecode
    split at hdecode
    · obtain ⟨entries, rfl, hnames⟩ := exists_fields_of_decode yes h.1 hdecode
      exact ⟨entries, rfl, fun name hname => List.mem_append_left _ (hnames name hname)⟩
    · obtain ⟨entries, rfl, hnames⟩ := exists_fields_of_decode no h.2 hdecode
      exact ⟨entries, rfl, fun name hname => List.mem_append_right _ (hnames name hname)⟩
  | _ => cases h

theorem Value.get_of_not_mem {fields : Entries Value} {name : String}
    (h : name ∉ Entries.keys fields) :
    (Value.record fields).get (.text name) = .error (.noEntry (.text name)) := by
  simp only [get, key, text?, bind, Except.bind, Option.bind_some,
    Entries.lookup_eq_none_of_not_mem h]

namespace Extension

variable {field : String}

theorem get_of_not_mem_fieldNames {type : CodePoint} {body : List UInt8} {content : Value}
    (h : decodeContent type body = .ok content)
    (hfield : field ∉ (layout type.number type.name?).fieldNames) :
    content.get (.text field) = .error (.noEntry (.text field)) := by
  obtain ⟨rest, hdecode⟩ := (decodeContent_eq_ok_iff _ _ _).mp h
  obtain ⟨entries, rfl, hnames⟩ :=
    Schema.exists_fields_of_decode _ (isLabelled_layout _ _) hdecode
  exact Value.get_of_not_mem fun hmem => hfield (hnames field hmem)

/-- A field that GREASE and unknown contents lack is one of a layout that is listed. -/
theorem exists_contents_of_mem_fieldNames {number : Nat}
    (h : field ∈ (layout number (extensionTypes.name? number)).fieldNames)
    (hgrease : field ∉ Content.grease.fieldNames) (hunknown : field ∉ Content.unknown.fieldNames) :
    ∃ name schema, extensionTypes.number? name = some number ∧
      (name, schema) ∈ Content.contents ∧ field ∈ schema.fieldNames := by
  unfold layout at h
  split at h
  · exact absurd h hgrease
  · cases hlisted : Content.listed? number with
    | none =>
      rw [← Content.listed?, hlisted] at h
      exact absurd h hunknown
    | some schema =>
      rw [← Content.listed?, hlisted] at h
      obtain ⟨name, hname, hschema⟩ := Option.bind_eq_some_iff.mp hlisted
      exact ⟨name, schema, (number?_eq_some_iff_name? extensionTypes_wellFormed).mpr hname,
        Entries.mem_of_lookup_eq_some hschema, h⟩

/-- The share of a key in an encrypted server name is a region behind two numbers. -/
theorem get_keyShare_of_encryptedServerName {body : List UInt8} {content : Value}
    (h : decodeContent (extensionTypes.codePoint 0xffce) body = .ok content) :
    content.get (.text "key_share") = .ok (.bytes (delimited 2 (body.drop 4))) := by
  obtain ⟨rest, hdecode⟩ := (decodeContent_eq_ok_iff _ _ _).mp h
  have hread : Content.encryptedServerName.decode _ body = .ok (content, rest) := hdecode
  obtain ⟨_, hsuite, rfl⟩ := (Content.decode_labelled_eq_ok_iff _ _ _ _ _ _).mp hread
  obtain ⟨suite, _, hcode, _, hgroup, rfl⟩ :=
    (Fields.decode_field_eq_ok_iff _ _ _ _ _ _ _).mp hsuite
  obtain ⟨-, -, rfl⟩ := (Schema.decode_code_eq_ok_iff _ _ _ _ _).mp hcode
  obtain ⟨group, _, hcode, _, hshare, rfl⟩ :=
    (Fields.decode_field_eq_ok_iff _ _ _ _ _ _ _).mp hgroup
  obtain ⟨-, -, rfl⟩ := (Schema.decode_code_eq_ok_iff _ _ _ _ _).mp hcode
  obtain ⟨share, _, hregion, _, -, rfl⟩ :=
    (Fields.decode_field_eq_ok_iff _ _ _ _ _ _ _).mp hshare
  obtain ⟨-, rfl, -⟩ := (Schema.decode_opaque16_eq_ok_iff _ _ _ _).mp hregion
  rw [List.drop_drop]
  rfl

end Extension

namespace Handshake

open Text.Numeral

/-- What stands in a body of this type for a share of a key, if anything does. -/
def keyShareIn? (number : Nat) (body : List UInt8) : Option (List UInt8) :=
  if number = 0x0033 ∨ number = 0x0028 then some body
  else if number = 0xffce then some (delimited 2 (body.drop 4))
  else none

def preSharedKeyIn? (number : Nat) (body : List UInt8) : Option (List UInt8) :=
  if number = 0x0029 then some body else none

namespace Payload

/-- What comes of a payload whose field is not there. The message is looked at before it. -/
def missing (limit? : Option DigitLimit) (payload : Payload) (message : Value) :
    Except ExtensionError Value := do
  let _ ← payload.messageLayout limit? message
  .error (.shape (.noEntry (.text payload.field)))

/-- The payload of an extension is interpreted from these bytes, or it is missing there. -/
def TakenFrom (payload : Payload) (ext : Extension) : Option (List UInt8) → Prop
  | some bytes => payload.Agrees ext bytes
  | none => ∀ limit? message,
      payload.decode limit? ext.toValue message = payload.missing limit? message ∧
      payload.decode limit? ext.content message = payload.missing limit? message

section

variable {limit? : Option DigitLimit} {payload : Payload} {ext : Extension} {message value : Value}

theorem missing_ne_ok : payload.missing limit? message ≠ .ok value := by
  rw [missing]
  cases payload.messageLayout limit? message with
  | error e => simp [bind, Except.bind]
  | ok found => simp [bind, Except.bind]

theorem takenFrom_none
    (hget : ext.content.get (.text payload.field) = .error (.noEntry (.text payload.field)))
    (halone : Extension.contentOf ext.content = .ok ext.content) :
    payload.TakenFrom ext none := by
  have hmissing : ∀ limit? value message, Extension.contentOf value = .ok ext.content →
      payload.decode limit? value message = payload.missing limit? message := by
    intro limit? value message hvalue
    rw [decode, missing, Extension.payload_of_contentOf hvalue, hget]
    rfl
  intro limit? message
  exact ⟨hmissing limit? _ message rfl, hmissing limit? _ message halone⟩

/-- A payload that is interpreted has bytes that it is interpreted from. -/
theorem TakenFrom.exists_bytes {bytes? : Option (List UInt8)} (h : payload.TakenFrom ext bytes?)
    (hvalue : payload.decode limit? ext.toValue message = .ok value) :
    ∃ bytes, bytes? = some bytes := by
  cases bytes? with
  | some bytes => exact ⟨bytes, rfl⟩
  | none =>
    rw [(h limit? message).1] at hvalue
    exact absurd hvalue missing_ne_ok

end

end Payload

section

variable {number : Nat} {body bytes data rest : List UInt8} {ext : Extension}

theorem number_of_keyShareIn? (h : keyShareIn? number body = some bytes) :
    number = 0x0033 ∨ number = 0x0028 ∨ number = 0xffce := by
  unfold keyShareIn? at h
  split at h
  · next hshare => exact hshare.elim .inl fun hold => .inr (.inl hold)
  · split at h
    · next hname => exact .inr (.inr hname)
    · cases h

theorem number_of_preSharedKeyIn? (h : preSharedKeyIn? number body = some bytes) :
    number = 0x0029 := by
  unfold preSharedKeyIn? at h
  split at h
  · next hnumber => exact hnumber
  · cases h

theorem takenFrom_keyShareIn? (h : Extension.decode data = .ok (ext, rest)) :
    keyShare.TakenFrom ext (keyShareIn? (Extension.wireNumber data) (Extension.body data)) := by
  have hcontents : ∀ c ∈ Content.contents, "key_share" ∈ c.2.fieldNames →
      extensionTypes.number? c.1 ∈ [some 0x0033, some 0x0028, some 0xffce] := by
    decide
  unfold keyShareIn?
  split
  · next hshare =>
    rcases hshare with hnumber | hnumber
    · exact Payload.agrees_of_layout h (by rw [hnumber]; rfl) (by decide)
    · exact Payload.agrees_of_layout h (by rw [hnumber]; rfl) (by decide)
  · next hshare =>
    obtain ⟨envelope, rfl, hcontent⟩ := Extension.exists_envelope_of_decode h
    have halone := Extension.contentOf_of_decodeContent hcontent
    rw [envelope.wireNumber_append] at hshare ⊢
    rw [envelope.body_append]
    split
    · next hname =>
      rw [Envelope.type, hname] at hcontent
      exact Payload.agrees_of_get (Extension.get_keyShare_of_encryptedServerName hcontent) halone
    · next hname =>
      refine Payload.takenFrom_none (Extension.get_of_not_mem_fieldNames hcontent ?_) halone
      intro hfield
      obtain ⟨name, schema, hnumber, hmem, hin⟩ :=
        Extension.exists_contents_of_mem_fieldNames hfield (by decide) (by decide)
      have hlisted := hcontents _ hmem hin
      rw [hnumber] at hlisted
      simp only [List.mem_cons, Option.some.injEq, List.not_mem_nil, or_false] at hlisted
      omega

theorem takenFrom_preSharedKeyIn? (h : Extension.decode data = .ok (ext, rest)) :
    preSharedKey.TakenFrom ext
      (preSharedKeyIn? (Extension.wireNumber data) (Extension.body data)) := by
  have hcontents : ∀ c ∈ Content.contents, "pre_shared_key" ∈ c.2.fieldNames →
      extensionTypes.number? c.1 = some 0x0029 := by
    decide
  unfold preSharedKeyIn?
  split
  · next hnumber => exact Payload.agrees_of_layout h (by rw [hnumber]; rfl) (by decide)
  · next hother =>
    obtain ⟨envelope, rfl, hcontent⟩ := Extension.exists_envelope_of_decode h
    have halone := Extension.contentOf_of_decodeContent hcontent
    rw [envelope.wireNumber_append] at hother
    refine Payload.takenFrom_none (Extension.get_of_not_mem_fieldNames hcontent ?_) halone
    intro hfield
    obtain ⟨name, schema, hnumber, hmem, hin⟩ :=
      Extension.exists_contents_of_mem_fieldNames hfield (by decide) (by decide)
    have hlisted := hcontents _ hmem hin
    rw [hnumber] at hlisted
    exact hother (Option.some.inj hlisted)

/-- A payload is interpreted from an extension whose layout has its field. For a share of a key
this may be the layout of an encrypted server name, whose own share is then read as one of the
message. From all other types a payload is missing. -/
theorem payloads_by_type (h : Extension.decode data = .ok (ext, rest)) :
    (∀ limit? message value, keyShare.decode limit? ext.toValue message = .ok value →
      Extension.typeOf ext.toValue = .ok 0x0033 ∨ Extension.typeOf ext.toValue = .ok 0x0028 ∨
        Extension.typeOf ext.toValue = .ok 0xffce) ∧
    (∀ limit? message value, preSharedKey.decode limit? ext.toValue message = .ok value →
      Extension.typeOf ext.toValue = .ok 0x0029) ∧
    (Extension.typeOf ext.toValue = .ok 0xffce → ∀ form : PayloadForm, form.payload = keyShare →
      ∀ limit? value, keyShare.decode limit? ext.toValue (.text form.message.name) = .ok value ↔
        form.Means (delimited 2 ((Extension.body data).drop 4)) value) ∧
    keyShare.TakenFrom ext (keyShareIn? (Extension.wireNumber data) (Extension.body data)) ∧
    preSharedKey.TakenFrom ext
      (preSharedKeyIn? (Extension.wireNumber data) (Extension.body data)) := by
  have hshare := takenFrom_keyShareIn? h
  have hkey := takenFrom_preSharedKeyIn? h
  have htype := Extension.typeOf_toValue_of_decode h
  refine ⟨?_, ?_, ?_, hshare, hkey⟩
  · intro limit? message value hvalue
    obtain ⟨bytes, hbytes⟩ := hshare.exists_bytes hvalue
    rcases number_of_keyShareIn? hbytes with hnumber | hnumber | hnumber
    · rw [hnumber] at htype
      exact .inl htype
    · rw [hnumber] at htype
      exact .inr (.inl htype)
    · rw [hnumber] at htype
      exact .inr (.inr htype)
  · intro limit? message value hvalue
    obtain ⟨bytes, hbytes⟩ := hkey.exists_bytes hvalue
    rw [number_of_preSharedKeyIn? hbytes] at htype
    exact htype
  · intro hname form hform limit? value
    have hnumber : Extension.wireNumber data = 0xffce := by
      have hprojected : Extension.projected (Extension.wireNumber data) = 0xffce :=
        Int.ofNat_inj.mp (Except.ok.inj (htype.symm.trans hname))
      unfold Extension.projected at hprojected
      split at hprojected
      · cases hprojected
      · exact hprojected
    rw [hnumber] at hshare
    have hagrees : keyShare.Agrees ext (delimited 2 ((Extension.body data).drop 4)) := hshare
    rw [(hagrees limit? _).1, ← form.decode_eq_ok_iff_means, PayloadForm.decode, hform]

end

/-- The share of a key in an encrypted server name is taken for a group that a server asks for. -/
theorem payloads_by_type_encryptedServerName :
    ∃ ext value,
      Extension.decode [0xff, 0xce, 0, 12, 19, 1, 0, 29, 0, 2, 0, 29, 0, 0, 0, 0] =
        .ok (ext, []) ∧
      Extension.typeOf ext.toValue = .ok 0xffce ∧
      keyShare.decode none ext.toValue (.text "hello_retry_request") = .ok value ∧
      ∀ limit? message value, preSharedKey.decode limit? ext.toValue message ≠ .ok value := by
  obtain ⟨ext, hext⟩ : ∃ ext,
      Extension.decode [0xff, 0xce, 0, 12, 19, 1, 0, 29, 0, 2, 0, 29, 0, 0, 0, 0] =
        .ok (ext, []) := ⟨_, rfl⟩
  obtain ⟨-, hkey, hshare, -⟩ := payloads_by_type hext
  have htype : Extension.typeOf ext.toValue = .ok 0xffce := Extension.typeOf_toValue_of_decode hext
  have hvalue := (hshare htype .requestedGroup rfl none _).mpr ⟨by decide, rfl⟩
  refine ⟨ext, _, hext, htype, hvalue, fun limit? message value hdecode => ?_⟩
  cases htype.symm.trans (hkey limit? message value hdecode)

end Handshake

end HelloExtensions
