import HelloExtensions.Proofs.HandshakeForms
import HelloExtensions.Proofs.Variants

/-!
Contents that are told by the message around them. There are five layouts, and for each it is
known from the bytes whether they follow it and what they mean then: lists are read up to what
starts no further item, and the list of binders starts behind the region of identities, however
much of that is used. Bytes behind are passed over. Bytes that do not follow the layout are
malformed and never incomplete. The bytes may be given in an extension, in its content or alone.
-/
namespace HelloExtensions

open Reading Registry

namespace Reading

variable {width : Nat} {bytes : List UInt8}

theorem leading_append (h : width ≤ bytes.length) (more : List UInt8) :
    leading width (bytes ++ more) = leading width bytes := by
  rw [leading, List.take_append_of_le_length h, leading]

/-- Bytes behind a region stay behind it. -/
theorem append_of_delimits (h : Delimits width bytes) (more : List UInt8) :
    Delimits width (bytes ++ more) ∧ delimited width (bytes ++ more) = delimited width bytes ∧
      behind width (bytes ++ more) = behind width bytes ++ more := by
  have hlt : (delimited width bytes).length < BigEndian.capacity width := by
    rw [length_delimited h]
    exact leading_lt h.1
  have hsplit : bytes ++ more = BigEndian.encode width (delimited width bytes).length ++
      (delimited width bytes ++ (behind width bytes ++ more)) := by
    rw [← List.append_assoc, ← List.append_assoc, ← split_of_delimits h]
  rw [hsplit]
  exact ⟨delimits_encode_append hlt _, delimited_encode_append hlt _,
    behind_encode_append hlt _⟩

end Reading

/-- Where there is a content, the payload is looked up in it. -/
theorem Extension.payload_of_contentOf {value content : Value}
    (h : contentOf value = .ok content) (key : Value) :
    payload value key = (content.get key).mapError .shape := by
  cases value with
  | bytes b => cases h
  | _ => simp only [payload, h, mapError_ok, bind, Except.bind]

namespace Content

section

variable {scope value : Value} {bytes : List UInt8} (label field : String)

/-- A record of one labelled field is what the field is read into. -/
theorem exists_decode_labelled_last_iff (schema : Schema) :
    (∃ rest, (labelled label (.last field schema)).decode scope bytes = .ok (value, rest)) ↔
      ∃ read rest, schema.decode (Scope.inside [] scope) bytes = .ok (read, rest) ∧
        value = .record [("_name", .text label), (field, read)] := by
  simp only [decode_labelled_eq_ok_iff, Fields.decode_last_eq_ok_iff]
  constructor
  · intro hread
    obtain ⟨rest, _, ⟨read, hfield, rfl⟩, hvalue⟩ := hread
    exact ⟨read, rest, hfield, hvalue⟩
  · intro hread
    obtain ⟨read, rest, hfield, hvalue⟩ := hread
    exact ⟨rest, _, ⟨read, hfield, rfl⟩, hvalue⟩

/-- The field is a number, of which nothing but the width has to be there. -/
theorem exists_decode_labelled_number_iff {schema : Schema} {width : Nat} {number : Value}
    (hread : ∀ found rest, schema.decode (Scope.inside [] scope) bytes = .ok (found, rest) ↔
      width ≤ bytes.length ∧ found = number ∧ rest = bytes.drop width) :
    (∃ rest, (labelled label (.last field schema)).decode scope bytes = .ok (value, rest)) ↔
      width ≤ bytes.length ∧ value = .record [("_name", .text label), (field, number)] := by
  rw [exists_decode_labelled_last_iff]
  simp only [hread]
  constructor
  · intro hdecode
    obtain ⟨_, _, ⟨hle, rfl, -⟩, hvalue⟩ := hdecode
    exact ⟨hle, hvalue⟩
  · intro hmeans
    obtain ⟨hle, hvalue⟩ := hmeans
    exact ⟨_, _, ⟨hle, rfl, rfl⟩, hvalue⟩

section

variable {form : ItemForm} {item : Schema}

theorem exists_decode_labelled_item_iff (hread : form.ReadBy item (Scope.inside [] scope)) :
    (∃ rest, (labelled label (.last field item)).decode scope bytes = .ok (value, rest)) ↔
      ∃ (found : form.Item) (rest : List UInt8), bytes = form.bytes found ++ rest ∧
        value = .record [("_name", .text label), (field, form.value found)] := by
  rw [exists_decode_labelled_last_iff]
  constructor
  · intro hdecode
    obtain ⟨read, rest, hitem, hvalue⟩ := hdecode
    obtain ⟨found, behind, rfl⟩ := hread.starts _ _ _ hitem
    rw [hread.decode_append] at hitem
    cases hitem
    exact ⟨found, _, rfl, hvalue⟩
  · intro hmeans
    obtain ⟨found, rest, rfl, hvalue⟩ := hmeans
    exact ⟨_, rest, hread.decode_append found rest, hvalue⟩

theorem exists_decode_labelled_list_iff (hread : form.ReadBy item (Scope.inside [] scope)) :
    (∃ rest, (labelled label (.last field (.list16 item))).decode scope bytes =
      .ok (value, rest)) ↔ Delimits 2 bytes ∧ ∃ list, form.Lists (delimited 2 bytes) list ∧
        value = .record [("_name", .text label), (field, list)] := by
  rw [exists_decode_labelled_last_iff]
  simp only [hread.decode_list16_iff]
  constructor
  · intro hdecode
    obtain ⟨list, _, ⟨hdelimits, -, hlist⟩, hvalue⟩ := hdecode
    exact ⟨hdelimits, list, hlist, hvalue⟩
  · intro hmeans
    obtain ⟨hdelimits, list, hlist, hvalue⟩ := hmeans
    exact ⟨list, _, ⟨hdelimits, rfl, hlist⟩, hvalue⟩

/-- The region of the second list starts behind that of the first one. -/
theorem exists_decode_labelled_lists_iff (other : String) {form' : ItemForm} {item' : Schema}
    (hread : form.ReadBy item (Scope.inside [] scope))
    (hread' : form'.ReadBy item' (Scope.inside [] scope)) :
    (∃ rest, (labelled label (.field field (.list16 item) (.last other (.list16 item')))).decode
      scope bytes = .ok (value, rest)) ↔
        Delimits 2 bytes ∧ Delimits 2 (behind 2 bytes) ∧
        ∃ list list', form.Lists (delimited 2 bytes) list ∧
          form'.Lists (delimited 2 (behind 2 bytes)) list' ∧
          value = .record [("_name", .text label), (field, list), (other, list')] := by
  simp only [decode_labelled_eq_ok_iff, Fields.decode_field_eq_ok_iff,
    Fields.decode_last_eq_ok_iff, hread.decode_list16_iff, hread'.decode_list16_iff]
  constructor
  · intro hdecode
    obtain ⟨_, _, ⟨list, _, ⟨hfirst, rfl, hlist⟩, _, ⟨list', ⟨hsecond, -, hlist'⟩, rfl⟩, rfl⟩,
      hvalue⟩ := hdecode
    exact ⟨hfirst, hsecond, list, list', hlist, hlist', hvalue⟩
  · intro hmeans
    obtain ⟨hfirst, hsecond, list, list', hlist, hlist', hvalue⟩ := hmeans
    exact ⟨_, _, ⟨list, _, ⟨hfirst, rfl, hlist⟩, _, ⟨list', ⟨hsecond, rfl, hlist'⟩, rfl⟩, rfl⟩,
      hvalue⟩

end

end

end Content

namespace Handshake

open Content ItemForm Text.Numeral

/-- The payloads in the messages that can carry them. -/
inductive PayloadForm where
  | clientShares
  | serverShare
  | requestedGroup
  | offeredPsks
  | selectedIdentity
deriving DecidableEq, Repr

namespace PayloadForm

def payload : PayloadForm → Payload
  | clientShares | serverShare | requestedGroup => keyShare
  | offeredPsks | selectedIdentity => preSharedKey

def message : PayloadForm → Message
  | clientShares | offeredPsks => .clientHello
  | serverShare | selectedIdentity => .serverHello
  | requestedGroup => .helloRetryRequest

def layout : PayloadForm → Schema
  | clientShares => keyShareClientHello
  | serverShare => keyShareServerHello
  | requestedGroup => keyShareHelloRetryRequest
  | offeredPsks => Handshake.offeredPsks
  | selectedIdentity => Handshake.selectedIdentity

/-- What the bytes alone are decoded to. -/
def decode (limit? : Option DigitLimit) (form : PayloadForm) (bytes : List UInt8) :
    Except ExtensionError Value :=
  form.payload.decode limit? (.bytes bytes) (.text form.message.name)

/-- The bytes start with all that the layout needs. -/
def Admits (form : PayloadForm) (bytes : List UInt8) : Prop :=
  match form with
  | clientShares => Delimits 2 bytes
  | serverShare => 2 ≤ bytes.length ∧ Delimits 2 (bytes.drop 2)
  | requestedGroup | selectedIdentity => 2 ≤ bytes.length
  | offeredPsks => Delimits 2 bytes ∧ Delimits 2 (behind 2 bytes)

instance (form : PayloadForm) (bytes : List UInt8) : Decidable (form.Admits bytes) :=
  match form with
  | clientShares => inferInstanceAs (Decidable (Delimits 2 bytes))
  | serverShare => inferInstanceAs (Decidable (_ ∧ _))
  | requestedGroup | selectedIdentity => inferInstanceAs (Decidable (2 ≤ bytes.length))
  | offeredPsks => inferInstanceAs (Decidable (_ ∧ _))

/-- The value that the front of the bytes stands for. -/
def Means (form : PayloadForm) (bytes : List UInt8) (value : Value) : Prop :=
  match form with
  | clientShares => Delimits 2 bytes ∧ ∃ shares, shareForm.Lists (delimited 2 bytes) shares ∧
      value = .record [("_name", .text "KeyShareClientHello"), ("client_shares", shares)]
  | serverShare => ∃ (share : shareForm.Item) (rest : List UInt8),
      bytes = shareForm.bytes share ++ rest ∧
      value = .record [("_name", .text "KeyShareServerHello"),
        ("server_share", shareForm.value share)]
  | requestedGroup => 2 ≤ bytes.length ∧
      value = .record [("_name", .text "KeyShareHelloRetryRequest"),
        ("selected_group", .code (namedGroups.codePoint (leading 2 bytes)))]
  | offeredPsks => Delimits 2 bytes ∧ Delimits 2 (behind 2 bytes) ∧
      ∃ identities binders, identityForm.Lists (delimited 2 bytes) identities ∧
        binderForm.Lists (delimited 2 (behind 2 bytes)) binders ∧
        value = .record [("_name", .text "OfferedPsks"), ("identities", identities),
          ("binders", binders)]
  | selectedIdentity => 2 ≤ bytes.length ∧
      value = .record [("_name", .text "SelectedIdentity"),
        ("selected_identity", .int (leading 2 bytes))]

section

variable {limit? : Option DigitLimit}

theorem messageLayout_eq (form : PayloadForm) :
    form.payload.messageLayout limit? (.text form.message.name) =
      .ok (form.message, form.layout) := by
  cases form <;> rfl

theorem decode_eq (form : PayloadForm) (bytes : List UInt8) :
    form.decode limit? bytes = form.payload.decodeBytes form.message form.layout bytes := by
  rw [decode, Payload.decode, messageLayout_eq]
  rfl

theorem decode_eq_ok_iff (form : PayloadForm) (bytes : List UInt8) (value : Value) :
    form.decode limit? bytes = .ok value ↔
      ∃ rest, form.layout.decode (Scope.outermost none) bytes = .ok (value, rest) := by
  rw [decode_eq, Payload.decodeBytes]
  cases form.layout.decode (Scope.outermost none) bytes with
  | error fault => simp
  | ok result =>
    obtain ⟨found, rest⟩ := result
    simp

/-- An error names the payload and the message, and the place that does not follow the layout. -/
theorem malformed_of_decode (form : PayloadForm) {bytes : List UInt8} {e : ExtensionError}
    (h : form.decode limit? bytes = .error e) :
    ∃ path reason,
      e = .malformed (.payload form.payload.field form.message.name) path reason := by
  have hclosed : form.layout.isClosed = true := by cases form <;> rfl
  rw [decode_eq, Payload.decodeBytes] at h
  split at h
  · cases h
  · next fault hfault =>
    obtain ⟨path, reason, rfl⟩ := form.layout.wellShaped_of_isClosed hclosed _ bytes fault hfault
    exact ⟨path, reason, (Except.error.inj h).symm⟩

/-- The bytes are decoded to what their front stands for, and to nothing else. -/
theorem decode_eq_ok_iff_means (form : PayloadForm) (bytes : List UInt8) (value : Value) :
    form.decode limit? bytes = .ok value ↔ form.Means bytes value := by
  rw [decode_eq_ok_iff]
  cases form with
  | clientShares => exact exists_decode_labelled_list_iff _ _ (shareForm_readBy _)
  | serverShare => exact exists_decode_labelled_item_iff _ _ (shareForm_readBy _)
  | requestedGroup =>
    exact exists_decode_labelled_number_iff _ _ fun _ _ =>
      Schema.decode_code_eq_ok_iff _ _ _ _ namedGroups
  | offeredPsks =>
    exact exists_decode_labelled_lists_iff _ _ _ (identityForm_readBy _) (binderForm_readBy _)
  | selectedIdentity =>
    exact exists_decode_labelled_number_iff _ _ fun _ _ =>
      Schema.decode_uint_eq_ok_iff _ _ _ _ 2

end

theorem exists_means_iff (form : PayloadForm) (bytes : List UInt8) :
    (∃ value, form.Means bytes value) ↔ form.Admits bytes := by
  cases form with
  | clientShares =>
    constructor
    · intro hmeans
      obtain ⟨_, hdelimits, -⟩ := hmeans
      exact hdelimits
    · intro hdelimits
      obtain ⟨shares, hshares⟩ := shareForm.exists_lists (delimited 2 bytes)
      exact ⟨_, hdelimits, shares, hshares, rfl⟩
  | serverShare =>
    constructor
    · intro hmeans
      obtain ⟨_, share, rest, hbytes, -⟩ := hmeans
      exact (shareForm_starts_iff bytes).mp ⟨share, rest, hbytes⟩
    · intro hadmits
      obtain ⟨share, rest, hbytes⟩ := (shareForm_starts_iff bytes).mpr hadmits
      exact ⟨_, share, rest, hbytes, rfl⟩
  | requestedGroup | selectedIdentity =>
    constructor
    · intro hmeans
      obtain ⟨_, hle, -⟩ := hmeans
      exact hle
    · intro hle
      exact ⟨_, hle, rfl⟩
  | offeredPsks =>
    constructor
    · intro hmeans
      obtain ⟨_, hfirst, hsecond, -⟩ := hmeans
      exact ⟨hfirst, hsecond⟩
    · intro hadmits
      obtain ⟨hfirst, hsecond⟩ := hadmits
      obtain ⟨identities, hidentities⟩ := identityForm.exists_lists (delimited 2 bytes)
      obtain ⟨binders, hbinders⟩ := binderForm.exists_lists (delimited 2 (behind 2 bytes))
      exact ⟨_, hfirst, hsecond, identities, binders, hidentities, hbinders, rfl⟩

/-- What stands behind the front has no bearing on what it means. -/
theorem Means.append {form : PayloadForm} {bytes : List UInt8} {value : Value}
    (h : form.Means bytes value) (more : List UInt8) : form.Means (bytes ++ more) value := by
  cases form with
  | clientShares =>
    obtain ⟨hdelimits, hshares⟩ := h
    obtain ⟨hmore, hregion, -⟩ := append_of_delimits hdelimits more
    rw [Means, hregion]
    exact ⟨hmore, hshares⟩
  | serverShare =>
    obtain ⟨share, rest, rfl, hvalue⟩ := h
    exact ⟨share, rest ++ more, List.append_assoc _ _ _, hvalue⟩
  | requestedGroup | selectedIdentity =>
    obtain ⟨hle, rfl⟩ := h
    refine ⟨?_, by rw [leading_append hle]⟩
    rw [List.length_append]
    omega
  | offeredPsks =>
    obtain ⟨hidentities, hbinders, hvalue⟩ := h
    obtain ⟨hfirst, hregion, hbehind⟩ := append_of_delimits hidentities more
    obtain ⟨hsecond, hother, -⟩ := append_of_delimits hbinders more
    rw [Means, hregion, hbehind, hother]
    exact ⟨hfirst, hsecond, hvalue⟩

/-- What is known of a payload in a message, for bytes of any kind. -/
structure Interprets (limit? : Option DigitLimit) (form : PayloadForm) : Prop where
  means : ∀ bytes value, form.decode limit? bytes = .ok value ↔ form.Means bytes value
  admits : ∀ bytes, (∃ value, form.decode limit? bytes = .ok value) ↔ form.Admits bytes
  rejects : ∀ bytes, ¬ form.Admits bytes → ∃ e, form.decode limit? bytes = .error e ∧
    e.IsVerification ∧ (∀ needed, e ≠ .incomplete needed) ∧
    ∃ path reason, e = .malformed (.payload form.payload.field form.message.name) path reason
  ignores : ∀ bytes more value, form.decode limit? bytes = .ok value →
    form.decode limit? (bytes ++ more) = .ok value

theorem interprets (limit? : Option DigitLimit) (form : PayloadForm) :
    form.Interprets limit? where
  means := form.decode_eq_ok_iff_means
  admits := by
    intro bytes
    simp only [decode_eq_ok_iff_means, exists_means_iff]
  rejects := by
    intro bytes hnot
    cases hdecode : form.decode limit? bytes with
    | ok value =>
      have hmeans := (form.decode_eq_ok_iff_means bytes value).mp hdecode
      exact absurd ((form.exists_means_iff bytes).mp ⟨value, hmeans⟩) hnot
    | error e =>
      obtain ⟨path, reason, rfl⟩ := form.malformed_of_decode hdecode
      refine ⟨_, rfl, ExtensionError.isVerification_malformed _ _ _, ?_, path, reason, rfl⟩
      intro needed heq
      cases heq
  ignores := by
    intro bytes more value hdecode
    rw [decode_eq_ok_iff_means] at hdecode ⊢
    exact hdecode.append more

end PayloadForm

namespace Payload

/-- In an extension, in its content and alone the bytes are decoded to the same. -/
def Agrees (payload : Payload) (ext : Extension) (bytes : List UInt8) : Prop :=
  ∀ limit? message,
    payload.decode limit? ext.toValue message = payload.decode limit? (.bytes bytes) message ∧
    payload.decode limit? ext.content message = payload.decode limit? (.bytes bytes) message

theorem decode_congr {payload : Payload} {value other : Value}
    (h : Extension.payload value (.text payload.field) =
      Extension.payload other (.text payload.field)) (limit? : Option DigitLimit)
    (message : Value) :
    payload.decode limit? value message = payload.decode limit? other message := by
  rw [decode, decode, h]

/-- What a content has under the field is interpreted, in its extension and alone. -/
theorem agrees_of_get {payload : Payload} {ext : Extension} {bytes : List UInt8}
    (hget : ext.content.get (.text payload.field) = .ok (.bytes bytes))
    (halone : Extension.contentOf ext.content = .ok ext.content) : payload.Agrees ext bytes := by
  have hpayload : ∀ value, Extension.contentOf value = .ok ext.content →
      Extension.payload value (.text payload.field) = .ok (.bytes bytes) := by
    intro value hvalue
    rw [Extension.payload_of_contentOf hvalue, hget, mapError_ok]
  intro limit? message
  constructor
  · exact decode_congr (hpayload _ rfl) limit? message
  · exact decode_congr (hpayload _ halone) limit? message

/-- An extension whose content holds its body under the field of the payload. -/
theorem agrees_of_layout {payload : Payload} {label : String} {data rest : List UInt8}
    {ext : Extension} (h : Extension.decode data = .ok (ext, rest))
    (hlayout : Extension.layout (Extension.wireNumber data)
      (extensionTypes.name? (Extension.wireNumber data)) =
        Content.labelled label (.last payload.field .rest))
    (hfield : payload.field ≠ "_name") : payload.Agrees ext (Extension.body data) := by
  obtain ⟨envelope, rfl, hcontent⟩ := Extension.exists_envelope_of_decode h
  rw [envelope.wireNumber_append] at hlayout
  rw [envelope.body_append]
  have hbytes : ext.content = Content.ofBytes label payload.field envelope.body :=
    Except.ok.inj (hcontent.symm.trans (Extension.decodeContent_of_rest hlayout envelope.body))
  refine agrees_of_get ?_ (Extension.contentOf_of_decodeContent hcontent)
  rw [hbytes]
  simp [Value.get, Value.key, Value.text?, Content.ofBytes, List.lookup_cons, bind, Except.bind,
    beq_eq_false_iff_ne.mpr hfield]

end Payload

/-- Payloads are interpreted by the messages that carry them, in whatever way they are given. -/
theorem payloads_interpreted :
    (∀ limit? (form : PayloadForm), form.Interprets limit?) ∧
    ∀ data ext rest, Extension.decode data = .ok (ext, rest) →
      (Extension.wireNumber data = 0x0033 ∨ Extension.wireNumber data = 0x0028 →
        keyShare.Agrees ext (Extension.body data)) ∧
      (Extension.wireNumber data = 0x0029 → preSharedKey.Agrees ext (Extension.body data)) := by
  refine ⟨PayloadForm.interprets, fun data ext rest h => ⟨?_, ?_⟩⟩
  · rintro (hnumber | hnumber)
    · exact Payload.agrees_of_layout h (by rw [hnumber]; rfl) (by decide)
    · exact Payload.agrees_of_layout h (by rw [hnumber]; rfl) (by decide)
  · intro hnumber
    exact Payload.agrees_of_layout h (by rw [hnumber]; rfl) (by decide)

/-- Behind an identity whose age is missing the binders are found all the same, and a share whose
bytes are not all there is malformed. -/
theorem payloads_interpreted_occurs :
    (∃ ext, Extension.decode [0, 41, 0, 9, 0, 3, 0, 1, 9, 0, 2, 1, 7] = .ok (ext, []) ∧
      preSharedKey.decode none ext.toValue (.text "client_hello") =
        .ok (.record [("_name", .text "OfferedPsks"), ("identities", .list []),
          ("binders", .list [.record [("binder", .bytes [7])]])])) ∧
    ∃ e, keyShare.decode none (.bytes [0, 29, 0, 32, 0]) (.text "server_hello") = .error e ∧
      e.IsVerification := by
  obtain ⟨hforms, hextensions⟩ := payloads_interpreted
  constructor
  · obtain ⟨ext, hext⟩ : ∃ ext,
        Extension.decode [0, 41, 0, 9, 0, 3, 0, 1, 9, 0, 2, 1, 7] = .ok (ext, []) := ⟨_, rfl⟩
    have hcut : identityForm.Cut [0, 1, 9] :=
      ⟨(⟨[9], by decide⟩, ⟨0, by decide⟩), [0, 0, 0, 0], by decide, rfl⟩
    have hempty : binderForm.Cut [] := ⟨⟨[], by decide⟩, [0], by decide, rfl⟩
    have hidentities : identityForm.Lists [0, 1, 9] (.list []) :=
      ⟨[], [0, 1, 9], ⟨rfl, (not_starts_iff_cut _).mpr hcut⟩, rfl⟩
    have hbinders : binderForm.Lists [1, 7] (.list [.record [("binder", .bytes [7])]]) :=
      ⟨[⟨[7], by decide⟩], [], ⟨rfl, (not_starts_iff_cut _).mpr hempty⟩, rfl⟩
    have hmeans := ((hforms none .offeredPsks).means [0, 3, 0, 1, 9, 0, 2, 1, 7] _).mpr
      ⟨by decide, by decide, _, _, hidentities, hbinders, rfl⟩
    exact ⟨ext, hext, ((((hextensions _ _ _ hext).2 rfl) none _).1).trans hmeans⟩
  · obtain ⟨e, he, hverification, -⟩ :=
      (hforms none .serverShare).rejects [0, 29, 0, 32, 0] (by decide)
    exact ⟨e, he, hverification⟩

end Handshake
end HelloExtensions
