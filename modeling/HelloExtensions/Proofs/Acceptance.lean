import HelloExtensions.Proofs.Envelope

/-!
Which bodies are accepted for which types. A body is asked for a form that depends on the
number of its type only: so many bytes, at least so many, or lengths that tell of no more bytes
than follow them; what the delimited bytes are is never asked. A type without a form of its own
takes any body. So an extension whose bytes are all there is either decoded or malformed.
-/
namespace HelloExtensions

open Reading

/-- The schema can be read at the front of the bytes. -/
def Schema.Accepts (schema : Schema) (scope : Value) (bytes : List UInt8) : Prop :=
  ∃ value rest, schema.decode scope bytes = .ok (value, rest)

def Fields.Accepts (fields : Fields) (scope : Value) (bytes : List UInt8) : Prop :=
  ∃ entries rest, fields.decode scope bytes = .ok (entries, rest)

namespace Acceptance

section

variable (scope : Value) (bytes : List UInt8)

theorem accepts_uint (width : Nat) :
    (Schema.uint width).Accepts scope bytes ↔ width ≤ bytes.length := by
  simp only [Schema.Accepts, Schema.decode_uint_eq_ok_iff]
  exact ⟨fun ⟨_, _, h, _⟩ => h, fun h => ⟨_, _, h, rfl, rfl⟩⟩

theorem accepts_code (registry : Registry) :
    (Schema.code registry).Accepts scope bytes ↔ registry.width ≤ bytes.length := by
  simp only [Schema.Accepts, Schema.decode_code_eq_ok_iff]
  exact ⟨fun ⟨_, _, h, _⟩ => h, fun h => ⟨_, _, h, rfl, rfl⟩⟩

theorem accepts_rest : Schema.rest.Accepts scope bytes := ⟨_, _, by rw [Schema.decode]⟩

theorem accepts_many (item : Schema) : (Schema.many item).Accepts scope bytes :=
  ⟨_, _, by rw [Schema.decode]⟩

theorem accepts_single (item : Schema) :
    (Schema.single item).Accepts scope bytes ↔ item.Accepts scope bytes := by
  simp only [Schema.Accepts, Schema.decode, bind_eq_ok_iff, Prod.exists]
  constructor
  · intro haccepts
    obtain ⟨_, _, value, rest, hitem, _⟩ := haccepts
    exact ⟨value, rest, hitem⟩
  · intro haccepts
    obtain ⟨value, rest, hitem⟩ := haccepts
    exact ⟨_, _, value, rest, hitem, rfl⟩

theorem accepts_region (width : Nat) (content : Schema) :
    (Schema.region width content).Accepts scope bytes ↔
      Delimits width bytes ∧ content.Accepts scope (delimited width bytes) := by
  simp only [Schema.Accepts, Schema.decode_region_eq_ok_iff]
  constructor
  · intro haccepts
    obtain ⟨value, rest, hdelimits, _, left, hcontent⟩ := haccepts
    exact ⟨hdelimits, value, left, hcontent⟩
  · intro haccepts
    obtain ⟨hdelimits, value, left, hcontent⟩ := haccepts
    exact ⟨value, _, hdelimits, rfl, left, hcontent⟩

theorem accepts_record (fields : Fields) :
    (Schema.record fields).Accepts scope bytes ↔ fields.Accepts (Scope.inside [] scope) bytes := by
  simp only [Schema.Accepts, Fields.Accepts, Schema.decode_record_eq_ok_iff]
  constructor
  · intro haccepts
    obtain ⟨_, rest, entries, hfields, _⟩ := haccepts
    exact ⟨entries, rest, hfields⟩
  · intro haccepts
    obtain ⟨entries, rest, hfields⟩ := haccepts
    exact ⟨_, rest, entries, hfields, rfl⟩

theorem accepts_label (name text : String) (more : Fields) :
    (Fields.label name text more).Accepts scope bytes ↔ more.Accepts scope bytes := by
  simp only [Fields.Accepts, Fields.decode_label_eq_ok_iff]
  constructor
  · intro haccepts
    obtain ⟨_, rest, others, hmore, _⟩ := haccepts
    exact ⟨others, rest, hmore⟩
  · intro haccepts
    obtain ⟨others, rest, hmore⟩ := haccepts
    exact ⟨_, rest, others, hmore, rfl⟩

theorem accepts_done : Fields.done.Accepts scope bytes := ⟨_, _, by rw [Fields.decode]⟩

theorem accepts_field (name : String) (schema : Schema) (more : Fields) :
    (Fields.field name schema more).Accepts scope bytes ↔
      ∃ value left, schema.decode scope bytes = .ok (value, left) ∧ more.Accepts scope left := by
  simp only [Fields.Accepts, Fields.decode_field_eq_ok_iff]
  constructor
  · intro haccepts
    obtain ⟨_, rest, value, left, hvalue, others, hmore, _⟩ := haccepts
    exact ⟨value, left, hvalue, others, rest, hmore⟩
  · intro haccepts
    obtain ⟨value, left, hvalue, others, rest, hmore⟩ := haccepts
    exact ⟨_, rest, value, left, hvalue, others, hmore, rfl⟩

theorem accepts_last (name : String) (schema : Schema) :
    (Fields.last name schema).Accepts scope bytes ↔ schema.Accepts scope bytes := by
  simp only [Fields.Accepts, Fields.decode_last_eq_ok_iff, Schema.Accepts]
  constructor
  · intro haccepts
    obtain ⟨_, rest, value, hvalue, _⟩ := haccepts
    exact ⟨value, rest, hvalue⟩
  · intro haccepts
    obtain ⟨value, rest, hvalue⟩ := haccepts
    exact ⟨_, rest, value, hvalue, rfl⟩

theorem accepts_labelled (name : String) (fields : Fields) :
    (Content.labelled name fields).Accepts scope bytes ↔
      fields.Accepts (Scope.inside [] scope) bytes := by
  rw [Content.labelled, accepts_record, accepts_label]

/-- Where it is known what a field leaves, the fields behind it are read from there. -/
theorem accepts_field_iff {schema : Schema} {left : List UInt8}
    (h : ∀ value rest, schema.decode scope bytes = .ok (value, rest) → rest = left)
    (name : String) (more : Fields) :
    (Fields.field name schema more).Accepts scope bytes ↔
      schema.Accepts scope bytes ∧ more.Accepts scope left := by
  rw [accepts_field]
  constructor
  · intro haccepts
    obtain ⟨value, rest, hvalue, hmore⟩ := haccepts
    rw [h value rest hvalue] at hmore
    exact ⟨⟨value, rest, hvalue⟩, hmore⟩
  · intro haccepts
    obtain ⟨⟨value, rest, hvalue⟩, hmore⟩ := haccepts
    rw [← h value rest hvalue] at hmore
    exact ⟨value, rest, hvalue, hmore⟩

theorem accepts_field_opaque16 (name : String) (more : Fields) :
    (Fields.field name Schema.opaque16 more).Accepts scope bytes ↔
      Delimits 2 bytes ∧ more.Accepts scope (behind 2 bytes) := by
  have hleft : ∀ value rest, Schema.opaque16.decode scope bytes = .ok (value, rest) →
      rest = behind 2 bytes := by
    intro value rest hvalue
    exact ((Schema.decode_region_eq_ok_iff _ _ _ _ _ _).mp hvalue).2.1
  rw [accepts_field_iff scope bytes hleft, Schema.opaque16, accepts_region]
  simp only [accepts_rest, and_true]

theorem accepts_field_code (name : String) (registry : Registry) (more : Fields) :
    (Fields.field name (.code registry) more).Accepts scope bytes ↔
      registry.width ≤ bytes.length ∧ more.Accepts scope (bytes.drop registry.width) := by
  have hleft : ∀ value rest, (Schema.code registry).decode scope bytes = .ok (value, rest) →
      rest = bytes.drop registry.width := by
    intro value rest hvalue
    exact ((Schema.decode_code_eq_ok_iff _ _ _ _ _).mp hvalue).2.2
  rw [accepts_field_iff scope bytes hleft, accepts_code]

theorem accepts_field_uint (name : String) (width : Nat) (more : Fields) :
    (Fields.field name (.uint width) more).Accepts scope bytes ↔
      width ≤ bytes.length ∧ more.Accepts scope (bytes.drop width) := by
  have hleft : ∀ value rest, (Schema.uint width).decode scope bytes = .ok (value, rest) →
      rest = bytes.drop width := by
    intro value rest hvalue
    exact ((Schema.decode_uint_eq_ok_iff _ _ _ _ _).mp hvalue).2.2
  rw [accepts_field_iff scope bytes hleft, accepts_uint]

theorem accepts_typeNumber {number : Int} (h : Scope.typeNumber scope = .ok number)
    (name : String) (more : Fields) :
    (Fields.typeNumber name more).Accepts scope bytes ↔ more.Accepts scope bytes := by
  simp only [Fields.Accepts, Fields.decode, h, bind_eq_ok_iff, Except.ok.injEq, exists_eq_left',
    Prod.exists]
  constructor
  · intro haccepts
    obtain ⟨_, _, others, rest, hmore, _⟩ := haccepts
    exact ⟨others, rest, hmore⟩
  · intro haccepts
    obtain ⟨others, rest, hmore⟩ := haccepts
    exact ⟨_, _, others, rest, hmore, rfl⟩

end

section

variable {scope : Value} {n : Nat}

theorem accepts_onlyIf {up : Nat} (h : Scope.length scope up = .ok (.int n)) (test : LengthTest)
    (content : Schema) (bytes : List UInt8) :
    (Schema.onlyIf up test content).Accepts scope bytes ↔
      (test.Passes n → content.Accepts scope bytes) := by
  unfold Schema.Accepts
  rw [Schema.decode_onlyIf_of_length h]
  split
  · next hpasses => exact ⟨fun haccepts _ => haccepts, fun haccepts => haccepts hpasses⟩
  · next hfails => exact ⟨fun _ hpasses => absurd hpasses hfails, fun _ => ⟨_, _, rfl⟩⟩

theorem accepts_ifElse {up : Nat} (h : Scope.length scope up = .ok (.int n)) (test : LengthTest)
    (yes no : Schema) (bytes : List UInt8) :
    (Schema.ifElse up test yes no).Accepts scope bytes ↔
      if test.Passes n then yes.Accepts scope bytes else no.Accepts scope bytes := by
  unfold Schema.Accepts
  rw [Schema.decode_ifElse_of_length h]
  split
  · rfl
  · rfl

theorem accepts_check (h : Scope.length scope 1 = .ok (.int n)) (test : LengthTest)
    (more : Fields) (bytes : List UInt8) :
    (Fields.check test more).Accepts scope bytes ↔ test.Passes n ∧ more.Accepts scope bytes := by
  unfold Fields.Accepts
  rw [Fields.decode_check_of_length h]
  split
  · next hpasses => exact ⟨fun haccepts => ⟨hpasses, haccepts⟩, fun haccepts => haccepts.2⟩
  · next hfails =>
    constructor
    · intro haccepts
      obtain ⟨_, _, herror⟩ := haccepts
      cases herror
    · intro haccepts
      obtain ⟨hpasses, _⟩ := haccepts
      exact absurd hpasses hfails

theorem takeAmount_whole {size : Nat} (h : size < 65536) (bytes : List UInt8) :
    takeAmount (.whole size) bytes = takeBytes size bytes := by
  have hbelow : (Amount.whole size).isBelow 0 = false := by
    simp only [Amount.isBelow, decide_eq_false_iff_not]
    omega
  have hreadable : ¬ readingCap < (size : Int) := by
    unfold readingCap
    omega
  rw [takeAmount, hbelow, if_neg Bool.false_ne_true]
  simp only [if_neg hreadable, Int.toNat_natCast]

/-- The bytes of a declared length of which `less` are taken up already. -/
theorem accepts_bytes {up less : Nat} (h : Scope.length scope up = .ok (.int n))
    (hless : less ≤ n) (hcap : n < 65536) (bytes : List UInt8) :
    (Schema.bytes up less).Accepts scope bytes ↔ n - less ≤ bytes.length := by
  have hremaining : Scope.remaining scope up less = .ok (.whole (n - less : Nat)) := by
    rw [Scope.remaining_of_length h, Int.ofNat_sub hless]
  simp only [Schema.Accepts, Schema.decode, hremaining, bind_eq_ok_iff, Except.ok.injEq,
    exists_eq_left', takeAmount_whole (Nat.lt_of_le_of_lt (Nat.sub_le n less) hcap), Prod.exists,
    takeBytes_eq_ok_iff_take]
  constructor
  · intro haccepts
    obtain ⟨_, _, _, _, ⟨hle, _⟩, _⟩ := haccepts
    exact hle
  · intro hle
    exact ⟨_, _, _, _, ⟨hle, rfl, rfl⟩, rfl⟩

end

/-- A form that the body of an extension may be asked to have. -/
inductive BodyForm where
  | any
  /-- A length of `width` bytes, and as many bytes as it tells or more. -/
  | delimited (width : Nat)
  | exactly (size : Nat)
  | atLeast (size : Nat)
  | emptyOrAtLeast (size : Nat)
  /-- So many stretches behind `skipped` bytes, each after its length of two bytes. -/
  | stretches (skipped count : Nat)
deriving DecidableEq, Repr

/-- The bytes start with `count` stretches, each after its length of two bytes. -/
def Stretches : (count : Nat) → List UInt8 → Prop
  | 0, _ => True
  | count + 1, bytes => Delimits 2 bytes ∧ Stretches count (behind 2 bytes)

instance decidableStretches : (count : Nat) → (bytes : List UInt8) →
    Decidable (Stretches count bytes)
  | 0, _ => .isTrue trivial
  | count + 1, bytes =>
    have := decidableStretches count (behind 2 bytes)
    inferInstanceAs (Decidable (Delimits 2 bytes ∧ Stretches count (behind 2 bytes)))

def BodyForm.Fits (body : List UInt8) : BodyForm → Prop
  | .any => True
  | .delimited width => Delimits width body
  | .exactly size => body.length = size
  | .atLeast size => size ≤ body.length
  | .emptyOrAtLeast size => body.length = 0 ∨ size ≤ body.length
  | .stretches skipped count => skipped ≤ body.length ∧ Stretches count (body.drop skipped)

instance (body : List UInt8) : (form : BodyForm) → Decidable (form.Fits body)
  | .any => .isTrue trivial
  | .delimited width => inferInstanceAs (Decidable (Delimits width body))
  | .exactly size => inferInstanceAs (Decidable (body.length = size))
  | .atLeast size => inferInstanceAs (Decidable (size ≤ body.length))
  | .emptyOrAtLeast size => inferInstanceAs (Decidable (body.length = 0 ∨ size ≤ body.length))
  | .stretches skipped count =>
    inferInstanceAs (Decidable (skipped ≤ body.length ∧ Stretches count (body.drop skipped)))

/-- The forms that are asked of bodies, under the numbers of the types: lists behind a length of two
bytes or of one, bodies of one size or of none, and those that only have to be long enough. -/
def bodyForms : List (Nat × BodyForm) :=
  [(0x0000, .delimited 2), (0x000a, .delimited 2), (0x000d, .delimited 2), (0x0010, .delimited 2),
   (0x0030, .delimited 2),
   (0x000b, .delimited 1), (0x002d, .delimited 1), (0xff01, .delimited 1),
   (0x0001, .exactly 1), (0x000f, .exactly 1),
   (0x0016, .exactly 0), (0x0017, .exactly 0), (0x0031, .exactly 0), (0x3374, .exactly 0),
   (0x001c, .atLeast 2), (0x002a, .emptyOrAtLeast 4), (0x002b, .atLeast 1),
   (0xffce, .stretches 4 3)]

def bodyForm (number : Nat) : BodyForm := (bodyForms.lookup number).getD .any

/-- A body that the type of this number takes. The GREASE numbers take any. -/
def Acceptable (number : Nat) (body : List UInt8) : Prop :=
  ExtensionType.isGrease number = true ∨ (bodyForm number).Fits body

instance (number : Nat) (body : List UInt8) : Decidable (Acceptable number body) :=
  inferInstanceAs (Decidable (_ ∨ _))

/-- Among the bodies of extensions the schema reads those that have the form. -/
def ReadsForm (schema : Schema) (form : BodyForm) : Prop :=
  ∀ (type : CodePoint) (body : List UInt8), body.length < 65536 →
    (schema.Accepts (Extension.scope type body.length) body ↔ form.Fits body)

section

open Content Registry

variable (type : CodePoint) (body : List UInt8)

theorem length_record :
    Scope.length (Scope.inside [] (Extension.scope type body.length)) 1 =
      .ok (.int body.length) :=
  (Extension.answers_scope type body.length).length_nested 1

theorem readsForm_rest (name field : String) :
    ReadsForm (labelled name (.last field .rest)) .any := by
  intro type body _
  rw [accepts_labelled, accepts_last]
  exact iff_of_true (accepts_rest _ _) trivial

theorem readsForm_region (name field : String) (width : Nat) {content : Schema}
    (h : ∀ scope bytes, content.Accepts scope bytes) :
    ReadsForm (labelled name (.last field (.region width content))) (.delimited width) := by
  intro type body _
  rw [accepts_labelled, accepts_last, accepts_region]
  exact and_iff_left (h _ _)

theorem readsForm_list (name field : String) (width : Nat) (item : Schema) :
    ReadsForm (labelled name (.last field (.region width (.many item)))) (.delimited width) :=
  readsForm_region name field width fun scope bytes => accepts_many scope bytes item

theorem readsForm_sized (name field : String) (width : Nat) :
    ReadsForm (labelled name (.last field (.region width .rest))) (.delimited width) :=
  readsForm_region name field width accepts_rest

theorem readsForm_single_code (name field : String) {registry : Registry}
    (hwidth : registry.width = 1) :
    ReadsForm (labelled name (.check (.equals 1) (.last field (.code registry))))
      (.exactly 1) := by
  intro type body _
  rw [accepts_labelled, accepts_check (length_record type body), accepts_last, accepts_code,
    hwidth]
  simp only [LengthTest.Passes, BodyForm.Fits]
  omega

theorem readsForm_empty (name : String) : ReadsForm (empty name) (.exactly 0) := by
  intro type body _
  rw [empty, accepts_labelled, accepts_check (length_record type body)]
  simp only [LengthTest.Passes, BodyForm.Fits, accepts_done, and_true]
  omega

theorem readsForm_recordSizeLimit : ReadsForm recordSizeLimit (.atLeast 2) := by
  intro type body _
  rw [recordSizeLimit, accepts_labelled, accepts_last, Schema.uint16, accepts_uint]
  rfl

theorem readsForm_earlyDataIndication : ReadsForm earlyDataIndication (.emptyOrAtLeast 4) := by
  intro type body _
  rw [earlyDataIndication, accepts_labelled, accepts_last,
    accepts_onlyIf (length_record type body), Schema.uint32, accepts_uint]
  simp only [LengthTest.Passes, BodyForm.Fits]
  omega

/-- The request takes all that the type of the status leaves. -/
theorem readsForm_statusRequest : ReadsForm statusRequest .any := by
  intro type body hcap
  rw [statusRequest, accepts_labelled, accepts_last, accepts_onlyIf (length_record type body),
    certificateStatusRequest, accepts_record, accepts_field_code]
  refine iff_of_true ?_ trivial
  intro hpositive
  have hpos : 1 ≤ body.length := hpositive
  have hlength := (Extension.answers_scope type body.length).length_nested 2
  refine ⟨hpos, ?_⟩
  rw [accepts_last]
  refine (accepts_bytes hlength hpos hcap _).mpr ?_
  rw [List.length_drop]
  exact Nat.le_refl _

/-- Where there is a length that is not two, there is a byte for the count of the versions. -/
theorem readsForm_supportedVersions : ReadsForm supportedVersions (.atLeast 1) := by
  intro type body _
  have hlength : Scope.length (Extension.scope type body.length) 0 = .ok (.int body.length) :=
    (Extension.answers_scope type body.length).length_nested 0
  rw [supportedVersions, accepts_ifElse hlength, selectedVersion, versionList, accepts_labelled,
    accepts_last, accepts_single, accepts_code, accepts_labelled,
    accepts_check (length_record type body), accepts_field_uint, accepts_last,
    protocolVersionList]
  have hwidth : protocolVersions.width = 2 := rfl
  simp only [LengthTest.Passes, BodyForm.Fits, accepts_many, and_true, hwidth]
  split <;> omega

theorem readsForm_encryptedServerName : ReadsForm encryptedServerName (.stretches 4 3) := by
  intro type body _
  rw [encryptedServerName, accepts_labelled, accepts_field_code, accepts_field_code,
    accepts_field_opaque16, accepts_field_opaque16, accepts_last, Schema.opaque16,
    accepts_region]
  have hsuite : cipherSuites.width = 2 := rfl
  have hgroup : namedGroups.width = 2 := rfl
  simp only [BodyForm.Fits, Stretches, hsuite, hgroup, accepts_rest, and_true, List.drop_drop,
    List.length_drop]
  constructor
  · intro haccepts
    obtain ⟨hfirst, hsecond, hstretches⟩ := haccepts
    exact ⟨by omega, hstretches⟩
  · intro hfits
    obtain ⟨hle, hstretches⟩ := hfits
    exact ⟨by omega, by omega, hstretches⟩

theorem readsForm_grease : ReadsForm grease .any := by
  intro type body _
  rw [grease, accepts_labelled,
    accepts_typeNumber _ _ (Extension.answers_scope type body.length).number_eq, accepts_last]
  exact iff_of_true (accepts_rest _ _) trivial

/-- The layout of a type reads the form that is asked of its bodies. -/
def Agrees (c : String × Schema) : Prop :=
  ∀ number, extensionTypes.number? c.1 = some number → number ≠ 0x0012 →
    ReadsForm c.2 (bodyForm number)

theorem agrees_of_number {name : String} {schema : Schema} (number : Nat)
    (hnumber : extensionTypes.number? name = some number)
    (hreads : ReadsForm schema (bodyForm number)) : Agrees (name, schema) := by
  intro other hother _
  rw [hnumber] at hother
  cases hother
  exact hreads

theorem agrees_contents : ∀ c ∈ contents, Agrees c := by
  simp only [contents, List.forall_mem_cons, List.not_mem_nil, false_implies, implies_true,
    and_true]
  refine ⟨agrees_of_number 0x0000 rfl (readsForm_list _ _ _ _),
    agrees_of_number 0x0001 rfl (readsForm_single_code _ _ rfl),
    agrees_of_number 0x0005 rfl readsForm_statusRequest,
    agrees_of_number 0x000a rfl (readsForm_list _ _ _ _),
    agrees_of_number 0x000b rfl (readsForm_sized _ _ _),
    agrees_of_number 0x000d rfl (readsForm_list _ _ _ _),
    agrees_of_number 0x000f rfl (readsForm_single_code _ _ rfl),
    agrees_of_number 0x0010 rfl (readsForm_list _ _ _ _), ?_,
    agrees_of_number 0x0015 rfl (readsForm_rest _ _),
    agrees_of_number 0x0016 rfl (readsForm_empty _),
    agrees_of_number 0x0017 rfl (readsForm_empty _),
    agrees_of_number 0x001c rfl readsForm_recordSizeLimit,
    agrees_of_number 0x0023 rfl (readsForm_rest _ _),
    agrees_of_number 0x0028 rfl (readsForm_rest _ _),
    agrees_of_number 0x0029 rfl (readsForm_rest _ _),
    agrees_of_number 0x002a rfl readsForm_earlyDataIndication,
    agrees_of_number 0x002b rfl readsForm_supportedVersions,
    agrees_of_number 0x002c rfl (readsForm_rest _ _),
    agrees_of_number 0x002d rfl (readsForm_list _ _ _ _),
    agrees_of_number 0x0030 rfl (readsForm_list _ _ _ _),
    agrees_of_number 0x0031 rfl (readsForm_empty _),
    agrees_of_number 0x0033 rfl (readsForm_rest _ _),
    agrees_of_number 0x3374 rfl (readsForm_empty _),
    agrees_of_number 0xff01 rfl (readsForm_sized _ _ _),
    agrees_of_number 0xffce rfl readsForm_encryptedServerName,
    agrees_of_number 0xfafa rfl readsForm_grease⟩
  intro number hnumber hne
  have hrfl : extensionTypes.number? "signed_certificate_timestamp" = some 0x0012 := rfl
  rw [hrfl] at hnumber
  cases hnumber
  exact absurd rfl hne

/-- Only types that have a layout ask for a form of their own. -/
theorem bodyForm_eq_any {number : Nat}
    (h : (extensionTypes.name? number).bind (fun name => contents.lookup name) = none) :
    bodyForm number = .any := by
  have hnamed : ∀ f ∈ bodyForms,
      ((extensionTypes.name? f.1).bind fun name => contents.lookup name).isSome = true := by
    decide
  cases hlookup : bodyForms.lookup number with
  | none => rw [bodyForm, hlookup, Option.getD_none]
  | some form =>
    have hsome := hnamed (number, form) (Entries.mem_of_lookup_eq_some hlookup)
    rw [h] at hsome
    cases hsome

theorem readsForm_layout {number : Nat} (hne : number ≠ 0x0012)
    (hgrease : ExtensionType.isGrease number = false) :
    ReadsForm (Extension.layout number (extensionTypes.name? number)) (bodyForm number) := by
  unfold Extension.layout
  rw [hgrease, if_neg Bool.false_ne_true]
  cases hlookup : (extensionTypes.name? number).bind fun name => contents.lookup name with
  | none =>
    rw [bodyForm_eq_any hlookup]
    exact readsForm_rest _ _
  | some schema =>
    obtain ⟨name, hname, hschema⟩ := Option.bind_eq_some_iff.mp hlookup
    exact agrees_contents _ (Entries.mem_of_lookup_eq_some hschema) number
      ((number?_eq_some_iff_name? extensionTypes_wellFormed).mpr hname) hne

end

end Acceptance

namespace Extension

open Acceptance Registry

/-- The content of a body can be read exactly if the type takes the body. -/
theorem exists_decodeContent_iff {number : Nat} {body : List UInt8} (hne : number ≠ 0x0012)
    (hcap : body.length < 65536) :
    (∃ content, decodeContent (extensionTypes.codePoint number) body = .ok content) ↔
      Acceptable number body := by
  have haccepts : (∃ content, decodeContent (extensionTypes.codePoint number) body = .ok content) ↔
      (layout number (extensionTypes.name? number)).Accepts
        (scope (extensionTypes.codePoint number) body.length) body := by
    simp only [decodeContent_eq_ok_iff, Schema.Accepts]
    rfl
  rw [haccepts, Acceptable]
  cases hgrease : ExtensionType.isGrease number with
  | false => simpa using readsForm_layout hne hgrease _ body hcap
  | true =>
    have hlayout : layout number (extensionTypes.name? number) = Content.grease := by
      unfold layout
      rw [hgrease, if_pos rfl]
    rw [hlayout]
    exact (readsForm_grease _ body hcap).trans (iff_of_true trivial (.inl rfl))

/-- The bytes are decoded to an extension of the type and length that they name themselves,
and what is behind the declared length is left. -/
def Accepted (bytes : List UInt8) : Prop :=
  ∃ content, decode bytes =
    .ok (⟨extensionTypes.codePoint (wireNumber bytes), declaredLength bytes, content⟩,
      bytes.drop (headerSize + declaredLength bytes))

/-- The bytes are found to be malformed. -/
def Rejected (bytes : List UInt8) : Prop := ∃ e, decode bytes = .error e ∧ e.IsVerification

theorem accepted_append_iff (envelope : Envelope) (rest : List UInt8) :
    Accepted (envelope.bytes ++ rest) ↔
      ∃ content, decodeContent envelope.type envelope.body = .ok content := by
  have hdrop : (envelope.bytes ++ rest).drop (headerSize + envelope.body.length) = rest :=
    List.drop_left' envelope.length_bytes
  unfold Accepted
  rw [envelope.wireNumber_append, envelope.declaredLength_append, hdrop, envelope.decode_append,
    Envelope.extension]
  cases decodeContent envelope.type envelope.body with
  | error fault => simp [Except.map]
  | ok content => simp [Except.map, Envelope.type]

theorem rejected_append_of_error {envelope : Envelope} {fault : Fault}
    (h : decodeContent envelope.type envelope.body = .error fault) (rest : List UInt8) :
    Rejected (envelope.bytes ++ rest) := by
  have hextension : envelope.extension = .error (.ofFault
      (.extension envelope.type envelope.body.length) (fault.under "extension_data")) := by
    rw [Envelope.extension, h]
  refine ⟨_, ?_, Envelope.isVerification_of_extension_eq_error hextension⟩
  rw [envelope.decode_append, hextension]
  rfl

theorem accepted_or_rejected (envelope : Envelope) (rest : List UInt8) :
    Accepted (envelope.bytes ++ rest) ∨ Rejected (envelope.bytes ++ rest) := by
  cases hcontent : decodeContent envelope.type envelope.body with
  | error fault => exact .inr (rejected_append_of_error hcontent rest)
  | ok content => exact .inl ((accepted_append_iff envelope rest).mpr ⟨content, hcontent⟩)

theorem accepted_append_iff_acceptable {envelope : Envelope} (h : envelope.number ≠ 0x0012)
    (rest : List UInt8) :
    Accepted (envelope.bytes ++ rest) ↔ Acceptable envelope.number envelope.body :=
  (accepted_append_iff envelope rest).trans (exists_decodeContent_iff h envelope.length_lt)

/-- What decoding comes to: bytes are missing, or the extension is accepted or rejected. Apart
from certificate timestamps, those are accepted whose body is acceptable for the type. -/
theorem decode_outcome (data : List UInt8) :
    (data.length < headerSize →
      decode data = .error (.incomplete (headerSize - data.length))) ∧
    (headerSize ≤ data.length → data.length < headerSize + declaredLength data →
      decode data = .error (.incomplete (headerSize + declaredLength data - data.length))) ∧
    (headerSize + declaredLength data ≤ data.length →
      (Accepted data ∨ Rejected data) ∧
      (wireNumber data ≠ 0x0012 →
        (Accepted data ↔ Acceptable (wireNumber data) (body data)) ∧
        (¬ Acceptable (wireNumber data) (body data) → Rejected data))) := by
  refine ⟨?_, ?_, ?_⟩
  · intro hshort
    rw [decode_of_unfinished (.inl hshort), wanted, if_pos hshort]
  · intro hheader hshort
    rw [decode_of_unfinished (.inr hshort), wanted, if_neg (Nat.not_lt.mpr hheader)]
  · intro hwhole
    have hfinished : ¬ Unfinished data := by
      unfold Unfinished
      omega
    obtain ⟨envelope, rest, rfl⟩ := exists_envelope hfinished
    rw [envelope.wireNumber_append, envelope.body_append]
    have hverdict := accepted_or_rejected envelope rest
    refine ⟨hverdict, fun hne => ⟨accepted_append_iff_acceptable hne rest, ?_⟩⟩
    intro hunacceptable
    have hnot : ¬ Accepted (envelope.bytes ++ rest) :=
      mt (accepted_append_iff_acceptable hne rest).mp hunacceptable
    exact hverdict.resolve_left hnot

/-- A server name list whose length tells of more bytes than the body has is rejected. -/
theorem decode_outcome_overflow : Rejected [0, 0, 0, 5, 0, 4, 0, 0, 0] :=
  (((decode_outcome [0, 0, 0, 5, 0, 4, 0, 0, 0]).2.2 (by decide)).2 (by decide)).2 (by decide)

end Extension

end HelloExtensions
