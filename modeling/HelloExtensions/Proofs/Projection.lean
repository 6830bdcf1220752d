import HelloExtensions.Proofs.Spelling.Layout

/-!
Telling the type of an extension from its content. The layouts of contents are found by the names
of types, and the types by the labels of the layouts, in two tables. For each layout the second
table leads back to the name that the layout is found by. So the label of a content that was read
stands for the number on the wire, but all GREASE numbers have the same label, and the label of a
content of unknown layout stands for no number.
-/
namespace HelloExtensions

open ExtensionType Reading Registry

/-- The labels that a schema gives to what is read by it. -/
def Schema.labels : Schema → List String
  | .record (.label _ text _) => [text]
  | .ifElse _ _ yes no => yes.labels ++ no.labels
  | _ => []

/-- What is read is a record with a label, and it has no field of an extension. -/
def Schema.isLabelled : Schema → Bool
  | .record (.label name _ more) =>
    name == "_name" && !more.names.contains "extension_type" &&
      !more.names.contains "extension_data"
  | .ifElse _ _ yes no => yes.isLabelled && no.isLabelled
  | _ => false

/-- A record that has this label and no field of an extension. -/
structure Value.Labelled (value : Value) (label : String) : Prop where
  label_eq : value.entry "_name" = .ok (.text label)
  no_type : value.field? "extension_type" = .ok none
  no_content : value.field? "extension_data" = .ok none

theorem Schema.exists_label_of_decode (schema : Schema) (h : schema.isLabelled = true)
    {scope value : Value} {bytes rest : List UInt8}
    (hdecode : schema.decode scope bytes = .ok (value, rest)) :
    ∃ label ∈ schema.labels, value.Labelled label := by
  cases schema with
  | record fields =>
    cases fields with
    | label name text more =>
      simp only [Schema.isLabelled, Bool.and_eq_true, beq_iff_eq, Bool.not_eq_true',
        List.contains_eq_mem, decide_eq_false_iff_not] at h
      obtain ⟨⟨rfl, htype⟩, hcontent⟩ := h
      obtain ⟨entries, hfields, rfl⟩ := (Schema.decode_record_eq_ok_iff _ _ _ _ _).mp hdecode
      obtain ⟨others, hmore, rfl⟩ := (Fields.decode_label_eq_ok_iff _ _ _ _ _ _ _).mp hfields
      rw [← Fields.keys_of_decode more hmore] at htype hcontent
      refine ⟨text, List.mem_singleton_self text, rfl, ?_, ?_⟩
      · rw [Value.field?, Entries.lookup_cons, if_neg (by decide),
          Entries.lookup_eq_none_of_not_mem htype]
      · rw [Value.field?, Entries.lookup_cons, if_neg (by decide),
          Entries.lookup_eq_none_of_not_mem hcontent]
    | _ => cases h
  | ifElse up test yes no =>
    simp only [Schema.isLabelled, Bool.and_eq_true] at h
    simp only [Schema.decode, bind_eq_ok_iff] at hdecode
    obtain ⟨length, -, holds, -, hdecode⟩ := hdecode
    split at hdecode
    · obtain ⟨label, hlabel, hvalue⟩ := Schema.exists_label_of_decode yes h.1 hdecode
      exact ⟨label, List.mem_append_left _ hlabel, hvalue⟩
    · obtain ⟨label, hlabel, hvalue⟩ := Schema.exists_label_of_decode no h.2 hdecode
      exact ⟨label, List.mem_append_right _ hlabel, hvalue⟩
  | _ => cases h

namespace Extension

theorem isLabelled_layout (number : Int) (name? : Option String) :
    (layout number name?).isLabelled = true :=
  forall_layout (P := fun schema => schema.isLabelled = true) (by decide) (by decide) (by decide)
    number name?

/-- The number that stands for a type. It is the same one for all GREASE numbers. -/
def projected (number : Nat) : Nat := if isGrease number then 0xfafa else number

/-- The label of a layout leads back to the name of the type, unless the layout is unknown, and
then the type is no GREASE one. -/
theorem label_layout {number : Nat} {label : String}
    (h : label ∈ (layout number (extensionTypes.name? number)).labels) :
    label = "Unknown" ∧ projected number = number ∨
      label ≠ "Unknown" ∧ ∃ name, Content.labelTypes.lookup label = some name ∧
        extensionTypes.number? name = some (projected number) := by
  have hcontents : ∀ c ∈ Content.contents, ∀ label ∈ c.2.labels,
      label ≠ "Unknown" ∧ Content.labelTypes.lookup label = some c.1 := by
    decide
  unfold layout at h
  unfold projected
  split at h
  · next hgrease =>
    rw [if_pos hgrease]
    obtain rfl := List.mem_singleton.mp h
    exact .inr ⟨by decide, "grease", rfl, rfl⟩
  · next hgrease =>
    rw [if_neg hgrease]
    cases hlookup : (extensionTypes.name? number).bind fun name => Content.contents.lookup name with
    | none =>
      rw [hlookup] at h
      exact .inl ⟨List.mem_singleton.mp h, rfl⟩
    | some schema =>
      rw [hlookup] at h
      obtain ⟨name, hname, hschema⟩ := Option.bind_eq_some_iff.mp hlookup
      obtain ⟨hne, htable⟩ := hcontents _ (Entries.mem_of_lookup_eq_some hschema) label h
      exact .inr ⟨hne, name, htable,
        (Registry.number?_eq_some_iff_name? extensionTypes_wellFormed).mpr hname⟩

theorem typeNumber_text (limit? : Option Text.Numeral.DigitLimit) {name : String} {number : Nat}
    (h : extensionTypes.number? name = some number) :
    typeNumber limit? (.text name) = .ok (number : Int) := by
  have hnumeric : isNumeric (.text name) = false := rfl
  rw [typeNumber, hnumeric, if_neg Bool.false_ne_true]
  simp only [Value.key, Value.text?, mapError_ok, bind, Except.bind, Option.bind_some, h]
  rfl

section

variable {value content : Value} {label : String}

theorem typeOf_of_known (hcontent : contentOf value = .ok content)
    (hlabel : content.entry "_name" = .ok (.text label)) (hne : label ≠ "Unknown") {name : String}
    (htable : Content.labelTypes.lookup label = some name) :
    typeOf value = typeNumber (some .standard) (.text name) := by
  have htext : ¬ some label = some "Unknown" := fun h => hne (Option.some.inj h)
  simp only [typeOf, hcontent, hlabel, mapError_ok, bind, Except.bind, if_neg htext, Value.key,
    Value.text?, Option.bind_some, htable]

theorem typeOf_of_unknown (hcontent : contentOf value = .ok content)
    (hlabel : content.entry "_name" = .ok (.text "Unknown")) {type? : Option Value}
    (htype : value.field? "extension_type" = .ok type?) :
    typeOf value = match type? with
      | some type => type.number.mapError .shape
      | none => .error .untyped := by
  simp only [typeOf, hcontent, hlabel, mapError_ok, bind, Except.bind, Value.text?, if_true, htype]
  cases type? <;> rfl

end

theorem exists_label_of_decodeContent {envelope : Envelope} {content : Value}
    (h : decodeContent envelope.type envelope.body = .ok content) :
    ∃ label, content.Labelled label ∧
      label ∈ (layout envelope.number (extensionTypes.name? envelope.number)).labels := by
  obtain ⟨left, hread⟩ := (decodeContent_eq_ok_iff _ _ _).mp h
  obtain ⟨label, hmem, hlabelled⟩ := Schema.exists_label_of_decode _ (isLabelled_layout _ _) hread
  exact ⟨label, hlabelled, hmem⟩

/-- The type of an extension is told from its label, or else from the number it carries. -/
theorem typeOf_toValue_of_decode {data rest : List UInt8} {ext : Extension}
    (h : decode data = .ok (ext, rest)) :
    typeOf ext.toValue = .ok (projected (wireNumber data) : Int) := by
  obtain ⟨envelope, rfl, hcontent⟩ := exists_envelope_of_decode h
  obtain ⟨htype, -⟩ := type_and_length_of_decode h
  rw [envelope.wireNumber_append]
  have hnumber : (Value.code ext.type).number = .ok (envelope.number : Int) := by
    rw [htype]
    rfl
  have hwhole : contentOf ext.toValue = .ok ext.content := rfl
  obtain ⟨label, hlabelled, hlayout⟩ := exists_label_of_decodeContent hcontent
  rcases label_layout hlayout with ⟨rfl, hsame⟩ | ⟨hne, name, htable, hname⟩
  · rw [typeOf_of_unknown hwhole hlabelled.label_eq rfl, hsame]
    exact congrArg (Except.mapError ExtensionError.shape) hnumber
  · rw [typeOf_of_known hwhole hlabelled.label_eq hne htable, typeNumber_text _ hname]

/-- The number of the type that is told from an extension is that on the wire, or that of GREASE.
The content alone tells the same unless its layout is unknown, and then this is reported. -/
theorem typeOf_of_decode {data rest : List UInt8} {ext : Extension}
    (h : decode data = .ok (ext, rest)) :
    (Value.code ext.type).number = .ok (wireNumber data : Int) ∧
      typeOf ext.toValue = .ok (projected (wireNumber data) : Int) ∧
      ∃ label, ext.content.entry "_name" = .ok (.text label) ∧
        (label ≠ "Unknown" → typeOf ext.content = .ok (projected (wireNumber data) : Int)) ∧
        (label = "Unknown" → ∃ e report, typeOf ext.content = .error e ∧
          e.report? = some report ∧ report.kind = .general ∧
          report.status = .text "unknown_extension_type") := by
  have hwhole := typeOf_toValue_of_decode h
  obtain ⟨envelope, rfl, hcontent⟩ := exists_envelope_of_decode h
  obtain ⟨htype, -⟩ := type_and_length_of_decode h
  rw [envelope.wireNumber_append] at hwhole ⊢
  have hnumber : (Value.code ext.type).number = .ok (envelope.number : Int) := by
    rw [htype]
    rfl
  obtain ⟨label, hlabelled, hlayout⟩ := exists_label_of_decodeContent hcontent
  have halone : contentOf ext.content = .ok ext.content := by
    rw [contentOf, hlabelled.no_content]
    rfl
  refine ⟨hnumber, hwhole, label, hlabelled.label_eq, ?_, ?_⟩
  · intro hne
    obtain ⟨-, name, htable, hname⟩ := (label_layout hlayout).resolve_left fun h => hne h.1
    rw [typeOf_of_known halone hlabelled.label_eq hne htable, typeNumber_text _ hname]
  · rintro rfl
    exact ⟨_, _, typeOf_of_unknown halone hlabelled.label_eq hlabelled.no_type, rfl, rfl, rfl⟩

/-- A GREASE number is told as that of GREASE, and a content of unknown layout has to be asked
together with its extension. -/
theorem typeOf_of_decode_occurs :
    (∃ ext, decode [0x1a, 0x1a, 0, 0] = .ok (ext, []) ∧ typeOf ext.toValue = .ok 0xfafa ∧
      typeOf ext.content = .ok 0xfafa) ∧
    ∃ ext e, decode [0, 47, 0, 0] = .ok (ext, []) ∧ typeOf ext.toValue = .ok 47 ∧
      typeOf ext.content = .error e := by
  constructor
  · obtain ⟨-, hwhole, label, hlabel, hcontent, -⟩ :=
      @typeOf_of_decode [0x1a, 0x1a, 0, 0] _ _ rfl
    cases hlabel
    exact ⟨_, rfl, hwhole, hcontent (by decide)⟩
  · obtain ⟨-, hwhole, label, hlabel, -, hcontent⟩ :=
      @typeOf_of_decode [0, 47, 0, 0] _ _ rfl
    cases hlabel
    obtain ⟨e, -, he, -⟩ := hcontent rfl
    exact ⟨_, e, rfl, hwhole, he⟩

end Extension
end HelloExtensions
