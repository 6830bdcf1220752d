import HelloExtensions.Proofs.Projection

/-!
The variants of contents. The number of the type decides which layout a body is read by: a GREASE
number before all, whatever the registry has under it, then the name of the type if a layout is
listed under it, and otherwise the layout is unknown. The label of what is read tells which layout
it was. Contents that are kept as bytes hold the body as it is.
-/
namespace HelloExtensions

open ExtensionType Reading Registry

namespace ExtensionType

/-- A GREASE number has the hexadecimal digit a at the end of both of its bytes. -/
theorem isGrease_iff {number : Nat} (h : number < 65536) :
    isGrease number = true ↔ number &&& 0x0f0f = 0x0a0a := by
  have hmod : ((number : Int) % bound).toNat = number := by
    unfold bound
    omega
  rw [isGrease, hmod, beq_iff_eq]
  rfl

theorem isGrease_eq_false_iff {number : Nat} (h : number < 65536) :
    isGrease number = false ↔ number &&& 0x0f0f ≠ 0x0a0a := by
  rw [← Bool.not_eq_true, isGrease_iff h]

end ExtensionType

/-- The label that a schema gives to what it reads where this length is declared. -/
def Schema.variant? (length : Nat) : Schema → Option String
  | .record (.label _ text _) => some text
  | .ifElse _ test yes no =>
    if test.Passes length then yes.variant? length else no.variant? length
  | _ => none

theorem Schema.mem_labels_of_variant? (schema : Schema) {length : Nat} {label : String}
    (h : schema.variant? length = some label) : label ∈ schema.labels := by
  cases schema with
  | record fields =>
    cases fields with
    | label name text more =>
      rw [variant?, Option.some.injEq] at h
      exact h ▸ List.mem_singleton_self text
    | _ => cases h
  | ifElse up test yes no =>
    rw [variant?] at h
    split at h
    · exact List.mem_append_left _ (mem_labels_of_variant? yes h)
    · exact List.mem_append_right _ (mem_labels_of_variant? no h)
  | _ => cases h

/-- What is read has the label that the declared length selects. -/
theorem Schema.labelled_of_decode {scope value : Value} {length : Nat}
    (hlength : Scope.length scope 0 = .ok (.int length)) (schema : Schema)
    (hout : schema.refersOut 0 = true) (h : schema.isLabelled = true) {bytes rest : List UInt8}
    (hdecode : schema.decode scope bytes = .ok (value, rest)) :
    ∃ label, schema.variant? length = some label ∧ value.Labelled label := by
  cases schema with
  | record fields =>
    cases fields with
    | label name text more =>
      obtain ⟨label, hmem, hvalue⟩ := exists_label_of_decode _ h hdecode
      obtain rfl := List.mem_singleton.mp hmem
      exact ⟨label, rfl, hvalue⟩
    | _ => cases h
  | ifElse up test yes no =>
    simp only [refersOut, Bool.and_eq_true, beq_iff_eq] at hout
    simp only [isLabelled, Bool.and_eq_true] at h
    obtain ⟨⟨rfl, hyes⟩, hno⟩ := hout
    rw [decode_ifElse_of_length hlength] at hdecode
    rw [variant?]
    split at hdecode
    · next hpasses =>
      rw [if_pos hpasses]
      exact labelled_of_decode hlength yes hyes h.1 hdecode
    · next hfails =>
      rw [if_neg hfails]
      exact labelled_of_decode hlength no hno h.2 hdecode
  | _ => cases h

namespace Content

/-- The layout that is listed under the name of a type, if the type has one. -/
def listed? (number : Nat) : Option Schema :=
  (extensionTypes.name? number).bind fun name => contents.lookup name

/-- The content of a GREASE extension. -/
def ofGrease (number : Nat) (body : List UInt8) : Value :=
  .record [("_name", .text "Grease"), ("grease_value", .int number), ("data", .bytes body)]

/-- A content whose only field holds the body. -/
def ofBytes (label field : String) (body : List UInt8) : Value :=
  .record [("_name", .text label), (field, .bytes body)]

/-- The types whose bodies are kept as bytes, with the label and the field of their contents. -/
def bytesTypes : List (String × String × String) :=
  [("padding", "Padding", "padding"), ("session_ticket", "SessionTicket", "ticket"),
   ("key_share_old", "KeyShareOld", "key_share"), ("key_share", "KeyShare", "key_share"),
   ("pre_shared_key", "PreSharedKey", "pre_shared_key"), ("cookie", "Cookie", "cookie")]

theorem decode_labelled_rest (label field : String) (scope : Value) (body : List UInt8) :
    (labelled label (.last field .rest)).decode scope body =
      .ok (ofBytes label field body, []) := by
  refine (decode_labelled_eq_ok_iff _ _ _ _ _ _).mpr ⟨[(field, .bytes body)], ?_, rfl⟩
  exact (Fields.decode_last_eq_ok_iff _ _ _ _ _ _).mpr ⟨_, by rw [Schema.decode], rfl⟩

theorem lookup_bytesTypes : ∀ t ∈ bytesTypes,
    contents.lookup t.1 = some (labelled t.2.1 (.last t.2.2 .rest)) := by
  simp only [bytesTypes, List.forall_mem_cons, List.not_mem_nil, false_implies, implies_true,
    and_true]
  exact ⟨rfl, rfl, rfl, rfl, rfl, rfl⟩

end Content

namespace Extension

theorem layout_of_isGrease {number : Int} (h : isGrease number = true) (name? : Option String) :
    layout number name? = Content.grease := by
  rw [layout, h, if_pos rfl]

theorem layout_eq_getD {number : Nat} (h : isGrease number = false) :
    layout number (extensionTypes.name? number) =
      (Content.listed? number).getD Content.unknown := by
  rw [layout, h, if_neg Bool.false_ne_true, Content.listed?]

theorem decodeContent_of_isGrease {type : CodePoint} {number : Nat}
    (hnumber : type.number = number) (h : isGrease number = true) (body : List UInt8) :
    decodeContent type body = .ok (Content.ofGrease number body) := by
  refine (decodeContent_eq_ok_iff _ _ _).mpr ⟨[], ?_⟩
  rw [layout_of_isGrease (by rw [hnumber, h])]
  refine (Content.decode_labelled_eq_ok_iff _ _ _ _ _ _).mpr
    ⟨[("grease_value", .int number), ("data", .bytes body)], ?_, rfl⟩
  have htype : Scope.typeNumber (Scope.inside [] (scope type body.length)) = .ok (number : Int) :=
    hnumber ▸ (answers_scope type body.length).number_eq
  have hdata : (Fields.last "data" .rest).decode
      (Scope.inside [] (scope type body.length)) body = .ok ([("data", .bytes body)], []) :=
    (Fields.decode_last_eq_ok_iff _ _ _ _ _ _).mpr ⟨_, by rw [Schema.decode], rfl⟩
  simp only [Fields.decode, htype, hdata, bind, Except.bind]
  rfl

theorem decodeContent_of_rest {number : Nat} {label field : String}
    (h : layout number (extensionTypes.name? number) =
      Content.labelled label (.last field .rest)) (body : List UInt8) :
    decodeContent (extensionTypes.codePoint number) body =
      .ok (Content.ofBytes label field body) := by
  refine (decodeContent_eq_ok_iff _ _ _).mpr ⟨[], ?_⟩
  have hlayout : layout (extensionTypes.codePoint number).number
      (extensionTypes.codePoint number).name? = _ := h
  rw [hlayout, Content.decode_labelled_rest]

/-- What is read from a body has the label that its layout has for bodies of this length. -/
theorem labelled_of_decodeContent {type : CodePoint} {body : List UInt8} {content : Value}
    (h : decodeContent type body = .ok content) :
    ∃ label, (layout type.number type.name?).variant? body.length = some label ∧
      content.Labelled label := by
  obtain ⟨rest, hdecode⟩ := (decodeContent_eq_ok_iff _ _ _).mp h
  exact Schema.labelled_of_decode ((answers_scope type body.length).length_nested 0) _
    (refersOut_layout _ _) (isLabelled_layout _ _) hdecode

/-- A content is its own content. -/
theorem contentOf_of_decodeContent {type : CodePoint} {body : List UInt8} {content : Value}
    (h : decodeContent type body = .ok content) : contentOf content = .ok content := by
  obtain ⟨label, -, hlabelled⟩ := labelled_of_decodeContent h
  rw [contentOf, hlabelled.no_content]
  rfl

section

variable {number : Nat} {label : String} {length : Nat}

/-- Labels other than that of GREASE and that for unknown contents are those of listed layouts. -/
theorem variant?_cases
    (h : (layout number (extensionTypes.name? number)).variant? length = some label) :
    isGrease number = true ∧ label = "Grease" ∨
    isGrease number = false ∧ Content.listed? number = none ∧ label = "Unknown" ∨
    isGrease number = false ∧ ∃ name schema, extensionTypes.number? name = some number ∧
      (name, schema) ∈ Content.contents ∧ Content.listed? number = some schema ∧
      schema.variant? length = some label := by
  cases hgrease : isGrease number with
  | true =>
    rw [layout_of_isGrease hgrease] at h
    exact .inl ⟨rfl, (Option.some.inj h).symm⟩
  | false =>
    rw [layout_eq_getD hgrease] at h
    cases hlisted : Content.listed? number with
    | none =>
      rw [hlisted] at h
      exact .inr (.inl ⟨rfl, rfl, (Option.some.inj h).symm⟩)
    | some schema =>
      rw [hlisted] at h
      obtain ⟨name, hname, hschema⟩ := Option.bind_eq_some_iff.mp hlisted
      exact .inr (.inr ⟨rfl, name, schema,
        (number?_eq_some_iff_name? extensionTypes_wellFormed).mpr hname,
        Entries.mem_of_lookup_eq_some hschema, rfl, h⟩)

/-- The layout of GREASE is listed as well, but under a name whose number is a GREASE one. -/
theorem label_eq_grease_iff
    (h : (layout number (extensionTypes.name? number)).variant? length = some label) :
    label = "Grease" ↔ isGrease number = true := by
  have hcontents : ∀ c ∈ Content.contents, "Grease" ∈ c.2.labels →
      (extensionTypes.number? c.1).all (fun n : Nat => isGrease n) = true := by
    decide
  rcases variant?_cases h with ⟨hgrease, rfl⟩ | ⟨hgrease, -, rfl⟩ |
    ⟨hgrease, name, schema, hname, hmem, -, hvariant⟩
  · exact iff_of_true rfl hgrease
  · exact iff_of_false (by decide) (by rw [hgrease]; decide)
  · refine iff_of_false ?_ (by rw [hgrease]; decide)
    rintro rfl
    have hall := hcontents _ hmem (schema.mem_labels_of_variant? hvariant)
    rw [hname, Option.all_some, hgrease] at hall
    cases hall

theorem label_eq_unknown_iff
    (h : (layout number (extensionTypes.name? number)).variant? length = some label) :
    label = "Unknown" ↔ isGrease number = false ∧ Content.listed? number = none := by
  have hcontents : ∀ c ∈ Content.contents, "Unknown" ∉ c.2.labels := by decide
  rcases variant?_cases h with ⟨hgrease, rfl⟩ | ⟨hgrease, hlisted, rfl⟩ |
    ⟨hgrease, name, schema, -, hmem, hlisted, hvariant⟩
  · exact iff_of_false (by decide) (by rw [hgrease]; simp)
  · exact iff_of_true rfl ⟨hgrease, hlisted⟩
  · refine iff_of_false ?_ (by rw [hlisted]; simp)
    rintro rfl
    exact hcontents _ hmem (schema.mem_labels_of_variant? hvariant)

/-- Two bytes of supported versions are a selected version, any other number of them is a list. -/
theorem label_of_versions
    (h : (layout (0x002b : Nat) (extensionTypes.name? 0x002b)).variant? length = some label) :
    label = if length = 2 then "SelectedVersion" else "VersionList" := by
  have hlabel : (if LengthTest.Passes length (.equals 2) then some "SelectedVersion"
      else some "VersionList") = some label := h
  have hpasses : LengthTest.Passes length (.equals 2) ↔ length = 2 := Int.ofNat_inj
  by_cases htwo : length = 2
  · rw [if_pos (hpasses.mpr htwo)] at hlabel
    rw [if_pos htwo, Option.some.inj hlabel]
  · rw [if_neg (mt hpasses.mp htwo)] at hlabel
    rw [if_neg htwo, Option.some.inj hlabel]

theorem label_eq_selectedVersion_iff
    (h : (layout number (extensionTypes.name? number)).variant? length = some label) :
    label = "SelectedVersion" ↔ number = 0x002b ∧ length = 2 := by
  have hcontents : ∀ c ∈ Content.contents, "SelectedVersion" ∈ c.2.labels →
      extensionTypes.number? c.1 = some 0x002b := by
    decide
  by_cases hversions : number = 0x002b
  · subst hversions
    rw [label_of_versions h]
    split
    · next htwo => exact iff_of_true rfl ⟨rfl, htwo⟩
    · next hother => exact iff_of_false (by decide) fun hboth => hother hboth.2
  · refine iff_of_false ?_ fun hboth => hversions hboth.1
    rintro rfl
    rcases variant?_cases h with ⟨-, hlabel⟩ | ⟨-, -, hlabel⟩ |
      ⟨-, name, schema, hname, hmem, -, hvariant⟩
    · exact absurd hlabel (by decide)
    · exact absurd hlabel (by decide)
    · have hnumber := hcontents _ hmem (schema.mem_labels_of_variant? hvariant)
      rw [hname] at hnumber
      exact hversions (Option.some.inj hnumber)

end

end Extension

namespace Envelope

open Extension

/-- The envelope is decoded to this content, whatever stands behind it. -/
def Gives (envelope : Envelope) (content : Value) : Prop :=
  ∀ rest, Extension.decode (envelope.bytes ++ rest) =
    .ok (⟨envelope.type, envelope.body.length, content⟩, rest)

theorem gives_iff (envelope : Envelope) (content : Value) :
    envelope.Gives content ↔ decodeContent envelope.type envelope.body = .ok content := by
  simp only [Gives, envelope.decode_append, Envelope.extension]
  cases decodeContent envelope.type envelope.body with
  | error fault => simp [Except.map]
  | ok found => simp [Except.map]

/-- The label of a content, as the number of the type and the length of the body decide it. -/
structure Selects (envelope : Envelope) (label : String) : Prop where
  grease_iff : label = "Grease" ↔ envelope.number &&& 0x0f0f = 0x0a0a
  unknown_iff : label = "Unknown" ↔
    envelope.number &&& 0x0f0f ≠ 0x0a0a ∧ Content.listed? envelope.number = none
  listed : envelope.number &&& 0x0f0f ≠ 0x0a0a → ∀ name schema,
    extensionTypes.name? envelope.number = some name → Content.contents.lookup name = some schema →
    schema.variant? envelope.body.length = some label ∧
      Content.labelTypes.lookup label = some name
  versions : envelope.number = 0x002b →
    label = if envelope.body.length = 2 then "SelectedVersion" else "VersionList"

theorem selects_of_variant? {envelope : Envelope} {label : String}
    (h : (layout envelope.number (extensionTypes.name? envelope.number)).variant?
      envelope.body.length = some label) : envelope.Selects label where
  grease_iff := by rw [label_eq_grease_iff h, isGrease_iff envelope.number_lt]
  unknown_iff := by rw [label_eq_unknown_iff h, isGrease_eq_false_iff envelope.number_lt]
  listed := by
    intro hmask name schema hname hschema
    have hgrease := (isGrease_eq_false_iff envelope.number_lt).mpr hmask
    have hlisted : Content.listed? envelope.number = some schema := by
      rw [Content.listed?, hname, Option.bind_some, hschema]
    constructor
    · rwa [layout_eq_getD hgrease, hlisted] at h
    · rcases label_layout (Schema.mem_labels_of_variant? _ h) with
        ⟨hunknown, -⟩ | ⟨-, found, htable, hfound⟩
      · have hnone := ((label_eq_unknown_iff h).mp hunknown).2
        rw [hlisted] at hnone
        cases hnone
      · rw [projected, hgrease, if_neg Bool.false_ne_true] at hfound
        have hsame := (number?_eq_some_iff_name? extensionTypes_wellFormed).mp hfound
        rw [htable, ← hname, hsame]
  versions := by
    intro hnumber
    rw [hnumber] at h
    exact label_of_versions h

/-- What decides about the content of an envelope. A GREASE number comes before whatever name its
type has. Bodies of GREASE, of an unknown layout and those that are kept as bytes are always
taken. -/
structure Dispatched (envelope : Envelope) : Prop where
  grease_iff : envelope.Gives (Content.ofGrease envelope.number envelope.body) ↔
    envelope.number &&& 0x0f0f = 0x0a0a
  grease_first : envelope.number &&& 0x0f0f = 0x0a0a → ∀ name?,
    decodeContent ⟨envelope.number, name?⟩ envelope.body =
      .ok (Content.ofGrease envelope.number envelope.body)
  unknown_iff : envelope.Gives (Content.ofBytes "Unknown" "data" envelope.body) ↔
    envelope.number &&& 0x0f0f ≠ 0x0a0a ∧ Content.listed? envelope.number = none
  bytes : ∀ name label field, (name, label, field) ∈ Content.bytesTypes →
    extensionTypes.number? name = some envelope.number →
    envelope.Gives (Content.ofBytes label field envelope.body)
  variant : ∀ content, envelope.Gives content →
    ∃ label, content.entry "_name" = .ok (.text label) ∧ envelope.Selects label

theorem exists_selects_of_gives {envelope : Envelope} {content : Value}
    (h : envelope.Gives content) :
    ∃ label, content.entry "_name" = .ok (.text label) ∧ envelope.Selects label := by
  obtain ⟨label, hvariant, hlabelled⟩ :=
    labelled_of_decodeContent ((envelope.gives_iff content).mp h)
  exact ⟨label, hlabelled.label_eq, selects_of_variant? hvariant⟩

/-- The number of the type and the length of the body decide how the body is read. -/
theorem dispatched (envelope : Envelope) : envelope.Dispatched where
  grease_iff := by
    constructor
    · intro hgives
      obtain ⟨label, hlabel, hselects⟩ := exists_selects_of_gives hgives
      cases hlabel
      exact hselects.grease_iff.mp rfl
    · intro hmask
      exact (envelope.gives_iff _).mpr
        (decodeContent_of_isGrease rfl ((isGrease_iff envelope.number_lt).mpr hmask) _)
  grease_first := by
    intro hmask name?
    exact decodeContent_of_isGrease rfl ((isGrease_iff envelope.number_lt).mpr hmask) _
  unknown_iff := by
    constructor
    · intro hgives
      obtain ⟨label, hlabel, hselects⟩ := exists_selects_of_gives hgives
      cases hlabel
      exact hselects.unknown_iff.mp rfl
    · intro hunlisted
      obtain ⟨hmask, hnone⟩ := hunlisted
      have hgrease := (isGrease_eq_false_iff envelope.number_lt).mpr hmask
      refine (envelope.gives_iff _).mpr (decodeContent_of_rest ?_ _)
      rw [layout_eq_getD hgrease, hnone]
      rfl
  bytes := by
    intro name label field hmem hnumber
    have hordinary : ∀ t ∈ Content.bytesTypes,
        (extensionTypes.number? t.1).all (fun n : Nat => !isGrease n) = true := by
      decide
    have hgrease := hordinary _ hmem
    rw [hnumber, Option.all_some, Bool.not_eq_true'] at hgrease
    have hname := (number?_eq_some_iff_name? extensionTypes_wellFormed).mp hnumber
    refine (envelope.gives_iff _).mpr (decodeContent_of_rest ?_ _)
    rw [layout_eq_getD hgrease, Content.listed?, hname, Option.bind_some,
      Content.lookup_bytesTypes _ hmem]
    rfl
  variant := fun content h => exists_selects_of_gives h

end Envelope

end HelloExtensions
