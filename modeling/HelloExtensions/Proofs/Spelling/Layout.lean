import HelloExtensions.Proofs.Spelling.Reading
import HelloExtensions.Proofs.Spelling.Writing

/-!
Spellings of whole extensions. Every layout of a content is orderly, so a content that is spelled
is written, and it is read back from its spelling. An extension whose content is spelled by fewer
bytes than it declares is written with zeros behind them.
-/
namespace HelloExtensions

open Reading Registry

namespace Extension

theorem forall_layout {P : Schema → Prop} (hgrease : P Content.grease)
    (hunknown : P Content.unknown) (hcontents : ∀ c ∈ Content.contents, P c.2) (number : Int)
    (name? : Option String) : P (layout number name?) := by
  unfold layout
  split
  · exact hgrease
  · cases hlookup : name?.bind fun name => Content.contents.lookup name with
    | none => exact hunknown
    | some schema =>
      obtain ⟨name, -, hname⟩ := Option.bind_eq_some_iff.mp hlookup
      exact hcontents (name, schema) (Entries.mem_of_lookup_eq_some hname)

theorem orderly_layout (number : Int) (name? : Option String) :
    (layout number name?).orderly = true :=
  forall_layout (P := fun schema => schema.orderly = true) (by decide) (by decide) (by decide)
    number name?

theorem tolerates_nothing_layout (number : Int) (name? : Option String) :
    Tolerates (layout number name?).slack 0 :=
  tolerates_nothing (forall_layout (P := fun schema => schema.slack.all (0 < ·) = true) (by decide)
    (by decide) (by decide) number name?)

/-- Fields of bytes or of a number have no registry, and a list has that of its items. -/
theorem wellNumbered_contents : ∀ c ∈ Content.contents, c.2.WellNumbered := by
  simp only [Content.contents, List.forall_mem_cons, List.not_mem_nil, false_implies,
    implies_true, and_true]
  exact ⟨⟨⟨nameTypes_wellFormed, trivial, trivial⟩, trivial⟩,
    ⟨fragmentLengths_wellFormed, trivial⟩,
    ⟨⟨certificateStatusTypes_wellFormed, trivial, trivial⟩, trivial⟩,
    ⟨namedGroups_wellFormed, trivial⟩, ⟨trivial, trivial⟩, ⟨signatureSchemes_wellFormed, trivial⟩,
    ⟨heartbeatModes_wellFormed, trivial⟩, ⟨trivial, trivial⟩, ⟨trivial, trivial⟩,
    ⟨trivial, trivial⟩, trivial, trivial, ⟨trivial, trivial⟩, ⟨trivial, trivial⟩,
    ⟨trivial, trivial⟩, ⟨trivial, trivial⟩, ⟨trivial, trivial⟩,
    ⟨⟨protocolVersions_wellFormed, trivial⟩, trivial, protocolVersions_wellFormed, trivial⟩,
    ⟨trivial, trivial⟩, ⟨pskKeyExchangeModes_wellFormed, trivial⟩,
    ⟨⟨trivial, trivial, trivial⟩, trivial⟩, trivial, ⟨trivial, trivial⟩, trivial,
    ⟨trivial, trivial⟩,
    ⟨cipherSuites_wellFormed, namedGroups_wellFormed, trivial, trivial, trivial, trivial⟩,
    ⟨trivial, trivial⟩⟩

theorem wellNumbered_layout (number : Int) (name? : Option String) :
    (layout number name?).WellNumbered :=
  forall_layout (P := Schema.WellNumbered) ⟨trivial, trivial⟩ ⟨trivial, trivial⟩
    wellNumbered_contents number name?

/-- What a body of an extension spells is what is read from it, whatever bytes stand behind the
spelling as long as they are few enough. -/
theorem decodeContent_of_spells {number : Nat} {given content : Value} {b extra : List UInt8}
    {n : Nat} (hn : (b ++ extra).length = n) (hcap : n < 65536)
    (hspells : (layout number (extensionTypes.name? number)).Spells n number given content b)
    (hextra : Tolerates (layout number (extensionTypes.name? number)).slack extra.length) :
    decodeContent (extensionTypes.codePoint number) (b ++ extra) = .ok content := by
  subst hn
  refine (decodeContent_eq_ok_iff _ _ _).mpr ⟨extra, ?_⟩
  exact Schema.decode_append_of_spells (answers_scope _ _) hcap _ 0 (refersOut_layout _ _)
    (orderly_layout _ _) hspells extra hextra

theorem decodeContent_spelled {number : Nat} {given content : Value} {b : List UInt8}
    (hcap : b.length < 65536)
    (hspells :
      (layout number (extensionTypes.name? number)).Spells b.length number given content b) :
    decodeContent (extensionTypes.codePoint number) b = .ok content := by
  have hlength : (b ++ []).length = b.length := by rw [List.append_nil]
  have h := decodeContent_of_spells hlength hcap hspells (tolerates_nothing_layout _ _)
  rwa [List.append_nil] at h

/-- The names of the fields of an extension. -/
def fieldNames : List String := ["_name", "extension_type", "_length", "extension_data"]

/-- The value stands for a type where types are read: as a name if the type has one, and else as
a number. -/
def IsType (number : Nat) (type : Value) : Prop :=
  type = .code (extensionTypes.codePoint number) ∨
    extensionTypes.name? number = none ∧ type = .int number

theorem denotes_of_isType {number : Nat} {type : Value} (h : IsType number type) :
    extensionTypes.Denotes type number := by
  rcases h with rfl | ⟨-, rfl⟩
  · exact Registry.denotes_codePoint extensionTypes_wellFormed number
  · exact .inl rfl

/-- The layout is chosen by the number and the name of the type. -/
theorem number_of_isType {number : Nat} {type : Value} (h : IsType number type) :
    type.number = .ok (number : Int) ∧ type.text? = extensionTypes.name? number := by
  rcases h with rfl | ⟨hname, rfl⟩
  · refine ⟨rfl, ?_⟩
    unfold Registry.codePoint
    cases extensionTypes.name? number <;> rfl
  · exact ⟨rfl, hname.symm⟩

/-- The record has the fields of an extension of this number, length and content. -/
structure Heads (entries : List (String × Value)) (number size : Nat) (content : Value) : Prop where
  names_mem : ∀ entry ∈ entries, entry.1 ∈ fieldNames
  exists_type : ∃ type, entries.lookup "extension_type" = some type ∧ IsType number type
  exists_size : ∃ found, entries.lookup "_length" = some found ∧
    found.integer? = some (size : Int)
  content_eq : entries.lookup "extension_data" = some content
  number_lt : number < 65536
  size_lt : size < 65536

namespace Heads

variable {entries : List (String × Value)} {number size : Nat} {content : Value}

theorem lookup_reserved (h : Heads entries number size content) :
    ∀ name ∈ Scope.reserved, entries.lookup name = none := by
  intro name hname
  apply Entries.lookup_eq_none_of_not_mem
  intro hmem
  obtain ⟨entry, hentry, rfl⟩ := List.mem_map.mp hmem
  have hfields : ∀ name ∈ fieldNames, name ∉ Scope.reserved := by decide
  exact hfields entry.1 (h.names_mem entry hentry) hname

theorem declares (h : Heads entries number size content) (around : Value) :
    Scope.Declares (Scope.inside entries around) size number where
  length_eq := by
    obtain ⟨found, hfound, hinteger⟩ := h.exists_size
    refine ⟨found, ?_, hinteger⟩
    simp [Scope.inside, Scope.lengthName, Value.entry, List.lookup_append, hfound]
  number_eq := by
    obtain ⟨type, htype, his⟩ := h.exists_type
    have hfield : (Scope.inside entries around).field? Scope.typeName = .ok (some type) := by
      simp [Scope.inside, Scope.typeName, Value.field?, List.lookup_append, htype]
    have haround : (Scope.inside [] (Scope.inside entries around)).entry Scope.aroundName =
        .ok (Scope.inside entries around) := rfl
    rw [Scope.typeNumber, haround]
    simp only [bind, Except.bind, hfield, (number_of_isType his).1, mapError_ok]
  plain := Scope.hasTakenName_inside h.lookup_reserved around

/-- A content that is spelled is written with the head of its extension before it and, if it has
fewer bytes than declared, with zeros behind it. -/
theorem encode_of_spells {given read : Value} {b : List UInt8}
    (h : Heads entries number size given)
    (hspells : (layout number (extensionTypes.name? number)).Spells size number given read b)
    (hle : b.length ≤ size) :
    encode (.record entries) = .ok (BigEndian.encode 2 number ++ BigEndian.encode 2 size ++ b ++
      List.replicate (size - b.length) 0) := by
  obtain ⟨type, htype, his⟩ := h.exists_type
  obtain ⟨found, hfound, hinteger⟩ := h.exists_size
  obtain ⟨hnumber, htext⟩ := number_of_isType his
  have hentries : (Value.record entries).entries true = .ok entries := rfl
  have htypeEntry : (Value.record entries).entry "extension_type" = .ok type := by
    simp only [Value.entry, htype]
  have hsizeEntry : (Value.record entries).entry "_length" = .ok found := by
    simp only [Value.entry, hfound]
  have hcontentEntry : (Value.record entries).entry "extension_data" = .ok given := by
    simp only [Value.entry, h.content_eq]
  have htypeBytes : Schema.encodeCode extensionTypes type = .ok (BigEndian.encode 2 number) :=
    Schema.encodeCode_of_denotes (denotes_of_isType his) h.number_lt
  have hsizeBytes : Schema.uint16.encode (Scope.outermost none) found =
      .ok (BigEndian.encode 2 size) := by
    rw [Schema.uint16, Schema.encode, hinteger]
    exact ItemForm.encodeUInt_of_lt h.size_lt
  have hbody : (layout number type.text?).encode (Scope.inside entries (Scope.outermost none))
      given = .ok b := by
    rw [htext]
    exact Schema.encode_of_spells (h.declares _) _ .here (refersOut_layout _ _)
      (orderly_layout _ _) hspells
  have hdecode : BigEndian.decode (BigEndian.encode 2 size) = size :=
    BigEndian.decode_encode h.size_lt
  simp only [encode, hentries, htypeEntry, hsizeEntry, hcontentEntry, htypeBytes, hsizeBytes,
    hnumber, hbody, hdecode, mapError_ok, bind, Except.bind, if_pos hle]
  rfl

end Heads

end Extension
end HelloExtensions
