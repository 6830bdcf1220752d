import HelloExtensions.Proofs.ItemForm
import HelloExtensions.Proofs.Variants

/-!
Supported versions. Only the length of the body tells the one version that a server selects, which
is two bytes, from the versions that a client offers. Those stand behind a byte that should count
them, so their bodies have an odd length and are never taken for a selected version, whatever the
byte says. No other type has a content that is taken for one.
-/
namespace HelloExtensions

open ExtensionType ItemForm Reading Registry

namespace Content

/-- The content of versions that are offered behind a byte. -/
def ofVersions (count : UInt8) (versions : List (Fin 65536)) : Value :=
  .record [("_name", .text "VersionList"), ("_versions_length", .int count.toNat),
    ("versions", .list (versions.map fun version : Fin 65536 =>
      .code (protocolVersions.codePoint version)))]

/-- The content of a version that is selected. -/
def ofSelected (version : Nat) : Value :=
  .record [("_name", .text "SelectedVersion"),
    ("versions", .list [.code (protocolVersions.codePoint version)])]

end Content

namespace Envelope

/-- A byte and the versions behind it, as a client offers them. -/
def offer (count : UInt8) (versions : List (Fin 65536)) : List UInt8 :=
  count :: versions.flatMap fun version : Fin 65536 => BigEndian.encode 2 version

theorem length_offer (count : UInt8) (versions : List (Fin 65536)) :
    (offer count versions).length = 1 + 2 * versions.length := by
  rw [offer, List.length_cons]
  induction versions with
  | nil => rfl
  | cons version versions ih =>
    rw [List.flatMap_cons, List.length_append, BigEndian.length_encode, List.length_cons]
    omega

/-- The envelope of versions that a client offers. -/
def ofVersions (count : UInt8) (versions : List (Fin 65536))
    (h : 1 + 2 * versions.length ≤ 65535) : Envelope where
  number := 0x002b
  body := offer count versions
  number_lt := by decide
  length_lt := by
    rw [length_offer]
    omega

end Envelope

namespace Extension

theorem tiles_offered (versions : List (Fin 65536)) :
    (word protocolVersions (by decide)).Tiles versions []
      (versions.flatMap fun version : Fin 65536 => BigEndian.encode 2 version) := by
  refine ⟨(List.append_nil _).symm, ?_⟩
  rw [not_starts_iff_cut]
  exact ⟨(0 : Fin 65536), [0, 0], by decide, rfl⟩

/-- Versions that are offered are read as they are, behind whatever byte: one byte and two for each
version are never two bytes. -/
theorem decodeContent_offer (count : UInt8) (versions : List (Fin 65536)) :
    decodeContent (extensionTypes.codePoint 0x002b) (Envelope.offer count versions) =
      .ok (Content.ofVersions count versions) := by
  let around := scope (extensionTypes.codePoint 0x002b) (Envelope.offer count versions).length
  have hanswers : Scope.Answers around (Envelope.offer count versions).length _ :=
    answers_scope _ _
  have hhere : Scope.length around 0 = .ok (.int (Envelope.offer count versions).length) :=
    hanswers.length_nested 0
  have hinside : Scope.length (Scope.inside [] around) 1 =
      .ok (.int (Envelope.offer count versions).length) :=
    hanswers.length_nested 1
  have hlength := Envelope.length_offer count versions
  have hodd : ¬ (LengthTest.equals 2).Passes (Envelope.offer count versions).length := by
    simp only [LengthTest.Passes]
    omega
  have hpositive : LengthTest.positive.Passes (Envelope.offer count versions).length := by
    simp only [LengthTest.Passes]
    omega
  have hversions := (word_readBy (Scope.inside [] around) protocolVersions
    (by decide)).decode_many_of_tiles (tiles_offered versions)
  refine (decodeContent_eq_ok_iff _ _ _).mpr ⟨[], ?_⟩
  show Content.supportedVersions.decode around _ = _
  rw [Content.supportedVersions, Schema.decode_ifElse_of_length hhere, if_neg hodd]
  refine (Content.decode_labelled_eq_ok_iff _ _ _ _ _ _).mpr ⟨_, ?_, rfl⟩
  rw [Fields.decode_check_of_length hinside, if_pos hpositive]
  refine (Fields.decode_field_eq_ok_iff _ _ _ _ _ _ _).mpr ⟨.int count.toNat, _, ?_,
    _, (Fields.decode_last_eq_ok_iff _ _ _ _ _ _).mpr ⟨_, hversions, rfl⟩, rfl⟩
  refine (Schema.decode_uint_eq_ok_iff _ _ _ _ _).mpr ⟨?_, ?_, rfl⟩
  · rw [hlength]
    omega
  · simp [leading, Envelope.offer, BigEndian.decode]

/-- A body of two bytes is read as one version. -/
theorem decodeContent_of_two {body : List UInt8} (h : body.length = 2) :
    decodeContent (extensionTypes.codePoint 0x002b) body =
      .ok (Content.ofSelected (BigEndian.decode body)) := by
  let around := scope (extensionTypes.codePoint 0x002b) body.length
  have hhere : Scope.length around 0 = .ok (.int body.length) :=
    (answers_scope _ _).length_nested 0
  have htwo : (LengthTest.equals 2).Passes body.length := Int.ofNat_inj.mpr h
  have hcode : (Schema.code protocolVersions).decode (Scope.inside [] around) body =
      .ok (.code (protocolVersions.codePoint (BigEndian.decode body)), []) := by
    obtain ⟨a, b, rfl⟩ := List.length_eq_two.mp h
    exact (Schema.decode_code_eq_ok_iff _ _ _ _ _).mpr ⟨Nat.le_refl 2, rfl, rfl⟩
  refine (decodeContent_eq_ok_iff _ _ _).mpr ⟨[], ?_⟩
  show Content.supportedVersions.decode around _ = _
  rw [Content.supportedVersions, Schema.decode_ifElse_of_length hhere, if_pos htwo]
  refine (Content.decode_labelled_eq_ok_iff _ _ _ _ _ _).mpr ⟨_, ?_, rfl⟩
  refine (Fields.decode_last_eq_ok_iff _ _ _ _ _ _).mpr ⟨_, ?_, rfl⟩
  rw [Schema.decode, hcode]
  rfl

theorem selectedVersion_of_ne {value content : Value} {label : String}
    (hcontent : contentOf value = .ok content)
    (hlabel : content.entry "_name" = .ok (.text label)) (hne : label ≠ "SelectedVersion") :
    selectedVersion value = .ok none := by
  have htext : ¬ (Value.text label).text? = some "SelectedVersion" :=
    fun h => hne (Option.some.inj h)
  simp only [selectedVersion, hcontent, hlabel, mapError_ok, bind, Except.bind]
  rw [if_neg htext]
  rfl

theorem selectedVersion_ofSelected {value : Value} {version : Nat}
    (hcontent : contentOf value = .ok (Content.ofSelected version)) :
    selectedVersion value = .ok (some (.code (protocolVersions.codePoint version))) := by
  simp only [selectedVersion, hcontent, mapError_ok, bind, Except.bind]
  rfl

/-- The selected version of a content, which is the same in its extension. -/
theorem selectedVersion_of_decodeContent {envelope : Envelope} {content : Value}
    (h : decodeContent envelope.type envelope.body = .ok content) {value : Value}
    (hcontent : contentOf value = .ok content) :
    selectedVersion value = .ok (if envelope.number = 0x002b ∧ envelope.body.length = 2
      then some (.code (protocolVersions.codePoint (BigEndian.decode envelope.body)))
      else none) := by
  by_cases hselected : envelope.number = 0x002b ∧ envelope.body.length = 2
  · obtain ⟨hnumber, htwo⟩ := hselected
    rw [Envelope.type, hnumber, decodeContent_of_two htwo] at h
    obtain rfl := Except.ok.inj h
    rw [if_pos ⟨hnumber, htwo⟩, selectedVersion_ofSelected hcontent]
  · obtain ⟨label, hvariant, hlabelled⟩ := labelled_of_decodeContent h
    have hne : label ≠ "SelectedVersion" :=
      fun heq => hselected ((label_eq_selectedVersion_iff hvariant).mp heq)
    rw [if_neg hselected, selectedVersion_of_ne hcontent hlabelled.label_eq hne]

/-- Versions that are offered are read as they are, behind whatever byte, and none of them is taken
for a selected one. Of all extensions those of supported versions with two bytes have a selected
version, and it is the number in these bytes. -/
theorem selectedVersion_of_decode :
    (∀ count versions (h : 1 + 2 * versions.length ≤ 65535) rest, ∃ ext : Extension,
      decode ((Envelope.ofVersions count versions h).bytes ++ rest) = .ok (ext, rest) ∧
      ext.content = Content.ofVersions count versions ∧
      selectedVersion ext.toValue = .ok none ∧ selectedVersion ext.content = .ok none) ∧
    ∀ data ext rest, decode data = .ok (ext, rest) → ∃ version?,
      selectedVersion ext.toValue = .ok version? ∧ selectedVersion ext.content = .ok version? ∧
      (version?.isSome ↔ wireNumber data = 0x002b ∧ ext.length = 2) ∧
      ∀ version ∈ version?,
        version = .code (protocolVersions.codePoint (BigEndian.decode (body data))) ∧
        version.number = .ok (BigEndian.decode (body data) : Int) := by
  constructor
  · intro count versions h rest
    have hcontent := decodeContent_offer count versions
    have hlabel : (Content.ofVersions count versions).entry "_name" =
        .ok (.text "VersionList") := rfl
    have hnone : ∀ value, contentOf value = .ok (Content.ofVersions count versions) →
        selectedVersion value = .ok none := by
      intro value hvalue
      exact selectedVersion_of_ne hvalue hlabel (by decide)
    refine ⟨_, ((Envelope.ofVersions count versions h).gives_iff _).mpr hcontent rest, rfl, ?_, ?_⟩
    · exact hnone _ rfl
    · exact hnone _ (contentOf_of_decodeContent hcontent)
  · intro data ext rest h
    obtain ⟨envelope, rfl, hcontent⟩ := exists_envelope_of_decode h
    rw [envelope.wireNumber_append, envelope.body_append, (type_and_length_of_decode h).2]
    refine ⟨_, selectedVersion_of_decodeContent hcontent rfl,
      selectedVersion_of_decodeContent hcontent (contentOf_of_decodeContent hcontent), ?_, ?_⟩
    · split
      · next hselected => exact iff_of_true rfl hselected
      · next hother => exact iff_of_false Bool.false_ne_true hother
    · intro version hversion
      split at hversion
      · obtain rfl := Option.some.inj hversion
        exact ⟨rfl, rfl⟩
      · cases hversion

/-- Two versions behind a byte that counts neither of them are a list, and two bytes alone are the
version that a server has selected. -/
theorem selectedVersion_of_decode_occurs :
    (∃ ext : Extension, decode [0, 43, 0, 5, 9, 3, 4, 3, 3] = .ok (ext, []) ∧
      ext.content = Content.ofVersions 9 [0x0304, 0x0303] ∧
      selectedVersion ext.toValue = .ok none) ∧
    ∃ (ext : Extension) (version : Value), decode [0, 43, 0, 2, 3, 4] = .ok (ext, []) ∧
      selectedVersion ext.content = .ok (some version) ∧ version.number = .ok 0x0304 := by
  obtain ⟨hoffered, hdecoded⟩ := selectedVersion_of_decode
  constructor
  · obtain ⟨ext, hext, hcontent, hnone, -⟩ := hoffered 9 [0x0304, 0x0303] (by decide) []
    exact ⟨ext, hext, hcontent, hnone⟩
  · obtain ⟨ext, hext⟩ : ∃ ext : Extension, decode [0, 43, 0, 2, 3, 4] = .ok (ext, []) :=
      ⟨_, rfl⟩
    obtain ⟨version?, -, hversion, hsome, hnumber⟩ := hdecoded _ _ _ hext
    have hlength : ext.length = 2 := by
      cases hext
      rfl
    obtain ⟨version, rfl⟩ := Option.isSome_iff_exists.mp (hsome.mpr ⟨rfl, hlength⟩)
    exact ⟨ext, version, hext, hversion, (hnumber version rfl).2⟩

end Extension
end HelloExtensions
