import HelloExtensions.Proofs.Envelope
import HelloExtensions.Proofs.ItemForm

/-!
The contents that are lists. A list takes a region of the body, which its own length delimits
or which is all but the first byte. It is read into the items that tile the region: as many
whole items as there are at its front. Neither the part of an item that is left nor what stands
behind the region has any bearing on it.
-/
namespace HelloExtensions

open Reading Registry

/-- The types of extensions that carry lists. -/
inductive ListType where
  | serverNames
  | groups
  | signatureAlgorithms
  | protocolNames
  | keyExchangeModes
  | filters
  /-- The versions of a client, of which the length is not two. -/
  | versions
deriving DecidableEq, Repr

namespace ListType

open ItemForm

def number : ListType → Nat
  | serverNames => 0x0000
  | groups => 0x000a
  | signatureAlgorithms => 0x000d
  | protocolNames => 0x0010
  | keyExchangeModes => 0x002d
  | filters => 0x0030
  | versions => 0x002b

/-- The field of the content that holds the list. -/
def field : ListType → String
  | serverNames => "server_name_list"
  | groups => "named_group_list"
  | signatureAlgorithms => "supported_signature_algorithms"
  | protocolNames => "protocol_name_list"
  | keyExchangeModes => "ke_modes"
  | filters => "filters"
  | versions => "versions"

/-- How many bytes the length of the list takes, if it is used to delimit the list. -/
def lengthWidth? : ListType → Option Nat
  | keyExchangeModes => some 1
  | versions => none
  | _ => some 2

/-- The registry of items that are nothing but a number. -/
def registry? : ListType → Option Registry
  | groups => some namedGroups
  | signatureAlgorithms => some signatureSchemes
  | keyExchangeModes => some pskKeyExchangeModes
  | versions => some protocolVersions
  | _ => none

def item : ListType → Schema
  | serverNames => Content.serverName
  | groups => .code namedGroups
  | signatureAlgorithms => .code signatureSchemes
  | protocolNames => Content.protocolName
  | keyExchangeModes => .code pskKeyExchangeModes
  | filters => Content.oidFilter
  | versions => .code protocolVersions

def form : ListType → ItemForm
  | serverNames => pair "name_type" "name" (word nameTypes (by decide)) (sized 2 (by decide))
  | groups => word namedGroups (by decide)
  | signatureAlgorithms => word signatureSchemes (by decide)
  | protocolNames => sized 1 (by decide)
  | keyExchangeModes => word pskKeyExchangeModes (by decide)
  | filters => pair "certificate_extension_oid" "certificate_extension_values"
      (sized 1 (by decide)) (sized 2 (by decide))
  | versions => word protocolVersions (by decide)

/-- The bytes of a body that the list is read from. -/
def region (type : ListType) (body : List UInt8) : List UInt8 :=
  match type.lengthWidth? with
  | some width => delimited width body
  | none => body.drop 1

/-- The body is the region behind its length and before bytes that do not count, or else all
that is behind the first byte. -/
def Encloses (type : ListType) (body : List UInt8) : Prop :=
  match type.lengthWidth? with
  | some width => ∃ after, body =
      BigEndian.encode width (type.region body).length ++ type.region body ++ after
  | none => ∃ count, body = count :: type.region body

theorem readBy (type : ListType) (scope : Value) : type.form.ReadBy type.item scope := by
  cases type with
  | serverNames =>
    exact pair_readBy scope (word_readBy _ nameTypes (by decide)) (sized_readBy _ 2 (by decide))
  | groups => exact word_readBy scope namedGroups (by decide)
  | signatureAlgorithms => exact word_readBy scope signatureSchemes (by decide)
  | protocolNames => exact sized_readBy scope 1 (by decide)
  | keyExchangeModes => exact word_readBy scope pskKeyExchangeModes (by decide)
  | filters =>
    exact pair_readBy scope (sized_readBy _ 1 (by decide)) (sized_readBy _ 2 (by decide))
  | versions => exact word_readBy scope protocolVersions (by decide)

theorem writtenBy (type : ListType) : type.form.WrittenBy type.item := by
  cases type with
  | serverNames =>
    exact pair_writtenBy (word_writtenBy nameTypes_wellFormed (by decide))
      (sized_writtenBy 2 (by decide)) rfl rfl (by decide)
  | groups => exact word_writtenBy namedGroups_wellFormed (by decide)
  | signatureAlgorithms => exact word_writtenBy signatureSchemes_wellFormed (by decide)
  | protocolNames => exact sized_writtenBy 1 (by decide)
  | keyExchangeModes => exact word_writtenBy pskKeyExchangeModes_wellFormed (by decide)
  | filters =>
    exact pair_writtenBy (sized_writtenBy 1 (by decide)) (sized_writtenBy 2 (by decide)) rfl rfl
      (by decide)
  | versions => exact word_writtenBy protocolVersions_wellFormed (by decide)

/-- Items that are nothing but a number are the words of the region. -/
theorem map_value_of_tiles {type : ListType} {registry : Registry}
    (hregistry : type.registry? = some registry) {items : List type.form.Item}
    {leftover bytes : List UInt8} (h : type.form.Tiles items leftover bytes) :
    items.map type.form.value =
      (words registry.width bytes).map fun n => .code (registry.codePoint n) := by
  cases type with
  | serverNames | protocolNames | filters => cases hregistry
  | groups | signatureAlgorithms | keyExchangeModes | versions =>
    cases hregistry
    exact word_map_value_of_tiles (by decide) h

/-- A list is read from its region into the items, which are all that are whole there. The list
is written as their bytes, and what is behind them is not enough for another one. -/
structure Reads (type : ListType) (region : List UInt8) (items : List type.form.Item)
    (leftover : List UInt8) (list : Value) : Prop where
  tiles : type.form.Tiles items leftover region
  cut : type.form.Cut leftover
  unique : ∀ others other, type.form.Tiles others other region →
    others = items ∧ other = leftover
  list_eq : list = .list (items.map type.form.value)
  encode_eq : ∀ scope, (Schema.many type.item).encode scope list =
    .ok (items.flatMap type.form.bytes)
  words_eq : ∀ registry, type.registry? = some registry →
    list = .list ((words registry.width region).map fun n => .code (registry.codePoint n))

theorem reads (type : ListType) {items : List type.form.Item} {leftover region : List UInt8}
    (h : type.form.Tiles items leftover region) :
    type.Reads region items leftover (.list (items.map type.form.value)) where
  tiles := h
  cut := (not_starts_iff_cut leftover).mp h.2
  unique others other hother := tiles_unique hother h
  list_eq := rfl
  encode_eq scope := by
    rw [Schema.encode]
    exact type.writtenBy.encodeAll_map scope items
  words_eq registry hregistry := by rw [map_value_of_tiles hregistry h]

end ListType

section

open Content

variable {scope value : Value} {body rest : List UInt8}

/-- A record of a list alone is read if the length of the list is right. -/
theorem entry_of_decode_list {name field : String} (hfield : field ≠ "_name") {width : Nat}
    {item : Schema} {form : ItemForm} (hread : form.ReadBy item (Scope.inside [] scope))
    (h : (labelled name (.last field (.region width (.many item)))).decode scope body =
      .ok (value, rest)) :
    Delimits width body ∧ ∀ items leftover, form.Tiles items leftover (delimited width body) →
      value.entry field = .ok (.list (items.map form.value)) := by
  obtain ⟨entries, hlast, rfl⟩ := (decode_labelled_eq_ok_iff _ _ _ _ _ _).mp h
  obtain ⟨list, hregion, rfl⟩ := (Fields.decode_last_eq_ok_iff _ _ _ _ _ _).mp hlast
  obtain ⟨hdelimits, -, left, hmany⟩ := (Schema.decode_region_eq_ok_iff _ _ _ _ _ _).mp hregion
  refine ⟨hdelimits, fun items leftover htiles => ?_⟩
  rw [hread.decode_many_of_tiles htiles] at hmany
  cases hmany
  simp [Value.entry, List.lookup_cons, beq_eq_false_iff_ne.mpr hfield]

/-- Versions whose length is not two are read behind their first byte. -/
theorem entry_of_decode_versions {n : Nat} {form : ItemForm}
    (hlength : Scope.length scope 0 = .ok (.int n))
    (hinner : Scope.length (Scope.inside [] scope) 1 = .ok (.int n)) (hne : n ≠ 2)
    (hread : form.ReadBy (.code protocolVersions) (Scope.inside [] scope))
    (h : supportedVersions.decode scope body = .ok (value, rest)) :
    1 ≤ body.length ∧ ∀ items leftover, form.Tiles items leftover (body.drop 1) →
      value.entry "versions" = .ok (.list (items.map form.value)) := by
  have htest : ¬ (LengthTest.equals 2).Passes n := by
    simp only [LengthTest.Passes]
    omega
  rw [supportedVersions, Schema.decode_ifElse_of_length hlength, if_neg htest] at h
  obtain ⟨entries, hcheck, rfl⟩ := (decode_labelled_eq_ok_iff _ _ _ _ _ _).mp h
  rw [Fields.decode_check_of_length hinner] at hcheck
  split at hcheck
  · obtain ⟨count, left, hcount, more, hlast, rfl⟩ :=
      (Fields.decode_field_eq_ok_iff _ _ _ _ _ _ _).mp hcheck
    obtain ⟨list, hmany, rfl⟩ := (Fields.decode_last_eq_ok_iff _ _ _ _ _ _).mp hlast
    obtain ⟨hle, -, rfl⟩ := (Schema.decode_uint_eq_ok_iff _ _ _ _ _).mp hcount
    refine ⟨hle, fun items leftover htiles => ?_⟩
    rw [protocolVersionList, hread.decode_many_of_tiles htiles] at hmany
    cases hmany
    rfl
  · cases hcheck

end

namespace Extension

open Content ItemForm

/-- A type whose lists have a length is laid out as a record of the list alone. -/
theorem exists_layout_of_lengthWidth? {type : ListType} {width : Nat}
    (h : type.lengthWidth? = some width) :
    ∃ name, layout type.number (extensionTypes.name? type.number) =
      labelled name (.last type.field (.region width (.many type.item))) := by
  cases type with
  | versions => cases h
  | _ =>
    cases h
    exact ⟨_, rfl⟩

/-- A content that carries a list encloses the region of the list and is read from its items. -/
theorem entry_of_decodeContent {type : ListType} {body : List UInt8} {content : Value}
    (h : decodeContent (extensionTypes.codePoint type.number) body = .ok content)
    (hlength : type = .versions → body.length ≠ 2) :
    type.Encloses body ∧ ∀ items leftover, type.form.Tiles items leftover (type.region body) →
      content.entry type.field = .ok (.list (items.map type.form.value)) := by
  have hanswers := answers_scope (extensionTypes.codePoint type.number) body.length
  have hread := type.readBy (Scope.inside [] (scope (extensionTypes.codePoint type.number)
    body.length))
  obtain ⟨rest, hdecode⟩ := (decodeContent_eq_ok_iff _ _ _).mp h
  cases hwidth : type.lengthWidth? with
  | some width =>
    obtain ⟨name, hlayout⟩ := exists_layout_of_lengthWidth? hwidth
    have hfield : type.field ≠ "_name" := by cases type <;> decide
    have hlist := hlayout ▸ hdecode
    obtain ⟨hdelimits, hitems⟩ := entry_of_decode_list hfield hread hlist
    simp only [ListType.Encloses, ListType.region, hwidth]
    exact ⟨⟨_, split_of_delimits hdelimits⟩, hitems⟩
  | none =>
    obtain rfl : type = .versions := by
      cases type with
      | versions => rfl
      | _ => cases hwidth
    obtain ⟨hpos, hitems⟩ := entry_of_decode_versions (hanswers.length_nested 0)
      (hanswers.length_nested 1) (hlength rfl) hread hdecode
    cases body with
    | nil => exact absurd hpos (by decide)
    | cons count body => exact ⟨⟨count, rfl⟩, hitems⟩

theorem entry_of_decode {type : ListType} {data rest : List UInt8} {ext : Extension}
    (h : decode data = .ok (ext, rest)) (htype : wireNumber data = type.number)
    (hlength : type = .versions → declaredLength data ≠ 2) :
    type.Encloses (body data) ∧
      ∀ items leftover, type.form.Tiles items leftover (type.region (body data)) →
        ext.content.entry type.field = .ok (.list (items.map type.form.value)) := by
  obtain ⟨envelope, rfl, hcontent⟩ := exists_envelope_of_decode h
  rw [envelope.wireNumber_append] at htype
  rw [envelope.declaredLength_append] at hlength
  rw [Envelope.type, htype] at hcontent
  rw [envelope.body_append]
  exact entry_of_decodeContent hcontent hlength

/-- The list of an extension is read from the whole items at the front of its region. Where the
region of another extension has the same items at its front, the list is the same. -/
theorem decode_list_maximal (type : ListType) {data rest : List UInt8} {ext : Extension}
    (h : decode data = .ok (ext, rest)) (htype : wireNumber data = type.number)
    (hlength : type = .versions → declaredLength data ≠ 2) :
    type.Encloses (body data) ∧
    ∃ items leftover list, ext.content.entry type.field = .ok list ∧
      type.Reads (type.region (body data)) items leftover list ∧
      ∀ other found behind left, decode other = .ok (found, behind) →
        wireNumber other = type.number → (type = .versions → declaredLength other ≠ 2) →
        type.form.Tiles items left (type.region (body other)) →
        found.content.entry type.field = .ok list := by
  obtain ⟨hencloses, hentry⟩ := entry_of_decode h htype hlength
  obtain ⟨items, leftover, htiles⟩ :
      ∃ items leftover, type.form.Tiles items leftover (type.region (body data)) :=
    exists_tiles _
  refine ⟨hencloses, items, leftover, _, hentry items leftover htiles, type.reads htiles, ?_⟩
  intro other found behind left hother hnumber hlen hleft
  exact (entry_of_decode hother hnumber hlen).2 items left hleft

/-- Of a list of signature schemes whose length is odd the last byte is left, and the byte
behind the list is no part of it. -/
theorem decode_list_maximal_odd :
    ∃ list, (∃ ext, decode [0, 13, 0, 6, 0, 3, 4, 3, 8, 9] = .ok (ext, []) ∧
      ext.content.entry "supported_signature_algorithms" = .ok list) ∧
      ListType.signatureAlgorithms.Reads [4, 3, 8] [⟨0x0403, by decide⟩] [8] list := by
  obtain ⟨ext, hdecode⟩ : ∃ ext, decode [0, 13, 0, 6, 0, 3, 4, 3, 8, 9] = .ok (ext, []) :=
    ⟨_, rfl⟩
  obtain ⟨-, items, leftover, list, hentry, hreads, -⟩ :=
    decode_list_maximal .signatureAlgorithms hdecode rfl (by decide)
  have hcut : ListType.signatureAlgorithms.form.Cut [8] :=
    ⟨⟨0x0804, by decide⟩, [4], by decide, rfl⟩
  have htiles : ListType.signatureAlgorithms.form.Tiles [⟨0x0403, by decide⟩] [8] [4, 3, 8] :=
    ⟨rfl, (not_starts_iff_cut [8]).mpr hcut⟩
  obtain ⟨rfl, rfl⟩ := hreads.unique _ _ htiles
  exact ⟨list, ⟨ext, hdecode, hentry⟩, hreads⟩

end Extension

end HelloExtensions
