import HelloExtensions.Handshake
import HelloExtensions.Proofs.ItemForm

/-!
The forms of what handshake messages list: shares of keys, identities of keys and binders for
them. They are made of the forms that the items of extensions have, read into values of their own.
The layouts that they stand in refer to nothing around them, so whatever is wrong with the bytes is
a mismatch with its place, although there is no extension around.
-/
namespace HelloExtensions

open Reading Registry

/-- The value with a label in front of its fields. -/
def Value.labelledAs (label : String) : Value → Value
  | .record fields => .record (("_name", .text label) :: fields)
  | value => value

/-- The number of a code point. -/
def Value.withoutName : Value → Value
  | .code c => .int c.number
  | value => value

namespace ItemForm

variable {form : ItemForm} {schema : Schema} {scope : Value}

/-- The same items, with what is read of each turned into another value. -/
def mapValue (f : Value → Value) (form : ItemForm) : ItemForm :=
  { form with value := fun item => f (form.value item) }

theorem ReadBy.mapValue (h : form.ReadBy schema scope) {f : Value → Value} {other : Schema}
    {around : Value} (hdecode : ∀ bytes value rest, other.decode around bytes = .ok (value, rest) ↔
      ∃ read, schema.decode scope bytes = .ok (read, rest) ∧ value = f read) :
    (form.mapValue f).ReadBy other around where
  decode_append item rest := (hdecode _ _ _).mpr ⟨_, h.decode_append item rest, rfl⟩
  starts bytes value rest hread := by
    obtain ⟨read, hread, -⟩ := (hdecode _ _ _).mp hread
    exact h.starts bytes read rest hread

/-- A number that has no registry is read as one of a registry without names. -/
def number (width : Nat) (hwidth : 0 < width) : ItemForm :=
  (word ⟨width, []⟩ hwidth).mapValue Value.withoutName

theorem number_readBy (scope : Value) (width : Nat) (hwidth : 0 < width) :
    (number width hwidth).ReadBy (.uint width) scope := by
  refine (word_readBy scope ⟨width, []⟩ hwidth).mapValue fun bytes value rest => ?_
  rw [Schema.decode_uint_eq_ok_iff]
  simp only [Schema.decode_code_eq_ok_iff]
  constructor
  · intro hread
    obtain ⟨hle, rfl, rfl⟩ := hread
    exact ⟨_, ⟨hle, rfl, rfl⟩, rfl⟩
  · intro hread
    obtain ⟨_, ⟨hle, rfl, rfl⟩, rfl⟩ := hread
    exact ⟨hle, rfl, rfl⟩

/-- A record of one field. -/
def single (field : String) (form : ItemForm) : ItemForm :=
  form.mapValue fun value => .record [(field, value)]

theorem single_readBy (h : form.ReadBy schema (Scope.inside [] scope)) (field : String) :
    (form.single field).ReadBy (.record (.last field schema)) scope := by
  refine h.mapValue fun bytes value rest => ?_
  rw [Schema.decode_record_eq_ok_iff]
  simp only [Fields.decode_last_eq_ok_iff]
  constructor
  · intro hread
    obtain ⟨_, ⟨read, hread, rfl⟩, rfl⟩ := hread
    exact ⟨read, hread, rfl⟩
  · intro hread
    obtain ⟨read, hread, rfl⟩ := hread
    exact ⟨_, ⟨read, hread, rfl⟩, rfl⟩

theorem labelled_readBy {fields : Fields} (h : form.ReadBy (.record fields) scope)
    (label : String) :
    (form.mapValue (Value.labelledAs label)).ReadBy (Content.labelled label fields) scope := by
  refine h.mapValue fun bytes value rest => ?_
  rw [Content.decode_labelled_eq_ok_iff]
  simp only [Schema.decode_record_eq_ok_iff]
  constructor
  · intro hread
    obtain ⟨entries, hfields, rfl⟩ := hread
    exact ⟨_, ⟨entries, hfields, rfl⟩, rfl⟩
  · intro hread
    obtain ⟨_, ⟨entries, hfields, rfl⟩, rfl⟩ := hread
    exact ⟨entries, hfields, rfl⟩

theorem sized_starts_iff {width : Nat} (hwidth : 0 < width) (bytes : List UInt8) :
    (sized width hwidth).Starts bytes ↔ Delimits width bytes := by
  constructor
  · intro hstarts
    obtain ⟨content, rest, rfl⟩ := hstarts
    simp only [sized, List.append_assoc]
    exact delimits_encode_append content.property rest
  · intro hdelimits
    obtain ⟨content, hbytes⟩ := exists_sized hdelimits
    exact ⟨content, _, hbytes⟩

/-- Behind a number that is there, another item starts. -/
theorem word_pair_starts_iff {registry : Registry} (hwidth : 0 < registry.width)
    (first second : String) (form : ItemForm) (bytes : List UInt8) :
    (pair first second (word registry hwidth) form).Starts bytes ↔
      registry.width ≤ bytes.length ∧ form.Starts (bytes.drop registry.width) := by
  constructor
  · intro hstarts
    obtain ⟨⟨n, item⟩, rest, rfl⟩ := hstarts
    simp only [pair, word, List.append_assoc]
    rw [List.drop_left' (BigEndian.length_encode _ _), List.length_append,
      BigEndian.length_encode]
    exact ⟨Nat.le_add_right _ _, item, rest, rfl⟩
  · intro hstarts
    obtain ⟨hle, item, rest, hrest⟩ := hstarts
    obtain ⟨n, behind, hbytes⟩ := exists_word hle
    rw [hbytes, List.drop_left' (BigEndian.length_encode _ _)] at hrest
    rw [hbytes, hrest]
    exact ⟨(n, item), rest, (List.append_assoc _ _ _).symm⟩

/-- The list of all items that are whole at the front of a region. -/
def Lists (form : ItemForm) (region : List UInt8) (list : Value) : Prop :=
  ∃ items leftover, form.Tiles items leftover region ∧ list = .list (items.map form.value)

theorem exists_lists (form : ItemForm) (region : List UInt8) : ∃ list, form.Lists region list := by
  obtain ⟨items, leftover, htiles⟩ := form.exists_tiles region
  exact ⟨_, items, leftover, htiles, rfl⟩

theorem ReadBy.decode_list16_iff (h : form.ReadBy schema scope) (bytes rest : List UInt8)
    (value : Value) : (Schema.list16 schema).decode scope bytes = .ok (value, rest) ↔
      Delimits 2 bytes ∧ rest = behind 2 bytes ∧ form.Lists (delimited 2 bytes) value := by
  rw [Schema.list16, Schema.decode_region_eq_ok_iff]
  constructor
  · intro hread
    obtain ⟨hdelimits, hrest, left, hmany⟩ := hread
    obtain ⟨items, leftover, htiles⟩ := form.exists_tiles (delimited 2 bytes)
    rw [h.decode_many_of_tiles htiles] at hmany
    cases hmany
    exact ⟨hdelimits, hrest, items, left, htiles, rfl⟩
  · intro hread
    obtain ⟨hdelimits, hrest, items, leftover, htiles, rfl⟩ := hread
    exact ⟨hdelimits, hrest, leftover, h.decode_many_of_tiles htiles⟩

end ItemForm

namespace Handshake

open ItemForm

/-- A share of a key: a group and the bytes to be exchanged in it. -/
def shareForm : ItemForm :=
  (pair "group" "key_exchange" (word namedGroups Nat.two_pos) (sized 2 Nat.two_pos)).mapValue
    (Value.labelledAs "KeyShareEntry")

def identityForm : ItemForm :=
  pair "identity" "obfuscated_ticket_age" (sized 2 Nat.two_pos) (number 4 (by decide))

def binderForm : ItemForm := single "binder" (sized 1 Nat.one_pos)

theorem shareForm_readBy (scope : Value) : shareForm.ReadBy keyShareEntry scope :=
  labelled_readBy (pair_readBy scope (word_readBy _ namedGroups Nat.two_pos)
    (sized_readBy _ 2 Nat.two_pos)) "KeyShareEntry"

/-- A share is a group and behind it a region with its length. -/
theorem shareForm_starts_iff (bytes : List UInt8) :
    shareForm.Starts bytes ↔ 2 ≤ bytes.length ∧ Delimits 2 (bytes.drop 2) := by
  rw [← sized_starts_iff Nat.two_pos]
  exact word_pair_starts_iff Nat.two_pos "group" "key_exchange" _ bytes

theorem identityForm_readBy (scope : Value) : identityForm.ReadBy pskIdentity scope :=
  pair_readBy scope (sized_readBy _ 2 Nat.two_pos) (number_readBy _ 4 (by decide))

theorem binderForm_readBy (scope : Value) : binderForm.ReadBy pskBinderEntry scope :=
  single_readBy (sized_readBy _ 1 Nat.one_pos) "binder"

end Handshake

mutual

def Schema.isClosed : Schema → Bool
  | .uint _ => true
  | .code _ => true
  | .rest => true
  | .region _ content => content.isClosed
  | .many item => item.isClosed
  | .single item => item.isClosed
  | .optional content => content.isClosed
  | .record fields => fields.isClosed
  | _ => false

def Fields.isClosed : Fields → Bool
  | .done => true
  | .label _ _ more => more.isClosed
  | .field _ schema more => schema.isClosed && more.isClosed
  | _ => false

end

mutual

theorem Schema.wellShaped_of_isClosed (schema : Schema) (h : schema.isClosed = true)
    (scope : Value) (bytes : List UInt8) : WellShaped (schema.decode scope bytes) := by
  cases schema with
  | uint width =>
    rw [Schema.decode]
    exact (WellShaped.takeBytes _ _).bind fun _ _ => .ok _
  | code registry =>
    rw [Schema.decode]
    exact (WellShaped.takeBytes _ _).bind fun _ _ => .ok _
  | rest =>
    rw [Schema.decode]
    exact .ok _
  | region width content =>
    rw [Schema.isClosed] at h
    rw [Schema.decode]
    refine (WellShaped.takeBytes _ _).bind fun front _ => ?_
    refine (WellShaped.takeBytes _ _).bind fun inner _ => ?_
    exact (Schema.wellShaped_of_isClosed content h scope _).bind fun _ _ => .ok _
  | many item =>
    rw [Schema.decode]
    exact .ok _
  | single item =>
    rw [Schema.isClosed] at h
    rw [Schema.decode]
    exact (Schema.wellShaped_of_isClosed item h scope bytes).bind fun _ _ => .ok _
  | optional content =>
    rw [Schema.decode]
    split
    · exact .ok _
    · exact .ok _
  | record fields =>
    rw [Schema.isClosed] at h
    rw [Schema.decode]
    exact (Fields.wellShaped_of_isClosed fields h _ bytes).bind fun _ _ => .ok _
  | bytes | onlyIf | ifElse => cases h

theorem Fields.wellShaped_of_isClosed (fields : Fields) (h : fields.isClosed = true)
    (scope : Value) (bytes : List UInt8) : WellShaped (fields.decode scope bytes) := by
  cases fields with
  | done =>
    rw [Fields.decode]
    exact .ok _
  | label name text more =>
    rw [Fields.isClosed] at h
    rw [Fields.decode]
    exact (Fields.wellShaped_of_isClosed more h scope bytes).bind fun _ _ => .ok _
  | field name schema more =>
    rw [Fields.isClosed, Bool.and_eq_true] at h
    rw [Fields.decode]
    refine ((Schema.wellShaped_of_isClosed schema h.1 scope bytes).under name).bind ?_
    intro result _
    exact (Fields.wellShaped_of_isClosed more h.2 scope result.2).bind fun _ _ => .ok _
  | typeNumber | check => cases h

end

end HelloExtensions
