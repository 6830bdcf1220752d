import HelloExtensions.Proofs.Spelling.Layout

/-!
Reading back what was written. A value is measured by a schema: if each part of it has the shape
and the range that the schema asks for, the measure is the number of bytes it takes. A value that
has a measure is spelled by as many bytes. Hence an extension that declares the measure of its
content is written, and from what is written the same extension is read, with names for the
numbers that have one and with the fields that are computed.
-/
namespace HelloExtensions

open Reading Registry

/-- The width of a number, if it is in range. -/
def measureNumber (width : Nat) (number : Int) : Option Nat :=
  if 0 ≤ number ∧ number < BigEndian.capacity width then some width else none

/-- The number that a value stands for, by itself or by its name. -/
def Registry.meant? (registry : Registry) (given : Value) : Option Int :=
  given.integer?.or ((given.text?.bind registry.number?).map Int.ofNat)

def measureAll (measure : Value → Option Nat) : List Value → Option Nat
  | [] => some 0
  | v :: vs => do
    let first ← measure v
    let others ← measureAll measure vs
    return first + others

mutual

/-- How many bytes the value takes in an extension of this length, if it is well formed. -/
def Schema.measure (length : Nat) : Schema → Value → Option Nat
  | .uint width, given => given.integer?.bind (measureNumber width)
  | .code registry, given => (registry.meant? given).bind (measureNumber registry.width)
  | .rest, given =>
    match given with
    | .bytes b => some b.length
    | _ => none
  | .bytes _ less, given =>
    match given with
    | .bytes b => if b.length + less = length then some b.length else none
    | _ => none
  | .region width content, given => do
    let size ← content.measure length given
    if size < BigEndian.capacity width then some (width + size) else none
  | .many item, given =>
    match given with
    | .list items => measureAll (item.measure length) items
    | _ => none
  | .single item, given =>
    match given with
    | .list [only] => item.measure length only
    | _ => none
  | .optional content, given =>
    match given with
    | .null => some 0
    | _ => content.measure length given
  | .onlyIf _ test content, given =>
    if test.Passes length then content.measure length given
    else match given with
      | .null => some 0
      | _ => none
  | .ifElse _ test yes no, given =>
    if test.Passes length then yes.measure length given else no.measure length given
  | .record fields, given =>
    match given with
    | .record entries =>
      if ∀ entry ∈ entries, entry.1 ∈ fields.names then fields.measure length entries else none
    | _ => none

/-- How many bytes the fields of the record `given` take. -/
def Fields.measure (length : Nat) : Fields → (given : List (String × Value)) → Option Nat
  | .done, _ => some 0
  | .label _ _ more, given => more.measure length given
  | .typeNumber _ more, given => more.measure length given
  | .check test more, given => if test.Passes length then more.measure length given else none
  | .field name schema more, given => do
    let found ← given.lookup name
    let first ← schema.measure length found
    let others ← more.measure length given
    return first + others

end

theorem measureNumber_eq_some_iff {width : Nat} {number : Int} {size : Nat} :
    measureNumber width number = some size ↔
      size = width ∧ ∃ n : Nat, number = n ∧ n < BigEndian.capacity width := by
  unfold measureNumber
  constructor
  · intro h
    split at h
    · next hrange =>
      cases h
      exact ⟨rfl, number.toNat, by omega, by omega⟩
    · cases h
  · intro h
    obtain ⟨rfl, n, rfl, hn⟩ := h
    exact if_pos ⟨by omega, by omega⟩

theorem Registry.denotes_of_meant? {registry : Registry} {given : Value} {n : Nat}
    (h : registry.meant? given = some (n : Int)) : registry.Denotes given n := by
  rcases Option.or_eq_some_iff.mp h with hinteger | ⟨-, hname⟩
  · exact .inl hinteger
  · obtain ⟨m, hm, hmn⟩ := Option.map_eq_some_iff.mp hname
    obtain ⟨name, htext, hnumber⟩ := Option.bind_eq_some_iff.mp hm
    obtain rfl : m = n := Int.ofNat.inj hmn
    exact .inr ⟨name, htext, hnumber⟩

section

variable {length : Nat} {number : Int}

theorem exists_spellsAll_of_measureAll {item : Schema}
    (hitem : ∀ given size, item.measure length given = some size →
      ∃ read b, item.Spells length number given read b ∧ b.length = size)
    (givens : List Value) {size : Nat} (h : measureAll (item.measure length) givens = some size) :
    ∃ reads b, item.SpellsAll length number givens reads b ∧ b.length = size := by
  induction givens generalizing size with
  | nil =>
    cases h
    exact ⟨[], [], .nil item, rfl⟩
  | cons given others ih =>
    simp only [measureAll, Option.bind_eq_bind, Option.bind_eq_some_iff] at h
    obtain ⟨first, hfirst, more, hmore, hsize⟩ := h
    cases hsize
    obtain ⟨read, b, hspells, rfl⟩ := hitem given first hfirst
    obtain ⟨reads, c, hothers, rfl⟩ := ih hmore
    exact ⟨read :: reads, b ++ c, .cons hspells hothers, List.length_append⟩

mutual

/-- A value that has a measure is spelled by as many bytes. -/
theorem Schema.exists_spells_of_measure (schema : Schema) {given : Value} {size : Nat}
    (h : schema.measure length given = some size) :
    ∃ read b, schema.Spells length number given read b ∧ b.length = size := by
  cases schema with
  | uint width =>
    obtain ⟨m, hgiven, hm⟩ := Option.bind_eq_some_iff.mp h
    obtain ⟨rfl, n, rfl, hn⟩ := measureNumber_eq_some_iff.mp hm
    exact ⟨_, _, .uint hgiven hn, BigEndian.length_encode _ _⟩
  | code registry =>
    obtain ⟨m, hgiven, hm⟩ := Option.bind_eq_some_iff.mp h
    obtain ⟨rfl, n, rfl, hn⟩ := measureNumber_eq_some_iff.mp hm
    exact ⟨_, _, .code (Registry.denotes_of_meant? hgiven) hn, BigEndian.length_encode _ _⟩
  | rest =>
    cases given <;> cases h
    exact ⟨_, _, .rest _, rfl⟩
  | bytes up less =>
    cases given with
    | bytes b =>
      rw [Schema.measure] at h
      split at h
      · next hlength =>
        cases h
        exact ⟨_, _, .bytes hlength, rfl⟩
      · cases h
    | _ => cases h
  | region width content =>
    simp only [Schema.measure, Option.bind_eq_bind, Option.bind_eq_some_iff] at h
    obtain ⟨inner, hinner, h⟩ := h
    split at h
    · next hfits =>
      cases h
      obtain ⟨read, b, hspells, rfl⟩ := Schema.exists_spells_of_measure content hinner
      exact ⟨read, _, .region hspells hfits, by rw [List.length_append, BigEndian.length_encode]⟩
    · cases h
  | many item =>
    cases given with
    | list items =>
      obtain ⟨reads, b, hspells, hsize⟩ := exists_spellsAll_of_measureAll
        (fun given size hgiven => Schema.exists_spells_of_measure item hgiven) items h
      exact ⟨.list reads, b, .many hspells, hsize⟩
    | _ => cases h
  | single item =>
    rw [Schema.measure.eq_def] at h
    dsimp only at h
    split at h
    · next only =>
      obtain ⟨read, b, hspells, hsize⟩ := Schema.exists_spells_of_measure item h
      exact ⟨.list [read], b, .single hspells, hsize⟩
    · cases h
  | optional content =>
    rw [Schema.measure.eq_def] at h
    dsimp only at h
    split at h
    · cases h
      exact ⟨.null, [], .absent content, rfl⟩
    · obtain ⟨read, b, hspells, hsize⟩ := Schema.exists_spells_of_measure content h
      exact ⟨read, b, .present hspells, hsize⟩
  | onlyIf up test content =>
    rw [Schema.measure.eq_def] at h
    dsimp only at h
    split at h
    · next htest =>
      obtain ⟨read, b, hspells, hsize⟩ := Schema.exists_spells_of_measure content h
      exact ⟨read, b, .passed htest hspells, hsize⟩
    · next htest =>
      cases given <;> cases h
      exact ⟨.null, [], .failed htest, rfl⟩
  | ifElse up test yes no =>
    rw [Schema.measure] at h
    split at h
    · next htest =>
      obtain ⟨read, b, hspells, hsize⟩ := Schema.exists_spells_of_measure yes h
      exact ⟨read, b, .yes htest hspells, hsize⟩
    · next htest =>
      obtain ⟨read, b, hspells, hsize⟩ := Schema.exists_spells_of_measure no h
      exact ⟨read, b, .no htest hspells, hsize⟩
  | record fields =>
    cases given with
    | record entries =>
      rw [Schema.measure] at h
      split at h
      · next hnames =>
        obtain ⟨read, b, hspells, hsize⟩ := Fields.exists_spells_of_measure fields h
        exact ⟨.record read, b, .record hnames hspells, hsize⟩
      · cases h
    | _ => cases h

theorem Fields.exists_spells_of_measure (fields : Fields) {given : List (String × Value)}
    {size : Nat} (h : fields.measure length given = some size) :
    ∃ read b, fields.Spells length number given read b ∧ b.length = size := by
  cases fields with
  | done =>
    cases h
    exact ⟨[], [], .done given, rfl⟩
  | label name text more =>
    obtain ⟨read, b, hspells, hsize⟩ := Fields.exists_spells_of_measure more h
    exact ⟨_, b, .label hspells, hsize⟩
  | typeNumber name more =>
    obtain ⟨read, b, hspells, hsize⟩ := Fields.exists_spells_of_measure more h
    exact ⟨_, b, .typeNumber hspells, hsize⟩
  | check test more =>
    rw [Fields.measure] at h
    split at h
    · next htest =>
      obtain ⟨read, b, hspells, hsize⟩ := Fields.exists_spells_of_measure more h
      exact ⟨read, b, .check htest hspells, hsize⟩
    · cases h
  | field name schema more =>
    simp only [Fields.measure, Option.bind_eq_bind, Option.bind_eq_some_iff] at h
    obtain ⟨found, hfound, first, hfirst, others, hothers, hsize⟩ := h
    cases hsize
    obtain ⟨value, b, hfield, rfl⟩ := Schema.exists_spells_of_measure schema hfirst
    obtain ⟨read, c, hmore, rfl⟩ := Fields.exists_spells_of_measure more hothers
    exact ⟨_, b ++ c, .field hfound hfield hmore, List.length_append⟩

end

end

/-- The names of fields that are not taken from a value. -/
def computedNames : List String := ["_name", "grease_value"]

mutual

/-- What is read is what was given. A code may have been given by its number or by its name, and
computed fields need not have been given. -/
inductive Value.Same : (given read : Value) → Prop
  | null : Value.Same .null .null
  | bytes (b : List UInt8) : Value.Same (.bytes b) (.bytes b)
  | int {given : Value} {n : Int} (h : given.integer? = some n) : Value.Same given (.int n)
  | number {given : Value} {c : CodePoint} (h : given.integer? = some c.number) :
      Value.Same given (.code c)
  | name {given : Value} {c : CodePoint} {name : String} (hgiven : given.text? = some name)
      (hname : c.name? = some name) : Value.Same given (.code c)
  | list {givens reads : List Value} (h : Value.SameAll givens reads) :
      Value.Same (.list givens) (.list reads)
  | record {givens reads : List (String × Value)}
      (hnames : ∀ entry ∈ givens, entry.1 ∈ Entries.keys reads)
      (hfields : Value.SameFields givens reads) : Value.Same (.record givens) (.record reads)

inductive Value.SameAll : (givens reads : List Value) → Prop
  | nil : Value.SameAll [] []
  | cons {given read : Value} {givens reads : List Value} (h : Value.Same given read)
      (hall : Value.SameAll givens reads) : Value.SameAll (given :: givens) (read :: reads)

/-- Each field that is read is computed or among those of the record `givens`. -/
inductive Value.SameFields : (givens reads : List (String × Value)) → Prop
  | nil (givens : List (String × Value)) : Value.SameFields givens []
  | computed {givens reads : List (String × Value)} {name : String} (value : Value)
      (h : name ∈ computedNames) (hmore : Value.SameFields givens reads) :
      Value.SameFields givens ((name, value) :: reads)
  | field {givens reads : List (String × Value)} {name : String} {given read : Value}
      (hgiven : givens.lookup name = some given) (h : Value.Same given read)
      (hmore : Value.SameFields givens reads) : Value.SameFields givens ((name, read) :: reads)

end

mutual

/-- Fields that are not taken from a value have names of computed ones. -/
def Schema.computes : Schema → Bool
  | .uint _ => true
  | .code _ => true
  | .rest => true
  | .bytes _ _ => true
  | .region _ content => content.computes
  | .many item => item.computes
  | .single item => item.computes
  | .optional content => content.computes
  | .onlyIf _ _ content => content.computes
  | .ifElse _ _ yes no => yes.computes && no.computes
  | .record fields => fields.computes

def Fields.computes : Fields → Bool
  | .done => true
  | .label name _ more => computedNames.contains name && more.computes
  | .typeNumber name more => computedNames.contains name && more.computes
  | .check _ more => more.computes
  | .field _ schema more => schema.computes && more.computes

end

theorem Value.same_of_denotes {registry : Registry} (h : registry.WellFormed) {given : Value}
    {n : Nat} (hgiven : registry.Denotes given n) :
    Value.Same given (.code (registry.codePoint n)) := by
  rcases hgiven with hinteger | ⟨name, htext, hnumber⟩
  · exact .number hinteger
  · exact .name htext ((Registry.number?_eq_some_iff_name? h).mp hnumber)

theorem Fields.keys_of_spells (fields : Fields) {length : Nat} {number : Int}
    {given read : List (String × Value)} {b : List UInt8}
    (h : fields.Spells length number given read b) : Entries.keys read = fields.names := by
  cases fields with
  | done =>
    cases h
    rfl
  | label name text more =>
    cases h with
    | label hmore => exact congrArg (name :: ·) (Fields.keys_of_spells more hmore)
  | typeNumber name more =>
    cases h with
    | typeNumber hmore => exact congrArg (name :: ·) (Fields.keys_of_spells more hmore)
  | check test more =>
    cases h with
    | check _ hmore => exact Fields.keys_of_spells more hmore
  | field name schema more =>
    cases h with
    | field _ _ hmore => exact congrArg (name :: ·) (Fields.keys_of_spells more hmore)

section

variable {length : Nat} {number : Int}

theorem Value.sameAll_of_spellsAll {item : Schema}
    (hitem : ∀ given read b, item.Spells length number given read b → Value.Same given read)
    (givens : List Value) {reads : List Value} {b : List UInt8}
    (h : item.SpellsAll length number givens reads b) : Value.SameAll givens reads := by
  induction givens generalizing reads b with
  | nil =>
    cases h
    exact .nil
  | cons given others ih =>
    cases h with
    | cons hfirst hothers => exact .cons (hitem _ _ _ hfirst) (ih hothers)

mutual

/-- What is spelled is read as it was given. -/
theorem Schema.same_of_spells (schema : Schema) (hnumbered : schema.WellNumbered)
    (hcomputes : schema.computes = true) {given read : Value} {b : List UInt8}
    (h : schema.Spells length number given read b) : Value.Same given read := by
  cases schema with
  | uint width =>
    cases h with
    | uint hgiven => exact .int hgiven
  | code registry =>
    cases h with
    | code hgiven => exact Value.same_of_denotes hnumbered hgiven
  | rest =>
    cases h
    exact .bytes b
  | bytes up less =>
    cases h
    exact .bytes b
  | region width content =>
    cases h with
    | region hcontent => exact Schema.same_of_spells content hnumbered hcomputes hcontent
  | many item =>
    cases h with
    | many hitems =>
      exact .list (Value.sameAll_of_spellsAll
        (fun given read b hitem => Schema.same_of_spells item hnumbered hcomputes hitem) _ hitems)
  | single item =>
    cases h with
    | single hitem =>
      exact .list (.cons (Schema.same_of_spells item hnumbered hcomputes hitem) .nil)
  | optional content =>
    cases h with
    | present hcontent => exact Schema.same_of_spells content hnumbered hcomputes hcontent
    | absent => exact .null
  | onlyIf up test content =>
    cases h with
    | passed _ hcontent => exact Schema.same_of_spells content hnumbered hcomputes hcontent
    | failed => exact .null
  | ifElse up test yes no =>
    simp only [Schema.computes, Bool.and_eq_true] at hcomputes
    cases h with
    | yes _ hyes => exact Schema.same_of_spells yes hnumbered.1 hcomputes.1 hyes
    | no _ hno => exact Schema.same_of_spells no hnumbered.2 hcomputes.2 hno
  | record fields =>
    cases h with
    | record hnames hfields =>
      refine .record ?_ (Fields.same_of_spells fields hnumbered hcomputes hfields)
      rwa [Fields.keys_of_spells fields hfields]

theorem Fields.same_of_spells (fields : Fields) (hnumbered : fields.WellNumbered)
    (hcomputes : fields.computes = true) {given read : List (String × Value)} {b : List UInt8}
    (h : fields.Spells length number given read b) : Value.SameFields given read := by
  cases fields with
  | done =>
    cases h
    exact .nil given
  | label name text more =>
    simp only [Fields.computes, Bool.and_eq_true, List.contains_iff_mem] at hcomputes
    cases h with
    | label hmore =>
      exact .computed _ hcomputes.1 (Fields.same_of_spells more hnumbered hcomputes.2 hmore)
  | typeNumber name more =>
    simp only [Fields.computes, Bool.and_eq_true, List.contains_iff_mem] at hcomputes
    cases h with
    | typeNumber hmore =>
      exact .computed _ hcomputes.1 (Fields.same_of_spells more hnumbered hcomputes.2 hmore)
  | check test more =>
    cases h with
    | check _ hmore => exact Fields.same_of_spells more hnumbered hcomputes hmore
  | field name schema more =>
    simp only [Fields.computes, Bool.and_eq_true] at hcomputes
    cases h with
    | field hfound hfield hmore =>
      exact .field hfound (Schema.same_of_spells schema hnumbered.1 hcomputes.1 hfield)
        (Fields.same_of_spells more hnumbered.2 hcomputes.2 hmore)

end

end

namespace Extension

theorem computes_layout (number : Int) (name? : Option String) :
    (layout number name?).computes = true :=
  forall_layout (P := fun schema => schema.computes = true) (by decide) (by decide) (by decide)
    number name?

/-- The extension that is read has the fields of the record that was written. -/
theorem Heads.same {entries : List (String × Value)} {number size : Nat} {given content : Value}
    (h : Heads entries number size given) (hsame : Value.Same given content) :
    Value.Same (.record entries)
      (Extension.toValue ⟨extensionTypes.codePoint number, size, content⟩) := by
  obtain ⟨type, htype, his⟩ := h.exists_type
  obtain ⟨found, hfound, hinteger⟩ := h.exists_size
  have hcode := Value.same_of_denotes extensionTypes_wellFormed (denotes_of_isType his)
  exact .record h.names_mem (.computed _ (by decide) (.field htype hcode
    (.field hfound (.int hinteger) (.field h.content_eq hsame (.nil entries)))))

theorem exists_spells_of_measure (number : Nat) {given : Value} {size : Nat}
    (h : (layout number (extensionTypes.name? number)).measure size given = some size) :
    ∃ content b, (layout number (extensionTypes.name? number)).Spells size number given content b ∧
      b.length = size :=
  Schema.exists_spells_of_measure _ h

/-- An extension whose length is the measure of its content is written, and from what is written
the same extension is read, whatever stands behind it. -/
theorem decode_of_encode {entries : List (String × Value)} {number size : Nat} {given : Value}
    (h : Heads entries number size given)
    (hmeasure : (layout number (extensionTypes.name? number)).measure size given = some size)
    (rest : List UInt8) :
    ∃ bytes ext, encode (.record entries) = .ok bytes ∧ bytes.length = headerSize + size ∧
      decode (bytes ++ rest) = .ok (ext, rest) ∧ Value.Same (.record entries) ext.toValue := by
  obtain ⟨content, b, hspells, hsize⟩ := exists_spells_of_measure number hmeasure
  subst hsize
  have hread := decodeContent_spelled h.size_lt hspells
  have hencode := h.encode_of_spells hspells (Nat.le_refl _)
  rw [Nat.sub_self, List.replicate_zero, List.append_nil] at hencode
  let written : Envelope := ⟨number, b, h.number_lt, h.size_lt⟩
  refine ⟨written.bytes, ⟨extensionTypes.codePoint number, b.length, content⟩, hencode,
    written.length_bytes, ?_, ?_⟩
  · rw [written.decode_append, Envelope.extension, Envelope.type, hread]
    rfl
  · exact h.same (Schema.same_of_spells _ (wellNumbered_layout _ _) (computes_layout _ _) hspells)

/-- A group that is given by its number is read with its name, like one given by its name. -/
theorem decode_of_encode_groups :
    ∃ bytes ext, encode (.record [("extension_type", .code (extensionTypes.codePoint 0x000a)),
        ("_length", .int 6), ("extension_data",
          .record [("named_group_list", .list [.int 0x001d, .text "x448"])])]) = .ok bytes ∧
      decode (bytes ++ [7]) = .ok (ext, [7]) ∧
      ext.content.entry "named_group_list" =
        .ok (.list [.code ⟨0x001d, some "x25519"⟩, .code ⟨0x001e, some "x448"⟩]) := by
  have hheads : Heads [("extension_type", .code (extensionTypes.codePoint 0x000a)),
      ("_length", .int 6), ("extension_data",
        .record [("named_group_list", .list [.int 0x001d, .text "x448"])])] 0x000a 6
      (.record [("named_group_list", .list [.int 0x001d, .text "x448"])]) :=
    ⟨by simp [fieldNames], ⟨_, rfl, .inl rfl⟩, ⟨_, rfl, rfl⟩, rfl, by decide, by decide⟩
  obtain ⟨bytes, ext, hencode, -, hdecode, -⟩ := decode_of_encode hheads (by decide) [7]
  have hbytes : bytes = [0, 10, 0, 6, 0, 4, 0, 29, 0, 30] := Except.ok.inj (hencode.symm.trans rfl)
  have hread := hdecode
  rw [hbytes] at hread
  cases hread
  exact ⟨bytes, _, hencode, hdecode, rfl⟩

end Extension
end HelloExtensions
