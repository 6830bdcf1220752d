import HelloExtensions.Proofs.ExpectedType

/-!
Writing where the type is given by its number, its code point or its name. Where a type is expected
these do alike; where one is written they do not. A code point is written by the layout that is
listed for its type. A number is written like one without a name, whatever its type, so its content
may be any bytes. A name is looked up as well, but then it is read as a numeral, which no name is.
-/
namespace HelloExtensions

open ExtensionType Reading Registry

/-- No name of a type is read as a numeral. -/
theorem Registry.malformed_of_mem_assignments :
    ∀ a ∈ extensionTypes.assignments, Text.Numeral.read a.1 = .error .malformed := by
  decide

namespace Extension

/-- A record to be written as an extension, with any value for the type. -/
def ofType (type : Value) (fields : Entries Value) : Value :=
  .record (("extension_type", type) :: fields)

/-- The length and the content of an extension with a body of unknown layout. -/
def ofBody (body : List UInt8) : Entries Value :=
  [("_length", .int body.length), ("extension_data", .record [("data", .bytes body)])]

/-- What the content can see of such a record while it is written. -/
def inside (type : Value) (fields : Entries Value) : Value :=
  Scope.inside (("extension_type", type) :: fields) (Scope.outermost none)

/-- What stands behind the type where the content is written by this layout. -/
def writtenBy (layout : Schema) (type : Value) (fields : Entries Value) :
    Except Fault (List UInt8) := do
  let size ← ((Value.record fields).entry "_length").mapError .shape
  let sizeBytes ← (Schema.uint16.encode (Scope.outermost none) size).mapError (.under "_length")
  let content ← ((Value.record fields).entry "extension_data").mapError .shape
  let length := BigEndian.decode sizeBytes
  let body ← (layout.encode (inside type fields) content).mapError (.under "extension_data")
  if body.length ≤ length then
    return sizeBytes ++ body ++ List.replicate (length - body.length) 0
  else .error (.mismatch ["extension_data"] (.overfull body.length length))

/-- The type decides by which layout the content is written, and a content may look at it. -/
theorem encode_ofType {type : Value} {code : Nat} (hdenotes : extensionTypes.Denotes type code)
    (hcode : code < 65536) (hnumber : type.number = .ok (code : Int)) (fields : Entries Value) :
    encode (ofType type fields) =
      (BigEndian.encode 2 code ++ ·) <$> writtenBy (layout code type.text?) type fields := by
  have hentries : (ofType type fields).entries true =
      .ok (("extension_type", type) :: fields) := rfl
  have htypeEntry : (Value.record (("extension_type", type) :: fields)).entry "extension_type" =
      .ok type := rfl
  have hsizeEntry : (Value.record (("extension_type", type) :: fields)).entry "_length" =
      (Value.record fields).entry "_length" := rfl
  have hcontentEntry : (Value.record (("extension_type", type) :: fields)).entry
      "extension_data" = (Value.record fields).entry "extension_data" := rfl
  have htypeBytes : Schema.encodeCode extensionTypes type = .ok (BigEndian.encode 2 code) :=
    Schema.encodeCode_of_denotes hdenotes hcode
  simp only [encode, writtenBy, hentries, mapError_ok, ok_bind, htypeEntry, htypeBytes, hnumber,
    hsizeEntry, hcontentEntry, map_bind, apply_ite, map_pure, List.append_assoc]
  rfl

theorem writtenBy_congr {layout : Schema} {type other : Value} {fields : Entries Value}
    (h : ∀ content, layout.encode (inside type fields) content =
      layout.encode (inside other fields) content) :
    writtenBy layout type fields = writtenBy layout other fields := by
  simp only [writtenBy, h]

theorem encode_unknown_inside (type other : Value) (fields : Entries Value) (content : Value) :
    Content.unknown.encode (inside type fields) content =
      Content.unknown.encode (inside other fields) content := by
  simp only [Content.unknown, Content.labelled, Fields.last, Schema.encode, Fields.encode]

/-- A GREASE content looks at the number of its type, unless a field of its own hides it. -/
theorem encode_grease_inside {type other : Value} (h : type.number = other.number)
    (fields : Entries Value) (content : Value) :
    Content.grease.encode (inside type fields) content =
      Content.grease.encode (inside other fields) content := by
  have hnumber : ∀ entries : Entries Value,
      Scope.typeNumber (Scope.inside entries (inside type fields)) =
        Scope.typeNumber (Scope.inside entries (inside other fields)) := by
    intro entries
    simp only [Scope.typeNumber, Scope.inside, Value.entry, List.lookup_append]
    cases entries.lookup Scope.aroundName with
    | some hidden => rfl
    | none =>
      have hfields : ∀ type : Value, (inside type fields).field? Scope.typeName = .ok (some type) :=
        fun _ => rfl
      simp only [Option.or, List.lookup_cons_self, hfields, bind, Except.bind, h]
  simp only [Content.grease, Content.labelled, Fields.last, Schema.encode, Fields.encode, hnumber]

/-- A number has no name, so its content is of unknown layout if it is not a GREASE one. -/
theorem layout_of_nameless (code : Nat) :
    layout code none = if isGrease code then Content.grease else Content.unknown := by
  rw [layout, Option.bind_none, Option.getD_none]

/-- A code point is written by the layout that extensions of its type are read by. -/
theorem encode_codePoint {code : Nat} (hcode : code < 65536) (fields : Entries Value) :
    encode (ofType (.code (extensionTypes.codePoint code)) fields) =
      (BigEndian.encode 2 code ++ ·) <$> writtenBy (layout code (extensionTypes.name? code))
        (.code (extensionTypes.codePoint code)) fields := by
  obtain ⟨hnumber, htext⟩ := number_of_isType (.inl rfl : IsType code _)
  have hdenotes := denotes_codePoint extensionTypes_wellFormed code
  rw [encode_ofType hdenotes hcode hnumber, htext]

/-- Where the layout does not depend on the name, the number is written like the code point. -/
theorem encode_number_eq_codePoint {code : Nat} (hcode : code < 65536)
    (h : isGrease code = true ∨ Content.listed? code = none) (fields : Entries Value) :
    encode (ofType (.int code) fields) =
      encode (ofType (.code (extensionTypes.codePoint code)) fields) := by
  rw [encode_ofType (.inl rfl) hcode rfl, encode_codePoint hcode]
  by_cases hgrease : isGrease code = true
  · rw [layout_of_isGrease hgrease, layout_of_isGrease hgrease]
    have hnumber : (Value.int code).number =
        (Value.code (extensionTypes.codePoint code)).number := rfl
    exact congrArg _ (writtenBy_congr (encode_grease_inside hnumber fields))
  · have hunlisted := h.resolve_left hgrease
    have hnameless : layout code (Value.int code).text? = Content.unknown :=
      (layout_of_nameless code).trans (if_neg hgrease)
    rw [layout_eq_getD (Bool.eq_false_iff.mpr hgrease), hunlisted, hnameless]
    exact congrArg _ (writtenBy_congr (encode_unknown_inside _ _ fields))

theorem exists_fault_of_number {type : Value} {e : ShapeError} (h : type.number = .error e)
    (fields : Entries Value) : ∃ fault, encode (ofType type fields) = .error fault := by
  cases hresult : encode (ofType type fields) with
  | error fault => exact ⟨fault, rfl⟩
  | ok bytes =>
    simp only [encode, bind_eq_ok_iff, mapError_eq_ok_iff] at hresult
    obtain ⟨entries, hentries, found, hfound, -, -, -, -, -, -, -, -, number, hnumber, -⟩ := hresult
    obtain rfl : (("extension_type", type) :: fields) = entries := Except.ok.inj hentries
    obtain rfl : type = found := Except.ok.inj hfound
    rw [h] at hnumber
    cases hnumber

/-- Bytes are written as they are where the layout is unknown or the type is a GREASE one. -/
theorem encode_ofBytes_nameless (code : Nat) (fields : Entries Value) (body : List UInt8) :
    (layout code none).encode (inside (.int code) fields) (.record [("data", .bytes body)]) =
      .ok body := by
  rw [layout_of_nameless]
  split
  · simp only [Content.grease, Content.labelled, Fields.last, Schema.encode, Fields.encode]
    exact congrArg Except.ok (List.append_nil body)
  · simp only [Content.unknown, Content.labelled, Fields.last, Schema.encode, Fields.encode]
    exact congrArg Except.ok (List.append_nil body)

theorem writtenBy_eq_ok {layout : Schema} {type size content : Value} {fields : Entries Value}
    {n : Nat} {body : List UInt8} (hn : n < 65536)
    (hsizeEntry : (Value.record fields).entry "_length" = .ok size)
    (hsize : size.integer? = some (n : Int))
    (hcontentEntry : (Value.record fields).entry "extension_data" = .ok content)
    (hbody : layout.encode (inside type fields) content = .ok body) (hle : body.length ≤ n) :
    writtenBy layout type fields =
      .ok (BigEndian.encode 2 n ++ body ++ List.replicate (n - body.length) 0) := by
  have hsizeBytes : Schema.uint16.encode (Scope.outermost none) size =
      .ok (BigEndian.encode 2 n) := by
    rw [Schema.uint16, Schema.encode, hsize]
    exact ItemForm.encodeUInt_of_lt hn
  have hdecode : BigEndian.decode (BigEndian.encode 2 n) = n := BigEndian.decode_encode hn
  simp only [writtenBy, hsizeEntry, hcontentEntry, hsizeBytes, hbody, hdecode, mapError_ok,
    ok_bind, if_pos hle]
  rfl

theorem encode_number_ofBody {code : Nat} (hcode : code < 65536) {body : List UInt8}
    (hbody : body.length < 65536) :
    encode (ofType (.int code) (ofBody body)) =
      .ok (BigEndian.encode 2 code ++ BigEndian.encode 2 body.length ++ body) := by
  have hwritten := writtenBy_eq_ok hbody rfl rfl rfl
    (encode_ofBytes_nameless code (ofBody body) body) (Nat.le_refl _)
  have hnameless : (Value.int code).text? = none := rfl
  rw [encode_ofType (.inl rfl) hcode rfl, hnameless, hwritten, Nat.sub_self, List.replicate_zero,
    List.append_nil, List.append_assoc]
  rfl

/-- From a content of unknown layout, no listed layout writes a byte that is not zero. -/
theorem encode_codePoint_ne_of_listed : ∀ listed ∈ Content.contents,
    ∀ code ∈ extensionTypes.number? listed.1, isGrease code = false →
      (encode (ofType (.code (extensionTypes.codePoint code)) (ofBody [1]))).toOption ≠
        some (BigEndian.encode 2 code ++ BigEndian.encode 2 1 ++ [1]) := by
  decide

/-- The number and the code point of a type are written alike exactly if it is a GREASE one or no
layout is listed for it. -/
theorem alike_iff {code : Nat} (hcode : code < 65536) :
    (∀ fields, (encode (ofType (.int code) fields)).toOption =
      (encode (ofType (.code (extensionTypes.codePoint code)) fields)).toOption) ↔
    isGrease code = true ∨ Content.listed? code = none := by
  constructor
  · intro halike
    by_contra hlisted
    rw [not_or, Bool.not_eq_true, ← ne_eq, Option.ne_none_iff_exists] at hlisted
    obtain ⟨hgrease, schema, hschema⟩ := hlisted
    obtain ⟨name, hname, hlookup⟩ := Option.bind_eq_some_iff.mp hschema.symm
    have hmem := Entries.mem_of_lookup_eq_some hlookup
    have hnumber := (number?_eq_some_iff_name? extensionTypes_wellFormed).mpr hname
    apply encode_codePoint_ne_of_listed _ hmem code hnumber hgrease
    rw [← halike, encode_number_ofBody hcode (by decide)]
    rfl
  · intro h fields
    rw [encode_number_eq_codePoint hcode h]

/-- A code point is written by the layout that extensions of its type are read by. The number of
the type is written like it if the type is a GREASE one or no layout is listed for it, and for the
others it is not: under a number any bytes are written, whatever the layout of its type. A type that
is given by its name is not written at all. -/
theorem encode_by_designation {code : Nat} (hcode : code < 65536) :
    (∀ fields, encode (ofType (.code (extensionTypes.codePoint code)) fields) =
      (BigEndian.encode 2 code ++ ·) <$> writtenBy (layout code (extensionTypes.name? code))
        (.code (extensionTypes.codePoint code)) fields) ∧
    ((∀ fields, (encode (ofType (.int code) fields)).toOption =
        (encode (ofType (.code (extensionTypes.codePoint code)) fields)).toOption) ↔
      isGrease code = true ∨ Content.listed? code = none) ∧
    (∀ body : List UInt8, body.length < 65536 →
      encode (ofType (.int code) (ofBody body)) =
        .ok (BigEndian.encode 2 code ++ BigEndian.encode 2 body.length ++ body)) ∧
    ∀ name, extensionTypes.number? name = some code →
      ∀ fields, ∃ fault, encode (ofType (.text name) fields) = .error fault := by
  refine ⟨encode_codePoint hcode, alike_iff hcode, fun body => encode_number_ofBody hcode, ?_⟩
  intro name hname fields
  have hmem := (number?_eq_some_iff extensionTypes_wellFormed).mp hname
  have hnumber : (Value.text name).number = .error (.noNumeral (.text name)) := by
    rw [Value.number, malformed_of_mem_assignments _ hmem]
    rfl
  exact exists_fault_of_number hnumber fields

theorem encode_by_designation_encryptThenMac :
    22 < 65536 ∧
    encode (ofType (.int 22) (ofBody [0])) = .ok [0, 22, 0, 1, 0] ∧
    encode (ofType (.code (extensionTypes.codePoint 22)) (ofBody [0])) =
      .error (.mismatch ["extension_data"] .lengthCheck) ∧
    (¬ ∀ fields, (encode (ofType (.int 22) fields)).toOption =
        (encode (ofType (.code (extensionTypes.codePoint 22)) fields)).toOption) ∧
    ∃ fault, encode (ofType (.text "encrypt_then_mac") (ofBody [])) = .error fault := by
  have hcode : 22 < 65536 := by decide
  obtain ⟨-, halike, hnumber, hname⟩ := encode_by_designation hcode
  have hlisted : ¬ (isGrease (22 : Nat) = true ∨ Content.listed? 22 = none) := by decide
  exact ⟨hcode, hnumber [0] (by decide), rfl, fun h => hlisted (halike.mp h),
    hname _ (by decide) _⟩

end Extension

end HelloExtensions
