import HelloExtensions.Content
import HelloExtensions.Schema.Decode

/-!
Reading by a schema, as conditions on the bytes. A number is read wherever its bytes are there,
and all that is left and as many items as follow are always read. A region is read if its
length is there and no more than follows; its content is then read from exactly the bytes that
the length delimits. A record is read field by field, each from what the one before it left.
-/
namespace HelloExtensions

namespace Reading

theorem bind_eq_ok_iff {ε α β : Type} (result : Except ε α) (next : α → Except ε β) (b : β) :
    (result >>= next) = .ok b ↔ ∃ a, result = .ok a ∧ next a = .ok b := by
  cases result with
  | error e => simp [bind, Except.bind]
  | ok a => simp [bind, Except.bind]

theorem ok_bind {ε α β : Type} (a : α) (next : α → Except ε β) :
    (Except.ok a >>= next) = next a := rfl

theorem mapError_ok {ε ε' α : Type} (f : ε → ε') (a : α) :
    (Except.ok a : Except ε α).mapError f = .ok a := rfl

theorem mapError_eq_ok_iff {ε ε' α : Type} (f : ε → ε') (result : Except ε α) (a : α) :
    result.mapError f = .ok a ↔ result = .ok a := by
  cases result with
  | error e =>
    constructor
    · intro h
      cases h
    · intro h
      cases h
  | ok found => rw [mapError_ok, Except.ok.injEq, Except.ok.injEq]

/-- The number in the first `width` bytes. -/
def leading (width : Nat) (bytes : List UInt8) : Nat := BigEndian.decode (bytes.take width)

/-- A length of `width` bytes is there and tells of no more bytes than follow it. -/
def Delimits (width : Nat) (bytes : List UInt8) : Prop :=
  width ≤ bytes.length ∧ leading width bytes ≤ bytes.length - width

instance (width : Nat) (bytes : List UInt8) : Decidable (Delimits width bytes) :=
  inferInstanceAs (Decidable (_ ∧ _))

/-- The bytes that a length of `width` bytes delimits. -/
def delimited (width : Nat) (bytes : List UInt8) : List UInt8 :=
  (bytes.drop width).take (leading width bytes)

def behind (width : Nat) (bytes : List UInt8) : List UInt8 :=
  (bytes.drop width).drop (leading width bytes)

theorem length_delimited {width : Nat} {bytes : List UInt8} (h : Delimits width bytes) :
    (delimited width bytes).length = leading width bytes := by
  have hle := h.2
  simp only [delimited, List.length_take, List.length_drop]
  omega

theorem encode_leading {width : Nat} {bytes : List UInt8} (h : width ≤ bytes.length) :
    BigEndian.encode width (leading width bytes) = bytes.take width := by
  have hlength : (bytes.take width).length = width := by
    simp only [List.length_take]
    omega
  have hencode := BigEndian.encode_decode (bytes.take width)
  rwa [hlength] at hencode

/-- The length, what it delimits and what is behind are all the bytes. -/
theorem split_of_delimits {width : Nat} {bytes : List UInt8} (h : Delimits width bytes) :
    bytes = BigEndian.encode width (delimited width bytes).length ++ delimited width bytes ++
      behind width bytes := by
  rw [length_delimited h, encode_leading h.1, delimited, behind, List.append_assoc,
    List.take_append_drop, List.take_append_drop]

theorem leading_lt {width : Nat} {bytes : List UInt8} (h : width ≤ bytes.length) :
    leading width bytes < BigEndian.capacity width := by
  have hlt := BigEndian.decode_lt (bytes.take width)
  rwa [List.length_take, Nat.min_eq_left h] at hlt

theorem leading_encode_append {width n : Nat} (h : n < BigEndian.capacity width)
    (rest : List UInt8) :
    leading width (BigEndian.encode width n ++ rest) = n := by
  rw [leading, List.take_left' (BigEndian.length_encode width n), BigEndian.decode_encode h]

section

variable {width : Nat} {content : List UInt8} (h : content.length < BigEndian.capacity width)
  (rest : List UInt8)

include h

theorem delimits_encode_append :
    Delimits width (BigEndian.encode width content.length ++ (content ++ rest)) := by
  unfold Delimits
  rw [leading_encode_append h]
  simp only [List.length_append, BigEndian.length_encode]
  omega

theorem delimited_encode_append :
    delimited width (BigEndian.encode width content.length ++ (content ++ rest)) = content := by
  rw [delimited, leading_encode_append h, List.drop_left' (BigEndian.length_encode _ _),
    List.take_left]

theorem behind_encode_append :
    behind width (BigEndian.encode width content.length ++ (content ++ rest)) = rest := by
  rw [behind, leading_encode_append h, List.drop_left' (BigEndian.length_encode _ _),
    List.drop_left]

end

theorem takeBytes_eq_ok_iff_take (n : Nat) (bytes front rest : List UInt8) :
    takeBytes n bytes = .ok (front, rest) ↔
      n ≤ bytes.length ∧ front = bytes.take n ∧ rest = bytes.drop n := by
  rw [takeBytes_eq_ok_iff]
  constructor
  · intro hread
    obtain ⟨rfl, rfl⟩ := hread
    simp
  · intro hread
    obtain ⟨hle, rfl, rfl⟩ := hread
    refine ⟨(List.take_append_drop n bytes).symm, ?_⟩
    simp only [List.length_take]
    omega

private theorem takeBytes_map_eq_ok_iff (n : Nat) (f : List UInt8 → Value)
    (bytes rest : List UInt8) (value : Value) :
    (takeBytes n bytes >>= fun taken => pure (f taken.1, taken.2)) = .ok (value, rest) ↔
      n ≤ bytes.length ∧ value = f (bytes.take n) ∧ rest = bytes.drop n := by
  rw [bind_eq_ok_iff]
  constructor
  · intro hread
    obtain ⟨⟨front, left⟩, htake, hpure⟩ := hread
    obtain ⟨hle, rfl, rfl⟩ := (takeBytes_eq_ok_iff_take n bytes front left).mp htake
    cases hpure
    exact ⟨hle, rfl, rfl⟩
  · intro hread
    obtain ⟨hle, rfl, rfl⟩ := hread
    exact ⟨_, (takeBytes_eq_ok_iff_take n bytes _ _).mpr ⟨hle, rfl, rfl⟩, rfl⟩

end Reading

open Reading

section

variable (scope : Value) (bytes rest : List UInt8) (value : Value)

theorem Schema.decode_uint_eq_ok_iff (width : Nat) :
    (Schema.uint width).decode scope bytes = .ok (value, rest) ↔
      width ≤ bytes.length ∧ value = .int (leading width bytes) ∧ rest = bytes.drop width := by
  rw [Schema.decode]
  exact takeBytes_map_eq_ok_iff width (fun digits => .int (BigEndian.decode digits)) _ _ _

theorem Schema.decode_code_eq_ok_iff (registry : Registry) :
    (Schema.code registry).decode scope bytes = .ok (value, rest) ↔
      registry.width ≤ bytes.length ∧
        value = .code (registry.codePoint (leading registry.width bytes)) ∧
        rest = bytes.drop registry.width := by
  rw [Schema.decode]
  exact takeBytes_map_eq_ok_iff registry.width
    (fun digits => .code (registry.codePoint (BigEndian.decode digits))) _ _ _

/-- The content of a region is read from what the length delimits, whatever it leaves of it. -/
theorem Schema.decode_region_eq_ok_iff (width : Nat) (content : Schema) :
    (Schema.region width content).decode scope bytes = .ok (value, rest) ↔
      Delimits width bytes ∧ rest = behind width bytes ∧
        ∃ left, content.decode scope (delimited width bytes) = .ok (value, left) := by
  simp only [Schema.decode, bind_eq_ok_iff, Prod.exists, takeBytes_eq_ok_iff_take]
  constructor
  · intro hread
    obtain ⟨_, _, ⟨hle, rfl, rfl⟩, _, _, ⟨hfit, rfl, rfl⟩, _, left, hcontent, hpure⟩ := hread
    cases hpure
    exact ⟨⟨hle, by simpa only [leading, List.length_drop] using hfit⟩, rfl, left, hcontent⟩
  · intro hread
    obtain ⟨⟨hle, hfit⟩, rfl, left, hcontent⟩ := hread
    exact ⟨_, _, ⟨hle, rfl, rfl⟩, _, _,
      ⟨by simpa only [leading, List.length_drop] using hfit, rfl, rfl⟩, value, left, hcontent, rfl⟩

/-- A region of bytes is read into the bytes that its length delimits. -/
theorem Schema.decode_opaque16_eq_ok_iff :
    Schema.opaque16.decode scope bytes = .ok (value, rest) ↔
      Delimits 2 bytes ∧ value = .bytes (delimited 2 bytes) ∧ rest = behind 2 bytes := by
  rw [Schema.opaque16, decode_region_eq_ok_iff]
  simp only [Schema.decode, Except.ok.injEq, Prod.mk.injEq]
  constructor
  · intro hread
    obtain ⟨hdelimits, hrest, left, hvalue, -⟩ := hread
    exact ⟨hdelimits, hvalue.symm, hrest⟩
  · intro hread
    obtain ⟨hdelimits, hvalue, hrest⟩ := hread
    exact ⟨hdelimits, hrest, [], hvalue.symm, rfl⟩

theorem Schema.decode_record_eq_ok_iff (fields : Fields) :
    (Schema.record fields).decode scope bytes = .ok (value, rest) ↔
      ∃ entries, fields.decode (Scope.inside [] scope) bytes = .ok (entries, rest) ∧
        value = .record entries := by
  simp only [Schema.decode, bind_eq_ok_iff, Prod.exists]
  constructor
  · intro hread
    obtain ⟨entries, _, hfields, hpure⟩ := hread
    cases hpure
    exact ⟨entries, hfields, rfl⟩
  · intro hread
    obtain ⟨entries, hfields, rfl⟩ := hread
    exact ⟨entries, rest, hfields, rfl⟩

end

section

variable (scope : Value) (bytes rest : List UInt8) (entries : List (String × Value))

theorem Fields.decode_label_eq_ok_iff (name text : String) (more : Fields) :
    (Fields.label name text more).decode scope bytes = .ok (entries, rest) ↔
      ∃ others, more.decode scope bytes = .ok (others, rest) ∧
        entries = (name, .text text) :: others := by
  simp only [Fields.decode, bind_eq_ok_iff, Prod.exists]
  constructor
  · intro hread
    obtain ⟨others, _, hmore, hpure⟩ := hread
    cases hpure
    exact ⟨others, hmore, rfl⟩
  · intro hread
    obtain ⟨others, hmore, rfl⟩ := hread
    exact ⟨others, rest, hmore, rfl⟩

theorem Fields.decode_field_eq_ok_iff (name : String) (schema : Schema) (more : Fields) :
    (Fields.field name schema more).decode scope bytes = .ok (entries, rest) ↔
      ∃ value left, schema.decode scope bytes = .ok (value, left) ∧
        ∃ others, more.decode scope left = .ok (others, rest) ∧
          entries = (name, value) :: others := by
  simp only [Fields.decode, bind_eq_ok_iff, Prod.exists, mapError_eq_ok_iff]
  constructor
  · intro hread
    obtain ⟨value, left, hvalue, others, _, hmore, hpure⟩ := hread
    cases hpure
    exact ⟨value, left, hvalue, others, hmore, rfl⟩
  · intro hread
    obtain ⟨value, left, hvalue, others, hmore, rfl⟩ := hread
    exact ⟨value, left, hvalue, others, rest, hmore, rfl⟩

theorem Fields.decode_last_eq_ok_iff (name : String) (schema : Schema) :
    (Fields.last name schema).decode scope bytes = .ok (entries, rest) ↔
      ∃ value, schema.decode scope bytes = .ok (value, rest) ∧ entries = [(name, value)] := by
  rw [Fields.last, Fields.decode_field_eq_ok_iff]
  constructor
  · intro hread
    obtain ⟨value, left, hvalue, others, hmore, rfl⟩ := hread
    cases hmore
    exact ⟨value, hvalue, rfl⟩
  · intro hread
    obtain ⟨value, hvalue, rfl⟩ := hread
    exact ⟨value, rest, hvalue, [], rfl, rfl⟩

end

theorem Content.decode_labelled_eq_ok_iff (scope : Value) (bytes rest : List UInt8)
    (value : Value) (name : String) (fields : Fields) :
    (labelled name fields).decode scope bytes = .ok (value, rest) ↔
      ∃ entries, fields.decode (Scope.inside [] scope) bytes = .ok (entries, rest) ∧
        value = .record (("_name", .text name) :: entries) := by
  rw [labelled, Schema.decode_record_eq_ok_iff]
  simp only [Fields.decode_label_eq_ok_iff]
  constructor
  · intro hread
    obtain ⟨_, ⟨entries, hfields, rfl⟩, rfl⟩ := hread
    exact ⟨entries, hfields, rfl⟩
  · intro hread
    obtain ⟨entries, hfields, rfl⟩ := hread
    exact ⟨_, ⟨entries, hfields, rfl⟩, rfl⟩

end HelloExtensions
