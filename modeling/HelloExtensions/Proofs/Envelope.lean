import HelloExtensions.Extension.Region
import HelloExtensions.Proofs.ReadingScope
import HelloExtensions.Report
import Mathlib.Data.List.Basic

/-!
Envelopes: the bytes of one extension, which are its type, the length of its body and the body.
Bytes that do not start with an envelope are unfinished, and then decoding tells how many more
of them are needed. An envelope is decoded from its own bytes alone, whatever stands behind it,
to an extension or to a verification error. So a verdict on some bytes stays when more arrive,
and a byte string is a sequence of envelopes and an unfinished rest in exactly one way.
-/
namespace HelloExtensions

open Reading

namespace ExtensionError

/-- The error is reported as bytes that are malformed. -/
def IsVerification (e : ExtensionError) : Prop :=
  ∃ message : String,
    e.report? = some (Report.verification Report.verificationStatus (.text message))

theorem isVerification_malformed (subject : Subject) (path : List String) (reason : Mismatch) :
    IsVerification (.malformed subject path reason) := ⟨_, rfl⟩

theorem not_isVerification_incomplete (needed : Nat) : ¬ IsVerification (.incomplete needed) := by
  intro hverification
  obtain ⟨message, h⟩ := hverification
  have hkind := congrArg (Option.map Report.kind) h
  simp [report?, Report.incomplete, Report.verification] at hkind

end ExtensionError

namespace Extension

/-- The number of the type that the header names. -/
def wireNumber (bytes : List UInt8) : Nat := BigEndian.decode (bytes.take 2)

/-- The length that the header declares. -/
def declaredLength (bytes : List UInt8) : Nat := BigEndian.decode ((bytes.drop 2).take 2)

/-- The bytes of which the header declares the length. -/
def body (bytes : List UInt8) : List UInt8 :=
  (bytes.drop headerSize).take (declaredLength bytes)

/-- The header is not there, or not all of the bytes that it declares. -/
def Unfinished (bytes : List UInt8) : Prop :=
  bytes.length < headerSize ∨ bytes.length < headerSize + declaredLength bytes

instance (bytes : List UInt8) : Decidable (Unfinished bytes) :=
  inferInstanceAs (Decidable (_ ∨ _))

/-- How many bytes it takes to get on: those of the header, or those that it declares. -/
def wanted (bytes : List UInt8) : Nat :=
  if bytes.length < headerSize then headerSize else headerSize + declaredLength bytes

theorem unfinished_iff (bytes : List UInt8) : Unfinished bytes ↔ bytes.length < wanted bytes := by
  unfold Unfinished wanted
  split <;> omega

end Extension

/-- The type, the length of the body and the body of an extension. -/
structure Envelope where
  number : Nat
  body : List UInt8
  number_lt : number < 65536
  length_lt : body.length < 65536

namespace Envelope

open Extension Registry

def bytes (envelope : Envelope) : List UInt8 :=
  BigEndian.encode 2 envelope.number ++ BigEndian.encode 2 envelope.body.length ++ envelope.body

def type (envelope : Envelope) : CodePoint := extensionTypes.codePoint envelope.number

/-- What an envelope alone is decoded to. -/
def extension (envelope : Envelope) : Except ExtensionError Extension :=
  match decodeContent envelope.type envelope.body with
  | .ok content => .ok ⟨envelope.type, envelope.body.length, content⟩
  | .error fault =>
    .error (.ofFault (.extension envelope.type envelope.body.length)
      (fault.under "extension_data"))

theorem length_bytes (envelope : Envelope) :
    envelope.bytes.length = headerSize + envelope.body.length := by
  simp only [bytes, List.length_append, BigEndian.length_encode, headerSize]

theorem decode_encode_number (envelope : Envelope) :
    BigEndian.decode (BigEndian.encode 2 envelope.number) = envelope.number :=
  BigEndian.decode_encode envelope.number_lt

theorem decode_encode_length (envelope : Envelope) :
    BigEndian.decode (BigEndian.encode 2 envelope.body.length) = envelope.body.length :=
  BigEndian.decode_encode envelope.length_lt

section

variable (envelope : Envelope) (rest : List UInt8)

theorem wireNumber_append : wireNumber (envelope.bytes ++ rest) = envelope.number := by
  have htake : (envelope.bytes ++ rest).take 2 = BigEndian.encode 2 envelope.number := by
    simp only [bytes, List.append_assoc]
    exact List.take_left' (BigEndian.length_encode 2 _)
  rw [wireNumber, htake, decode_encode_number]

theorem declaredLength_append :
    declaredLength (envelope.bytes ++ rest) = envelope.body.length := by
  have hdrop : (envelope.bytes ++ rest).drop 2 =
      BigEndian.encode 2 envelope.body.length ++ (envelope.body ++ rest) := by
    simp only [bytes, List.append_assoc]
    exact List.drop_left' (BigEndian.length_encode 2 _)
  rw [declaredLength, hdrop, List.take_left' (BigEndian.length_encode 2 _), decode_encode_length]

theorem body_append : Extension.body (envelope.bytes ++ rest) = envelope.body := by
  have hdrop : (envelope.bytes ++ rest).drop headerSize = envelope.body ++ rest := by
    simp only [bytes, List.append_assoc]
    rw [← List.append_assoc]
    exact List.drop_left' (by simp only [List.length_append, BigEndian.length_encode, headerSize])
  rw [Extension.body, declaredLength_append, hdrop, List.take_left]

theorem take_header_append : (envelope.bytes ++ rest).take headerSize =
    BigEndian.encode 2 envelope.number ++ BigEndian.encode 2 envelope.body.length := by
  rw [bytes, List.append_assoc]
  exact List.take_left' (by simp only [List.length_append, BigEndian.length_encode, headerSize])

theorem not_unfinished_append : ¬ Unfinished (envelope.bytes ++ rest) := by
  unfold Unfinished
  rw [declaredLength_append, List.length_append, length_bytes]
  omega

/-- An envelope is decoded from its own bytes, and those behind it are left as they are. -/
theorem decode_append :
    Extension.decode (envelope.bytes ++ rest) = envelope.extension.map fun ext => (ext, rest) := by
  obtain ⟨a, b, hnumber⟩ := List.length_eq_two.mp (BigEndian.length_encode 2 envelope.number)
  obtain ⟨c, d, hlength⟩ := List.length_eq_two.mp (BigEndian.length_encode 2 envelope.body.length)
  have hn := envelope.decode_encode_number
  have hl := envelope.decode_encode_length
  rw [hnumber] at hn
  rw [hlength] at hl
  rw [bytes, hnumber, hlength]
  show Extension.decode (a :: b :: c :: d :: (envelope.body ++ rest)) = _
  simp only [Extension.decode, hn, hl, List.take_left, List.drop_left, Nat.lt_irrefl, if_false,
    extension, type]
  cases decodeContent (extensionTypes.codePoint envelope.number) envelope.body with
  | error fault => rfl
  | ok content => rfl

end

theorem decode_bytes (envelope : Envelope) :
    Extension.decode envelope.bytes = envelope.extension.map fun ext => (ext, []) := by
  have h := envelope.decode_append []
  rwa [List.append_nil] at h

theorem ext_of_body {a b : Envelope} (hnumber : a.number = b.number) (hbody : a.body = b.body) :
    a = b := by
  cases a
  cases b
  cases hnumber
  cases hbody
  rfl

/-- The first envelope of some bytes is determined by them. -/
theorem append_inj {a b : Envelope} {r s : List UInt8} (h : a.bytes ++ r = b.bytes ++ s) :
    a = b ∧ r = s := by
  have hnumber : a.number = b.number := by rw [← wireNumber_append a r, h, wireNumber_append]
  have hbody : a.body = b.body := by rw [← body_append a r, h, body_append]
  obtain rfl := ext_of_body hnumber hbody
  exact ⟨rfl, List.append_cancel_left h⟩

end Envelope

namespace Extension

/-- The envelope at the front of bytes that are finished. -/
theorem exists_envelope {bytes : List UInt8} (h : ¬ Unfinished bytes) :
    ∃ (envelope : Envelope) (rest : List UInt8), bytes = envelope.bytes ++ rest := by
  unfold Unfinished at h
  have hheader : headerSize = 4 := rfl
  have hbody : (body bytes).length = declaredLength bytes := by
    simp only [body, List.length_take, List.length_drop]
    omega
  have hnumber : wireNumber bytes < 65536 := by
    have hlt := BigEndian.decode_lt (bytes.take 2)
    rwa [List.length_take, Nat.min_eq_left (by omega)] at hlt
  have hlength : declaredLength bytes < 65536 := by
    have hlt := BigEndian.decode_lt ((bytes.drop 2).take 2)
    rwa [List.length_take, List.length_drop, Nat.min_eq_left (by omega)] at hlt
  refine ⟨⟨wireNumber bytes, body bytes, hnumber, by omega⟩,
    bytes.drop (headerSize + declaredLength bytes), ?_⟩
  have hfirst : BigEndian.encode 2 (wireNumber bytes) = bytes.take 2 :=
    encode_leading (by omega)
  have hsecond : BigEndian.encode 2 (declaredLength bytes) = (bytes.drop 2).take 2 :=
    encode_leading (by simp only [List.length_drop]; omega)
  have hrest : bytes.drop (headerSize + declaredLength bytes) =
      ((bytes.drop 2).drop 2).drop (declaredLength bytes) := by
    rw [List.drop_drop, List.drop_drop, hheader, ← Nat.add_assoc]
  calc bytes
    _ = bytes.take 2 ++ ((bytes.drop 2).take 2 ++ (((bytes.drop 2).drop 2).take
          (declaredLength bytes) ++ ((bytes.drop 2).drop 2).drop (declaredLength bytes))) := by
      simp only [List.take_append_drop]
    _ = _ := by
      simp only [Envelope.bytes]
      rw [hbody, hfirst, hsecond, hrest, body, hheader, List.drop_drop, List.append_assoc,
        List.append_assoc]

theorem decode_of_unfinished {bytes : List UInt8} (h : Unfinished bytes) :
    decode bytes = .error (.incomplete (wanted bytes - bytes.length)) := by
  unfold Unfinished at h
  rcases bytes with _ | ⟨a, _ | ⟨b, _ | ⟨c, _ | ⟨d, bytes⟩⟩⟩⟩
  · rfl
  · rfl
  · rfl
  · rfl
  · have hwanted : wanted (a :: b :: c :: d :: bytes) =
        headerSize + declaredLength (a :: b :: c :: d :: bytes) := by
      rw [wanted, if_neg (by simp [headerSize])]
    have hlength : declaredLength (a :: b :: c :: d :: bytes) = BigEndian.decode [c, d] := rfl
    have hshort : bytes.length < BigEndian.decode [c, d] := by
      simp only [List.length_cons, headerSize, hlength] at h
      omega
    have htake : (bytes.take (BigEndian.decode [c, d])).length = bytes.length := by
      rw [List.length_take, Nat.min_eq_right (Nat.le_of_lt hshort)]
    rw [hwanted, hlength]
    simp only [decode, htake, if_pos hshort, List.length_cons, headerSize]
    congr 2
    omega

/-- Either the bytes are unfinished or an envelope is at their front. -/
theorem unfinished_or_envelope (bytes : List UInt8) :
    Unfinished bytes ∨ ∃ (envelope : Envelope) (rest : List UInt8),
      bytes = envelope.bytes ++ rest := by
  by_cases h : Unfinished bytes
  · exact .inl h
  · exact .inr (exists_envelope h)

/-- An extension that is decoded is that of an envelope in front of the bytes that are left. -/
theorem exists_envelope_of_decode {bytes rest : List UInt8} {ext : Extension}
    (h : decode bytes = .ok (ext, rest)) :
    ∃ envelope : Envelope, bytes = envelope.bytes ++ rest ∧
      decodeContent envelope.type envelope.body = .ok ext.content := by
  rcases unfinished_or_envelope bytes with hunfinished | ⟨envelope, behind, rfl⟩
  · rw [decode_of_unfinished hunfinished] at h
    cases h
  · rw [envelope.decode_append, Envelope.extension] at h
    cases hcontent : decodeContent envelope.type envelope.body with
    | error fault =>
      rw [hcontent] at h
      cases h
    | ok content =>
      rw [hcontent] at h
      cases h
      exact ⟨envelope, rfl, hcontent⟩

/-- The extension that is decoded has the type and the length of its envelope. -/
theorem type_and_length_of_decode {envelope : Envelope} {rest left : List UInt8}
    {ext : Extension} (h : decode (envelope.bytes ++ rest) = .ok (ext, left)) :
    ext.type = envelope.type ∧ ext.length = envelope.body.length := by
  rw [envelope.decode_append, Envelope.extension] at h
  cases hcontent : decodeContent envelope.type envelope.body with
  | error fault =>
    rw [hcontent] at h
    cases h
  | ok content =>
    rw [hcontent] at h
    cases h
    exact ⟨rfl, rfl⟩

end Extension

namespace Extension

theorem decodeContent_eq_ok_iff (type : CodePoint) (body : List UInt8) (content : Value) :
    decodeContent type body = .ok content ↔
      ∃ rest, (layout type.number type.name?).decode (scope type body.length) body =
        .ok (content, rest) := by
  simp only [decodeContent, bind_eq_ok_iff, Prod.exists]
  constructor
  · intro hread
    obtain ⟨value, rest, hdecode, hpure⟩ := hread
    cases hpure
    exact ⟨rest, hdecode⟩
  · intro hread
    obtain ⟨rest, hdecode⟩ := hread
    exact ⟨content, rest, hdecode, rfl⟩

theorem refersOut_layout (number : Int) (name? : Option String) :
    (layout number name?).refersOut 0 = true := by
  have hcontents : ∀ c ∈ Content.contents, c.2.refersOut 0 = true := by decide
  unfold layout
  split
  · rfl
  · cases hlookup : name?.bind fun name => Content.contents.lookup name with
    | none => rfl
    | some schema =>
      obtain ⟨name, -, hname⟩ := Option.bind_eq_some_iff.mp hlookup
      exact hcontents (name, schema) (Entries.mem_of_lookup_eq_some hname)

theorem answers_scope (type : CodePoint) (length : Nat) :
    Scope.Answers (scope type length) length type.number where
  length_eq := rfl
  number_eq := rfl

theorem wellShaped_decodeContent (type : CodePoint) (body : List UInt8) :
    WellShaped (decodeContent type body) := by
  unfold decodeContent
  have hread := Schema.wellShaped_decode (answers_scope type body.length)
    (layout type.number type.name?) 0 (refersOut_layout _ _) body
  exact hread.bind fun _ _ => .ok _

end Extension

namespace Envelope

/-- An envelope that is rejected is malformed somewhere in its body. -/
theorem malformed_of_extension_eq_error {envelope : Envelope} {e : ExtensionError}
    (h : envelope.extension = .error e) :
    ∃ path reason, e = .malformed (.extension envelope.type envelope.body.length)
      ("extension_data" :: path) reason := by
  unfold extension at h
  split at h
  · cases h
  · next fault hfault =>
    obtain ⟨path, reason, rfl⟩ := Extension.wellShaped_decodeContent _ _ fault hfault
    cases h
    exact ⟨path, reason, rfl⟩

theorem isVerification_of_extension_eq_error {envelope : Envelope} {e : ExtensionError}
    (h : envelope.extension = .error e) : e.IsVerification := by
  obtain ⟨path, reason, rfl⟩ := malformed_of_extension_eq_error h
  exact ExtensionError.isVerification_malformed _ _ _

/-- Bytes behind an envelope are passed on and change nothing else. -/
theorem decode_append_append (envelope : Envelope) (rest more : List UInt8) :
    Extension.decode (envelope.bytes ++ rest ++ more) =
      (Extension.decode (envelope.bytes ++ rest)).map fun result =>
        (result.1, result.2 ++ more) := by
  rw [List.append_assoc, decode_append, decode_append]
  cases envelope.extension with
  | error e => rfl
  | ok ext => rfl

theorem extension_ne_incomplete (envelope : Envelope) (needed : Nat) :
    envelope.extension ≠ .error (.incomplete needed) := by
  intro h
  exact ExtensionError.not_isVerification_incomplete needed
    (isVerification_of_extension_eq_error h)

theorem decode_append_ne_incomplete (envelope : Envelope) (rest : List UInt8) (needed : Nat) :
    Extension.decode (envelope.bytes ++ rest) ≠ .error (.incomplete needed) := by
  rw [decode_append]
  intro h
  cases hext : envelope.extension with
  | error e =>
    rw [hext] at h
    cases h
    exact envelope.extension_ne_incomplete needed hext
  | ok ext =>
    rw [hext] at h
    cases h

end Envelope

namespace Extension

theorem declaredLength_append_of_header {a : List UInt8} (h : headerSize ≤ a.length)
    (b : List UInt8) : declaredLength (a ++ b) = declaredLength a := by
  unfold headerSize at h
  have hdrop : (a ++ b).drop 2 = a.drop 2 ++ b := List.drop_append_of_le_length (by omega)
  rw [declaredLength, hdrop,
    List.take_append_of_le_length (by simp only [List.length_drop]; omega), declaredLength]

/-- As long as bytes are missing, the ones that arrive do not change how many it takes. -/
theorem wanted_append_of_lt {a b : List UInt8} (h : a.length + b.length < wanted a) :
    wanted (a ++ b) = wanted a := by
  by_cases hheader : a.length < headerSize
  · rw [wanted, if_pos hheader] at h
    rw [wanted, wanted, List.length_append, if_pos h, if_pos hheader]
  · have hlength : ¬ (a ++ b).length < headerSize := by
      rw [List.length_append]
      omega
    rw [wanted, wanted, if_neg hheader, if_neg hlength,
      declaredLength_append_of_header (Nat.not_lt.mp hheader)]

theorem unfinished_of_decode_eq_incomplete {bytes : List UInt8} {needed : Nat}
    (h : decode bytes = .error (.incomplete needed)) :
    Unfinished bytes ∧ needed = wanted bytes - bytes.length := by
  rcases unfinished_or_envelope bytes with hunfinished | ⟨envelope, rest, rfl⟩
  · rw [decode_of_unfinished hunfinished] at h
    cases h
    exact ⟨hunfinished, rfl⟩
  · exact absurd h (envelope.decode_append_ne_incomplete rest needed)

/-- What is decided stays decided when more bytes arrive. Where bytes are missing, fewer are
missing then, and once they are there the extension is decided. -/
theorem decode_append_verdict (a b : List UInt8) :
    (∀ ext rest, decode a = .ok (ext, rest) → decode (a ++ b) = .ok (ext, rest ++ b)) ∧
    (∀ e, decode a = .error e → e.IsVerification → decode (a ++ b) = .error e) ∧
    (∀ needed, decode a = .error (.incomplete needed) →
      1 ≤ needed ∧
      (b.length < needed →
        decode (a ++ b) = .error (.incomplete (needed - b.length))) ∧
      (headerSize ≤ a.length → needed ≤ b.length →
        ∀ n, decode (a ++ b) ≠ .error (.incomplete n))) := by
  refine ⟨?_, ?_, ?_⟩
  · intro ext rest h
    rcases unfinished_or_envelope a with hunfinished | ⟨envelope, tail, rfl⟩
    · rw [decode_of_unfinished hunfinished] at h
      cases h
    · rw [Envelope.decode_append_append, h]
      rfl
  · intro e h hverification
    rcases unfinished_or_envelope a with hunfinished | ⟨envelope, tail, rfl⟩
    · rw [decode_of_unfinished hunfinished] at h
      cases h
      exact absurd hverification (ExtensionError.not_isVerification_incomplete _)
    · rw [Envelope.decode_append_append, h]
      rfl
  · intro needed h
    obtain ⟨hunfinished, rfl⟩ := unfinished_of_decode_eq_incomplete h
    have hlt := (unfinished_iff a).mp hunfinished
    refine ⟨by omega, ?_, ?_⟩
    · intro hb
      have hwanted := wanted_append_of_lt (a := a) (b := b) (by omega)
      have hstill : Unfinished (a ++ b) := by
        rw [unfinished_iff, hwanted, List.length_append]
        omega
      rw [decode_of_unfinished hstill, hwanted, List.length_append, Nat.sub_sub]
    · intro hheader hb n hn
      obtain ⟨hstill, -⟩ := unfinished_of_decode_eq_incomplete hn
      rw [wanted, if_neg (Nat.not_lt.mpr hheader)] at hb hlt
      unfold Unfinished at hstill
      rw [declaredLength_append_of_header hheader, List.length_append] at hstill
      omega

/-- Each verdict occurs: an accepted extension, a rejected one, and one without its last byte. -/
theorem decode_append_verdict_occurs :
    (∃ ext, decode [0, 23, 0, 0] = .ok (ext, []) ∧
      decode ([0, 23, 0, 0] ++ [7]) = .ok (ext, [] ++ [7])) ∧
    (∃ e, decode [0, 23, 0, 1, 0] = .error e ∧ decode ([0, 23, 0, 1, 0] ++ [7]) = .error e) ∧
    decode [0, 1, 0, 1] = .error (.incomplete 1) ∧
      ∀ n, decode ([0, 1, 0, 1] ++ [2]) ≠ .error (.incomplete n) := by
  refine ⟨⟨_, rfl, ?_⟩, ⟨_, rfl, ?_⟩, rfl, ?_⟩
  · exact (decode_append_verdict [0, 23, 0, 0] [7]).1 _ _ rfl
  · exact (decode_append_verdict [0, 23, 0, 1, 0] [7]).2.1 _ rfl
      (ExtensionError.isVerification_malformed _ _ _)
  · exact ((decode_append_verdict [0, 1, 0, 1] [2]).2.2 1 rfl).2.2 (by decide) (by decide)

end Extension

end HelloExtensions
