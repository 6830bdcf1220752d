import HelloExtensions.Extension
import HelloExtensions.Extension.Typing

/-!
The extensions of a message stand one behind the other in a region. They are decoded in the
order of the wire, and the first one that is not decoded decides the error of the whole region.
-/
namespace HelloExtensions.Extension

/-- Decode at most `limit` extensions and put them behind those found, which are in reverse
order. -/
def decodeUpTo : (limit : Nat) → (found : List Extension) → List UInt8 →
    Except ExtensionError (List Extension)
  | _, found, [] => .ok found.reverse
  | 0, found, _ :: _ => .ok found.reverse
  | limit + 1, found, bytes =>
    match decode bytes with
    | .ok (ext, rest) => decodeUpTo limit (ext :: found) rest
    | .error e => .error e

/-- All extensions of a region. Each has a header, so there are fewer of them than bytes. -/
def decodeAll (bytes : List UInt8) : Except ExtensionError (List Extension) :=
  decodeUpTo bytes.length [] bytes

theorem length_of_decode {bytes rest : List UInt8} {ext : Extension}
    (h : decode bytes = .ok (ext, rest)) :
    bytes.length = headerSize + ext.length + rest.length := by
  rcases bytes with _ | ⟨a, _ | ⟨b, _ | ⟨c, _ | ⟨d, bytes⟩⟩⟩⟩ <;>
    simp only [decode] at h <;> try cases h
  split at h
  · cases h
  · next hl =>
    split at h
    · next content _ =>
      simp only [Except.ok.injEq, Prod.mk.injEq] at h
      obtain ⟨rfl, rfl⟩ := h
      simp only [List.length_take, List.length_drop, List.length_cons, headerSize] at hl ⊢
      omega
    · cases h

private theorem decodeUpTo_nil (limit : Nat) (found : List Extension) :
    decodeUpTo limit found [] = .ok found.reverse := by
  cases limit <;> rfl

private theorem decodeUpTo_eq (limit : Nat) (found : List Extension) (bytes : List UInt8) :
    decodeUpTo limit found bytes = (decodeUpTo limit [] bytes).map (found.reverse ++ ·) := by
  induction limit generalizing found bytes with
  | zero => cases bytes <;> simp [decodeUpTo, Except.map]
  | succ limit ih =>
    cases bytes with
    | nil => simp [decodeUpTo, Except.map]
    | cons b bytes =>
      simp only [decodeUpTo]
      split
      · next ext rest _ =>
        rw [ih (ext :: found), ih [ext]]
        cases decodeUpTo limit [] rest <;> simp [Except.map]
      · rfl

private theorem decodeUpTo_congr {m n : Nat} (found : List Extension) {bytes : List UInt8}
    (hm : bytes.length ≤ m) (hn : bytes.length ≤ n) :
    decodeUpTo m found bytes = decodeUpTo n found bytes := by
  induction m generalizing n found bytes with
  | zero => rw [List.eq_nil_of_length_eq_zero (Nat.le_zero.1 hm), decodeUpTo_nil, decodeUpTo_nil]
  | succ m ih =>
    cases bytes with
    | nil => rw [decodeUpTo_nil, decodeUpTo_nil]
    | cons b bytes =>
      obtain ⟨n, rfl⟩ : ∃ k, n = k + 1 := ⟨n - 1, by simp only [List.length_cons] at hn; omega⟩
      simp only [decodeUpTo]
      split
      · next ext rest h =>
        have hl := length_of_decode h
        rw [headerSize] at hl
        exact ih (ext :: found) (by omega) (by omega)
      · rfl

theorem decodeAll_nil : decodeAll [] = .ok [] := rfl

/-- A region is its first extension and the region of the others. -/
theorem decodeAll_of_ok {bytes rest : List UInt8} {ext : Extension}
    (h : decode bytes = .ok (ext, rest)) :
    decodeAll bytes = (decodeAll rest).map (ext :: ·) := by
  have hl := length_of_decode h
  rw [headerSize] at hl
  cases bytes with
  | nil => simp at hl; omega
  | cons b bytes =>
    simp only [decodeAll, List.length_cons, decodeUpTo, h]
    show decodeUpTo bytes.length [ext] rest = _
    simp only [List.length_cons] at hl
    rw [decodeUpTo_eq, decodeUpTo_congr [] (n := rest.length) (by omega) (Nat.le_refl _)]
    rfl

/-- An extension that is not decoded keeps the region from being decoded. -/
theorem decodeAll_of_error {bytes : List UInt8} {e : ExtensionError} (hb : bytes ≠ [])
    (h : decode bytes = .error e) : decodeAll bytes = .error e := by
  cases bytes with
  | nil => exact absurd rfl hb
  | cons b bytes => simp [decodeAll, decodeUpTo, h]

/-- The extension at the start of the bytes, which has to be of the expected type. The type is
looked at as soon as its two bytes are there. -/
def decodeOfType (limit? : Option Text.Numeral.DigitLimit) (bytes : List UInt8)
    (expected : Value) : Except ExtensionError (Extension × List UInt8) := do
  let number ← typeNumber limit? expected
  match bytes with
  | a :: b :: _ =>
    let found := BigEndian.decode [a, b]
    if (found : Int) ≠ number then
      .error (.unexpectedType (Registry.extensionTypes.codePoint number.toNat)
        (Registry.extensionTypes.codePoint found))
    else decode bytes
  | _ => decode bytes

end HelloExtensions.Extension
