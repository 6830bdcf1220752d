/-!
Unsigned numbers as bytes, most significant byte first. A number below 256 to the width
survives writing and reading, and every byte string is the writing of the number it reads as,
so the two directions are inverse to each other at each width.
-/
namespace HelloExtensions.BigEndian

def decode (bytes : List UInt8) : Nat :=
  bytes.foldl (fun n b => 256 * n + b.toNat) 0

/-- The last `width` digits of `n` in base 256, put before `tail`. -/
def encodeOnto : (width n : Nat) → (tail : List UInt8) → List UInt8
  | 0, _, tail => tail
  | width + 1, n, tail => encodeOnto width (n / 256) (UInt8.ofNat (n % 256) :: tail)

def encode (width n : Nat) : List UInt8 := encodeOnto width n []

/-- How many numbers there are in `width` bytes. -/
def capacity (width : Nat) : Nat := Nat.pow 256 width

theorem capacity_zero : capacity 0 = 1 := rfl

theorem capacity_succ (width : Nat) : capacity (width + 1) = capacity width * 256 := rfl

theorem encodeOnto_eq (width n : Nat) (tail : List UInt8) :
    encodeOnto width n tail = encode width n ++ tail := by
  induction width generalizing n tail with
  | zero => rfl
  | succ width ih =>
    rw [encode, encodeOnto, encodeOnto, ih, ih _ [_]]
    simp

theorem encode_succ (width n : Nat) :
    encode (width + 1) n = encode width (n / 256) ++ [UInt8.ofNat (n % 256)] := by
  rw [encode, encodeOnto, encodeOnto_eq]

@[simp] theorem length_encode (width n : Nat) : (encode width n).length = width := by
  induction width generalizing n with
  | zero => rfl
  | succ width ih => simp [encode_succ, ih]

theorem decode_append_singleton (bytes : List UInt8) (b : UInt8) :
    decode (bytes ++ [b]) = 256 * decode bytes + b.toNat := by
  simp [decode]

private theorem decodeOnto_lt (bytes : List UInt8) (n : Nat) :
    bytes.foldl (fun n b => 256 * n + b.toNat) n < (n + 1) * capacity bytes.length := by
  induction bytes generalizing n with
  | nil => simp [capacity_zero]
  | cons b bytes ih =>
    have hb := b.toNat_lt
    refine Nat.lt_of_lt_of_le (ih _) ?_
    rw [List.length_cons, capacity_succ, Nat.mul_comm (capacity bytes.length), ← Nat.mul_assoc]
    refine Nat.mul_le_mul_right _ ?_
    show 256 * n + b.toNat + 1 ≤ (n + 1) * 256
    omega

theorem decode_lt (bytes : List UInt8) : decode bytes < capacity bytes.length := by
  have h := decodeOnto_lt bytes 0
  rwa [Nat.zero_add, Nat.one_mul] at h

theorem decode_encode {width n : Nat} (h : n < capacity width) : decode (encode width n) = n := by
  induction width generalizing n with
  | zero =>
    rw [capacity_zero] at h
    simp [encode, encodeOnto, decode]
    omega
  | succ width ih =>
    rw [capacity_succ] at h
    rw [encode_succ, decode_append_singleton, ih (by omega)]
    simp
    omega

private theorem encode_decode_of_length {width : Nat} {bytes : List UInt8}
    (h : bytes.length = width) : encode width (decode bytes) = bytes := by
  induction width generalizing bytes with
  | zero => rw [List.eq_nil_of_length_eq_zero h]; rfl
  | succ width ih =>
    rcases List.eq_nil_or_concat bytes with rfl | ⟨front, b, rfl⟩
    · simp at h
    · have hb := b.toNat_lt
      have hq : (256 * decode front + b.toNat) / 256 = decode front := by omega
      have hr : (256 * decode front + b.toNat) % 256 = b.toNat := by omega
      rw [List.concat_eq_append] at h ⊢
      rw [encode_succ, decode_append_singleton, hq, hr, ih (by simpa using h)]
      simp

theorem encode_decode (bytes : List UInt8) : encode bytes.length (decode bytes) = bytes :=
  encode_decode_of_length rfl

end HelloExtensions.BigEndian
