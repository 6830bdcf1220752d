import HelloExtensions.Schema.Fault

/-!
Portions of a byte string: a number of bytes at its front, and the items that are read from it
one after the other until one fails. If every item takes a byte at least, all items are the
first one and all items of what it leaves.
-/
namespace HelloExtensions

/-- The first `n` bytes and the others, if there are that many. -/
def takeBytes (n : Nat) (bytes : List UInt8) : Except Fault (List UInt8 × List UInt8) :=
  let front := bytes.take n
  if front.length = n then .ok (front, bytes.drop n)
  else .error (.mismatch [] (.short n bytes.length))

theorem takeBytes_append (front rest : List UInt8) :
    takeBytes front.length (front ++ rest) = .ok (front, rest) := by
  simp [takeBytes]

theorem takeBytes_eq_ok_iff {n : Nat} {bytes front rest : List UInt8} :
    takeBytes n bytes = .ok (front, rest) ↔ bytes = front ++ rest ∧ front.length = n := by
  refine ⟨fun h => ?_, fun ⟨hb, hn⟩ => hb ▸ hn ▸ takeBytes_append front rest⟩
  simp only [takeBytes] at h
  split at h
  · next hn =>
    simp only [Except.ok.injEq, Prod.mk.injEq] at h
    obtain ⟨rfl, rfl⟩ := h
    exact ⟨(List.take_append_drop n bytes).symm, hn⟩
  · cases h

/-- Apply `step` again and again to what it leaves, at most `limit` times, and put the results
behind those in `found`, which are in reverse order. -/
def repeatStep {α : Type} (step : List UInt8 → Except Fault (α × List UInt8)) :
    (limit : Nat) → (found : List α) → List UInt8 → List α × List UInt8
  | 0, found, bytes => (found.reverse, bytes)
  | limit + 1, found, bytes =>
    match step bytes with
    | .ok (a, rest) => repeatStep step limit (a :: found) rest
    | .error _ => (found.reverse, bytes)

/-- All items that `step` reads one after the other, and the bytes at which it fails. An item
takes a byte at least, so there are no more of them than bytes. -/
def readAll {α : Type} (step : List UInt8 → Except Fault (α × List UInt8))
    (bytes : List UInt8) : List α × List UInt8 :=
  repeatStep step bytes.length [] bytes

section

variable {α : Type} {step : List UInt8 → Except Fault (α × List UInt8)}

theorem repeatStep_eq (limit : Nat) (found : List α) (bytes : List UInt8) :
    repeatStep step limit found bytes =
      (found.reverse ++ (repeatStep step limit [] bytes).1,
        (repeatStep step limit [] bytes).2) := by
  induction limit generalizing found bytes with
  | zero => simp [repeatStep]
  | succ limit ih =>
    simp only [repeatStep]
    split
    · next a rest _ => rw [ih (a :: found), ih [a]]; simp
    · simp

/-- Any two limits do alike that leave room for one item for each byte. -/
theorem repeatStep_congr (shrinks : ∀ b a r, step b = .ok (a, r) → r.length < b.length)
    {m n : Nat} (found : List α) {bytes : List UInt8} (hm : bytes.length ≤ m)
    (hn : bytes.length ≤ n) : repeatStep step m found bytes = repeatStep step n found bytes := by
  have stop : ∀ limit (found : List α), repeatStep step limit found [] = (found.reverse, []) := by
    intro limit found
    cases limit with
    | zero => rfl
    | succ limit =>
      cases h : step [] with
      | error _ => simp [repeatStep, h]
      | ok result => exact absurd (shrinks _ _ _ h) (Nat.not_lt_zero _)
  induction m generalizing n found bytes with
  | zero => rw [List.eq_nil_of_length_eq_zero (Nat.le_zero.1 hm), stop, stop]
  | succ m ih =>
    cases n with
    | zero => rw [List.eq_nil_of_length_eq_zero (Nat.le_zero.1 hn), stop, stop]
    | succ n =>
      simp only [repeatStep]
      cases h : step bytes with
      | error _ => rfl
      | ok result =>
        have hr := shrinks _ _ _ h
        exact ih (result.1 :: found) (by omega) (by omega)

theorem readAll_of_ok (shrinks : ∀ b a r, step b = .ok (a, r) → r.length < b.length)
    {bytes rest : List UInt8} {a : α} (h : step bytes = .ok (a, rest)) :
    readAll step bytes = (a :: (readAll step rest).1, (readAll step rest).2) := by
  have hr := shrinks _ _ _ h
  obtain ⟨n, hn⟩ : ∃ n, bytes.length = n + 1 := ⟨bytes.length - 1, by omega⟩
  rw [readAll, hn, repeatStep, h]
  show repeatStep step n [a] rest = _
  rw [repeatStep_eq, repeatStep_congr shrinks [] (n := rest.length) (by omega) (Nat.le_refl _)]
  rfl

theorem readAll_of_error {bytes : List UInt8} {fault : Fault} (h : step bytes = .error fault) :
    readAll step bytes = ([], bytes) := by
  cases bytes with
  | nil => rfl
  | cons b bytes => simp [readAll, repeatStep, h]

end

end HelloExtensions
