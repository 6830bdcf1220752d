import HelloExtensions.Extension
import HelloExtensions.Proofs.Reading

/-!
What the records around a schema have to offer it. While bytes are read, a record has no field
yet that could hide what is around it, so a schema that refers to the record a certain number
of records further out finds there what it refers to. Such a schema never asks for something
that is missing: whatever is wrong with the bytes, the fault is a mismatch with its place.
-/
namespace HelloExtensions

open Reading

namespace Scope

/-- The scope of `depth` records one inside the other, none of which has a field yet. -/
def nested (scope : Value) : (depth : Nat) → Value
  | 0 => scope
  | depth + 1 => inside [] (nested scope depth)

theorem ascend_nested (scope : Value) (depth : Nat) :
    ascend depth (nested scope depth) = .ok scope := by
  induction depth with
  | zero => rfl
  | succ depth ih =>
    rw [nested, ascend_inside rfl]
    exact ih

theorem length_nested (scope : Value) (depth : Nat) :
    length (nested scope depth) depth = (scope.entry lengthName).mapError .shape := by
  rw [length, ascend_nested]
  rfl

theorem remaining_of_length {scope : Value} {up less n : Nat}
    (h : length scope up = .ok (.int n)) :
    remaining scope up less = .ok (.whole (n - less)) := by
  rw [remaining, h]
  rfl

end Scope

/-- A declared length passes the test. -/
def LengthTest.Passes (length : Nat) : LengthTest → Prop
  | .equals n => (length : Int) = n
  | .positive => 0 < length

instance (length : Nat) (test : LengthTest) : Decidable (test.Passes length) :=
  match test with
  | .equals n => inferInstanceAs (Decidable ((length : Int) = n))
  | .positive => inferInstanceAs (Decidable (0 < length))

theorem LengthTest.holds_int (test : LengthTest) (n : Nat) :
    test.holds (.int n) = .ok (decide (test.Passes n)) := by
  cases test with
  | equals k => rfl
  | positive =>
    show Except.ok (decide ((0 : Int) < n)) = Except.ok (decide (0 < n))
    simp only [Int.natCast_pos]

section

variable {scope : Value} {n : Nat}

theorem Schema.decode_onlyIf_of_length {up : Nat} (h : Scope.length scope up = .ok (.int n))
    (test : LengthTest) (content : Schema) (bytes : List UInt8) :
    (Schema.onlyIf up test content).decode scope bytes =
      if test.Passes n then content.decode scope bytes else .ok (.null, bytes) := by
  rw [Schema.decode, h]
  show (test.holds (.int n) >>= _) = _
  rw [LengthTest.holds_int]
  by_cases hp : test.Passes n <;> simp [bind, Except.bind, pure, Except.pure, hp]

theorem Schema.decode_ifElse_of_length {up : Nat} (h : Scope.length scope up = .ok (.int n))
    (test : LengthTest) (yes no : Schema) (bytes : List UInt8) :
    (Schema.ifElse up test yes no).decode scope bytes =
      if test.Passes n then yes.decode scope bytes else no.decode scope bytes := by
  rw [Schema.decode, h]
  show (test.holds (.int n) >>= _) = _
  rw [LengthTest.holds_int]
  by_cases hp : test.Passes n <;> simp [bind, Except.bind, hp]

theorem Fields.decode_check_of_length (h : Scope.length scope 1 = .ok (.int n))
    (test : LengthTest) (more : Fields) (bytes : List UInt8) :
    (Fields.check test more).decode scope bytes =
      if test.Passes n then more.decode scope bytes
      else .error (.mismatch [] .lengthCheck) := by
  rw [Fields.decode, h]
  show (test.holds (.int n) >>= _) = _
  rw [LengthTest.holds_int]
  by_cases hp : test.Passes n <;> simp [bind, Except.bind, hp]

end

/-- A result that is no fault in the shape of a value. -/
def WellShaped {α : Type} (result : Except Fault α) : Prop :=
  ∀ fault, result = .error fault → ∃ path reason, fault = .mismatch path reason

namespace WellShaped

variable {α β : Type}

theorem ok (a : α) : WellShaped (.ok a) := by
  intro fault h
  cases h

theorem mismatch (path : List String) (reason : Mismatch) :
    WellShaped (.error (.mismatch path reason) : Except Fault α) := by
  intro fault h
  cases h
  exact ⟨path, reason, rfl⟩

theorem bind {result : Except Fault α} {next : α → Except Fault β} (h : WellShaped result)
    (hnext : ∀ a, result = .ok a → WellShaped (next a)) : WellShaped (result >>= next) := by
  cases result with
  | error fault =>
    obtain ⟨path, reason, rfl⟩ := h fault rfl
    exact mismatch path reason
  | ok a => exact hnext a rfl

theorem under {result : Except Fault α} (h : WellShaped result) (name : String) :
    WellShaped (result.mapError (Fault.under name)) := by
  cases result with
  | error fault =>
    obtain ⟨path, reason, rfl⟩ := h fault rfl
    exact mismatch (name :: path) reason
  | ok a => exact ok a

theorem takeBytes (n : Nat) (bytes : List UInt8) : WellShaped (takeBytes n bytes) := by
  simp only [HelloExtensions.takeBytes]
  split
  · exact ok _
  · exact mismatch _ _

theorem takeAmount (size : Amount) (bytes : List UInt8) : WellShaped (takeAmount size bytes) := by
  unfold HelloExtensions.takeAmount
  split
  · exact mismatch _ _
  · split
    · split
      · exact mismatch _ _
      · exact takeBytes _ _
    · exact mismatch _ _

end WellShaped

mutual

/-- Whatever the schema refers to belongs to the record that is `depth` records further out. -/
def Schema.refersOut (depth : Nat) : Schema → Bool
  | .uint _ => true
  | .code _ => true
  | .rest => true
  | .bytes up _ => up == depth
  | .region _ content => content.refersOut depth
  | .many item => item.refersOut depth
  | .single item => item.refersOut depth
  | .optional content => content.refersOut depth
  | .onlyIf up _ content => up == depth && content.refersOut depth
  | .ifElse up _ yes no => up == depth && yes.refersOut depth && no.refersOut depth
  | .record fields => fields.refersOut (depth + 1)

def Fields.refersOut (depth : Nat) : Fields → Bool
  | .done => true
  | .label _ _ more => more.refersOut depth
  | .typeNumber _ more => depth == 1 && more.refersOut depth
  | .check _ more => depth == 1 && more.refersOut depth
  | .field _ schema more => schema.refersOut depth && more.refersOut depth

end

/-- What a schema can refer to in a scope: a declared length and the number of a type. -/
structure Scope.Answers (scope : Value) (length : Nat) (number : Int) : Prop where
  length_eq : scope.entry Scope.lengthName = .ok (.int length)
  number_eq : Scope.typeNumber (Scope.inside [] scope) = .ok number

section

variable {scope : Value} {n : Nat} {number : Int}

theorem Scope.Answers.length_nested (h : Scope.Answers scope n number) (depth : Nat) :
    Scope.length (Scope.nested scope depth) depth = .ok (.int n) := by
  rw [Scope.length_nested, h.length_eq]
  rfl

mutual

theorem Schema.wellShaped_decode (h : Scope.Answers scope n number) (schema : Schema)
    (depth : Nat) (hout : schema.refersOut depth = true) (bytes : List UInt8) :
    WellShaped (schema.decode (Scope.nested scope depth) bytes) := by
  cases schema with
  | uint width =>
    rw [Schema.decode]
    exact (WellShaped.takeBytes _ _).bind fun _ _ => .ok _
  | code registry =>
    rw [Schema.decode]
    exact (WellShaped.takeBytes _ _).bind fun _ _ => .ok _
  | rest =>
    rw [Schema.decode]
    exact .ok _
  | bytes up less =>
    simp only [Schema.refersOut, beq_iff_eq] at hout
    subst up
    rw [Schema.decode, Scope.remaining_of_length (h.length_nested depth)]
    exact (WellShaped.takeAmount _ _).bind fun _ _ => .ok _
  | region width content =>
    rw [Schema.refersOut] at hout
    rw [Schema.decode]
    refine (WellShaped.takeBytes _ _).bind fun front _ => ?_
    refine (WellShaped.takeBytes _ _).bind fun inner _ => ?_
    exact (Schema.wellShaped_decode h content depth hout _).bind fun _ _ => .ok _
  | many item =>
    rw [Schema.decode]
    exact .ok _
  | single item =>
    rw [Schema.refersOut] at hout
    rw [Schema.decode]
    exact (Schema.wellShaped_decode h item depth hout bytes).bind fun _ _ => .ok _
  | optional content =>
    rw [Schema.decode]
    split
    · exact .ok _
    · exact .ok _
  | onlyIf up test content =>
    simp only [Schema.refersOut, Bool.and_eq_true, beq_iff_eq] at hout
    obtain ⟨rfl, hcontent⟩ := hout
    rw [Schema.decode_onlyIf_of_length (h.length_nested up)]
    split
    · exact Schema.wellShaped_decode h content up hcontent bytes
    · exact .ok _
  | ifElse up test yes no =>
    simp only [Schema.refersOut, Bool.and_eq_true, beq_iff_eq] at hout
    obtain ⟨⟨rfl, hyes⟩, hno⟩ := hout
    rw [Schema.decode_ifElse_of_length (h.length_nested up)]
    split
    · exact Schema.wellShaped_decode h yes up hyes bytes
    · exact Schema.wellShaped_decode h no up hno bytes
  | record fields =>
    rw [Schema.refersOut] at hout
    rw [Schema.decode]
    exact (Fields.wellShaped_decode h fields (depth + 1) hout bytes).bind fun _ _ => .ok _

theorem Fields.wellShaped_decode (h : Scope.Answers scope n number) (fields : Fields)
    (depth : Nat) (hout : fields.refersOut depth = true) (bytes : List UInt8) :
    WellShaped (fields.decode (Scope.nested scope depth) bytes) := by
  cases fields with
  | done =>
    rw [Fields.decode]
    exact .ok _
  | label name text more =>
    rw [Fields.refersOut] at hout
    rw [Fields.decode]
    exact (Fields.wellShaped_decode h more depth hout bytes).bind fun _ _ => .ok _
  | typeNumber name more =>
    simp only [Fields.refersOut, Bool.and_eq_true, beq_iff_eq] at hout
    obtain ⟨rfl, hmore⟩ := hout
    have hnumber : Scope.typeNumber (Scope.nested scope 1) = .ok number := h.number_eq
    rw [Fields.decode, hnumber]
    exact (Fields.wellShaped_decode h more 1 hmore bytes).bind fun _ _ => .ok _
  | check test more =>
    simp only [Fields.refersOut, Bool.and_eq_true, beq_iff_eq] at hout
    obtain ⟨rfl, hmore⟩ := hout
    rw [Fields.decode_check_of_length (h.length_nested 1)]
    split
    · exact Fields.wellShaped_decode h more 1 hmore bytes
    · exact .mismatch _ _
  | field name schema more =>
    simp only [Fields.refersOut, Bool.and_eq_true] at hout
    rw [Fields.decode]
    refine ((Schema.wellShaped_decode h schema depth hout.1 bytes).under name).bind ?_
    intro result _
    exact (Fields.wellShaped_decode h more depth hout.2 result.2).bind fun _ _ => .ok _

end

end

end HelloExtensions
