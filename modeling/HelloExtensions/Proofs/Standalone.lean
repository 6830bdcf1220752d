import HelloExtensions.Catalogue
import HelloExtensions.Proofs.Spelling.Layout

/-!
Contents read on their own. A content refers to the length that the extension around it declares,
from inside as many records as it has put around the reference itself. If the same length is given
beside a content that is read on its own, every reference finds the same number, so the content
has the same value or the same fault. Only the number of a type is not found outside an extension,
and only the content of GREASE asks for it.
-/
namespace HelloExtensions

open ExtensionType Reading Registry

mutual

/-- Whether a field of the schema is the number of the type of the extension. -/
def Schema.asksType : Schema → Bool
  | .region _ content => content.asksType
  | .many item => item.asksType
  | .single item => item.asksType
  | .optional content => content.asksType
  | .onlyIf _ _ content => content.asksType
  | .ifElse _ _ yes no => yes.asksType || no.asksType
  | .record fields => fields.asksType
  | _ => false

def Fields.asksType : Fields → Bool
  | .done => false
  | .label _ _ more => more.asksType
  | .typeNumber _ _ => true
  | .check _ more => more.asksType
  | .field _ schema more => schema.asksType || more.asksType

end

section

variable {a b : Value} (h : a.entry Scope.lengthName = b.entry Scope.lengthName)

include h

theorem Scope.length_nested_congr (depth : Nat) :
    Scope.length (Scope.nested a depth) depth = Scope.length (Scope.nested b depth) depth := by
  rw [Scope.length_nested, Scope.length_nested, h]

theorem Scope.remaining_nested_congr (depth less : Nat) :
    Scope.remaining (Scope.nested a depth) depth less =
      Scope.remaining (Scope.nested b depth) depth less := by
  rw [Scope.remaining, Scope.remaining, Scope.length_nested_congr h]

mutual

/-- What is read depends on the declared length and on nothing else around the schema. -/
theorem Schema.decode_congr (schema : Schema) (depth : Nat)
    (hout : schema.refersOut depth = true) (hasks : schema.asksType = false) :
    schema.decode (Scope.nested a depth) = schema.decode (Scope.nested b depth) := by
  funext bytes
  cases schema with
  | uint width => rw [Schema.decode, Schema.decode]
  | code registry => rw [Schema.decode, Schema.decode]
  | rest => rw [Schema.decode, Schema.decode]
  | bytes up less =>
    simp only [Schema.refersOut, beq_iff_eq] at hout
    subst up
    rw [Schema.decode, Schema.decode, Scope.remaining_nested_congr h]
  | region width content =>
    have hcontent := Schema.decode_congr content depth hout hasks
    rw [Schema.decode, Schema.decode, hcontent]
  | many item =>
    have hitem := Schema.decode_congr item depth hout hasks
    rw [Schema.decode, Schema.decode, hitem]
  | single item =>
    have hitem := Schema.decode_congr item depth hout hasks
    rw [Schema.decode, Schema.decode, hitem]
  | optional content =>
    have hcontent := Schema.decode_congr content depth hout hasks
    rw [Schema.decode, Schema.decode, hcontent]
  | onlyIf up test content =>
    simp only [Schema.refersOut, Bool.and_eq_true, beq_iff_eq] at hout
    obtain ⟨rfl, hout⟩ := hout
    have hcontent := Schema.decode_congr content up hout hasks
    rw [Schema.decode, Schema.decode, Scope.length_nested_congr h, hcontent]
  | ifElse up test yes no =>
    simp only [Schema.refersOut, Bool.and_eq_true, beq_iff_eq] at hout
    simp only [Schema.asksType, Bool.or_eq_false_iff] at hasks
    obtain ⟨⟨rfl, hyes⟩, hno⟩ := hout
    have hfirst := Schema.decode_congr yes up hyes hasks.1
    have hsecond := Schema.decode_congr no up hno hasks.2
    rw [Schema.decode, Schema.decode, Scope.length_nested_congr h, hfirst, hsecond]
  | record fields =>
    have hfields := Fields.decode_congr fields (depth + 1) hout hasks
    simp only [Scope.nested] at hfields
    rw [Schema.decode, Schema.decode, hfields]

theorem Fields.decode_congr (fields : Fields) (depth : Nat)
    (hout : fields.refersOut depth = true) (hasks : fields.asksType = false) :
    fields.decode (Scope.nested a depth) = fields.decode (Scope.nested b depth) := by
  funext bytes
  cases fields with
  | done => rw [Fields.decode, Fields.decode]
  | label name text more =>
    have hmore := Fields.decode_congr more depth hout hasks
    rw [Fields.decode, Fields.decode, hmore]
  | typeNumber name more =>
    rw [Fields.asksType] at hasks
    cases hasks
  | check test more =>
    simp only [Fields.refersOut, Bool.and_eq_true, beq_iff_eq] at hout
    obtain ⟨rfl, hout⟩ := hout
    have hmore := Fields.decode_congr more 1 hout hasks
    rw [Fields.decode, Fields.decode, Scope.length_nested_congr h, hmore]
  | field name schema more =>
    simp only [Fields.refersOut, Bool.and_eq_true] at hout
    simp only [Fields.asksType, Bool.or_eq_false_iff] at hasks
    have hfirst := Schema.decode_congr schema depth hout.1 hasks.1
    have hmore := Fields.decode_congr more depth hout.2 hasks.2
    rw [Fields.decode, Fields.decode, hfirst, hmore]

end

end

/-- Bytes are missing, or a declared length is not the one it has to be. -/
def Mismatch.OfReading (reason : Mismatch) : Prop := reason.kind = .stream ∨ reason.kind = .check

/-- If there is a mismatch at all, reading can find it. -/
def FoundByReading {α : Type} (result : Except Fault α) : Prop :=
  ∀ path reason, result = .error (.mismatch path reason) → reason.OfReading

namespace FoundByReading

variable {α β : Type}

theorem ok (a : α) : FoundByReading (.ok a) := by
  intro path reason h
  cases h

theorem error {path : List String} {reason : Mismatch} (h : reason.OfReading) :
    FoundByReading (.error (.mismatch path reason) : Except Fault α) := by
  intro path' reason' heq
  cases heq
  exact h

theorem shape (result : Except ShapeError α) : FoundByReading (result.mapError Fault.shape) := by
  intro path reason h
  cases result with
  | error e => cases h
  | ok a => cases h

theorem bind {result : Except Fault α} {next : α → Except Fault β} (h : FoundByReading result)
    (hnext : ∀ a, FoundByReading (next a)) : FoundByReading (result >>= next) := by
  cases result with
  | error fault =>
    intro path reason heq
    cases heq
    exact h path reason rfl
  | ok a => exact hnext a

theorem under {result : Except Fault α} (h : FoundByReading result) (name : String) :
    FoundByReading (result.mapError (Fault.under name)) := by
  intro path reason heq
  cases result with
  | error fault =>
    cases fault with
    | mismatch inner found =>
      cases heq
      exact h inner reason rfl
    | shape e => cases heq
  | ok a => cases heq

theorem takeBytes (n : Nat) (bytes : List UInt8) : FoundByReading (takeBytes n bytes) := by
  simp only [HelloExtensions.takeBytes]
  split
  · exact ok _
  · exact error (.inl rfl)

theorem takeAmount (size : Amount) (bytes : List UInt8) :
    FoundByReading (takeAmount size bytes) := by
  unfold HelloExtensions.takeAmount
  split
  · exact error (.inl rfl)
  · split
    · split
      · exact error (.inl rfl)
      · exact takeBytes _ _
    · exact error (.inl rfl)

theorem holds (test : LengthTest) (length : Value) : FoundByReading (test.holds length) := by
  cases test with
  | equals n => exact ok _
  | positive =>
    rw [LengthTest.holds]
    split
    · exact ok _
    · exact shape (.error .unsupported)

theorem remaining (scope : Value) (up less : Nat) :
    FoundByReading (Scope.remaining scope up less) := by
  rw [Scope.remaining]
  refine bind (shape _) fun length => ?_
  split
  · exact ok _
  · exact shape (.error .unsupported)

mutual

theorem decode (schema : Schema) (scope : Value) (bytes : List UInt8) :
    FoundByReading (schema.decode scope bytes) := by
  cases schema with
  | uint width =>
    rw [Schema.decode]
    exact (takeBytes _ _).bind fun _ => ok _
  | code registry =>
    rw [Schema.decode]
    exact (takeBytes _ _).bind fun _ => ok _
  | rest =>
    rw [Schema.decode]
    exact ok _
  | bytes up less =>
    rw [Schema.decode]
    exact (remaining _ _ _).bind fun _ => (takeAmount _ _).bind fun _ => ok _
  | region width content =>
    rw [Schema.decode]
    refine (takeBytes _ _).bind fun _ => (takeBytes _ _).bind fun _ => ?_
    exact (decode content scope _).bind fun _ => ok _
  | many item =>
    rw [Schema.decode]
    exact ok _
  | single item =>
    rw [Schema.decode]
    exact (decode item scope bytes).bind fun _ => ok _
  | optional content =>
    rw [Schema.decode]
    split
    · exact ok _
    · exact ok _
  | onlyIf up test content =>
    rw [Schema.decode]
    refine (shape _).bind fun length => (holds test length).bind fun holds => ?_
    split
    · exact decode content scope bytes
    · exact ok _
  | ifElse up test yes no =>
    rw [Schema.decode]
    refine (shape _).bind fun length => (holds test length).bind fun holds => ?_
    split
    · exact decode yes scope bytes
    · exact decode no scope bytes
  | record fields =>
    rw [Schema.decode]
    exact (decodeFields fields _ bytes).bind fun _ => ok _

theorem decodeFields (fields : Fields) (scope : Value) (bytes : List UInt8) :
    FoundByReading (fields.decode scope bytes) := by
  cases fields with
  | done =>
    rw [Fields.decode]
    exact ok _
  | label name text more =>
    rw [Fields.decode]
    exact (decodeFields more scope bytes).bind fun _ => ok _
  | typeNumber name more =>
    rw [Fields.decode]
    exact (shape _).bind fun _ => (decodeFields more scope bytes).bind fun _ => ok _
  | check test more =>
    rw [Fields.decode]
    refine (shape _).bind fun length => (holds test length).bind fun holds => ?_
    split
    · exact decodeFields more scope bytes
    · exact error (.inr rfl)
  | field name schema more =>
    rw [Fields.decode]
    refine ((decode schema scope bytes).under name).bind fun result => ?_
    exact (decodeFields more scope result.2).bind fun _ => ok _

end

end FoundByReading

namespace Content

/-- The numbers of the types whose content has this layout, GREASE apart: that of the name under
which the layout is listed, or any number without a listed name for the unknown layout. -/
inductive Serves : Schema → Nat → Prop
  | listed (name : String) {schema : Schema} {number : Nat}
      (hlisted : contents.lookup name = some schema) (hgrease : name ≠ "grease")
      (hnumber : extensionTypes.number? name = some number) : Serves schema number
  | unknown {number : Nat} (hgrease : isGrease number = false)
      (hunlisted : ∀ name, extensionTypes.name? number = some name →
        contents.lookup name = none) :
      Serves unknown number

/-- The layout alone, with the length of the body beside it. -/
def decodeAlone (schema : Schema) (body : List UInt8) : Except Fault Value :=
  (Catalogue.Layout.schema schema).decode (some (.int body.length)) body

theorem layout_of_serves {schema : Schema} {number : Nat} (h : Serves schema number) :
    Extension.layout number (extensionTypes.name? number) = schema := by
  have hcontents : ∀ c ∈ contents, c.1 ≠ "grease" →
      (extensionTypes.number? c.1).all (fun number : Nat => !isGrease number) = true := by
    decide
  unfold Extension.layout
  cases h with
  | listed name hlisted hgrease hnumber =>
    have hordinary := hcontents _ (Entries.mem_of_lookup_eq_some hlisted) hgrease
    have hname : extensionTypes.name? number = some name :=
      (Registry.number?_eq_some_iff_name? extensionTypes_wellFormed).mp hnumber
    have hnot : isGrease number = false := by
      rw [hnumber] at hordinary
      simpa only [Option.all_some, Bool.not_eq_true'] using hordinary
    rw [hnot, if_neg Bool.false_ne_true, hname, Option.bind_some, hlisted, Option.getD_some]
  | unknown hgrease hunlisted =>
    rw [hgrease, if_neg Bool.false_ne_true]
    cases hname : extensionTypes.name? number with
    | none => rfl
    | some name => rw [Option.bind_some, hunlisted name hname, Option.getD_none]

theorem asksType_of_serves {schema : Schema} {number : Nat} (h : Serves schema number) :
    schema.asksType = false := by
  have hcontents : ∀ c ∈ contents, c.1 ≠ "grease" → c.2.asksType = false := by decide
  cases h with
  | listed name hlisted hgrease hnumber =>
    exact hcontents _ (Entries.mem_of_lookup_eq_some hlisted) hgrease
  | unknown hgrease hunlisted => rfl

/-- A content that is read on its own is the one that is read in an extension. -/
theorem decodeAlone_eq {schema : Schema} {number : Nat} (h : Serves schema number)
    (body : List UInt8) :
    decodeAlone schema body = Extension.decodeContent (extensionTypes.codePoint number) body := by
  have hlayout : Extension.layout ((extensionTypes.codePoint number).number)
      (extensionTypes.codePoint number).name? = schema := layout_of_serves h
  have hout : schema.refersOut 0 = true := hlayout ▸ Extension.refersOut_layout _ _
  have hlength : (Scope.outermost (some (.int body.length))).entry Scope.lengthName =
      (Extension.scope (extensionTypes.codePoint number) body.length).entry Scope.lengthName := rfl
  have hread := Schema.decode_congr hlength schema 0 hout (asksType_of_serves h)
  simp only [Scope.nested] at hread
  rw [decodeAlone, Catalogue.Layout.decode, Extension.decodeContent, hlayout, hread]
  cases schema.decode (Extension.scope (extensionTypes.codePoint number) body.length) body with
  | error fault => rfl
  | ok result => rfl

theorem ofReading_of_decodeAlone {schema : Schema} {body : List UInt8} {path : List String}
    {reason : Mismatch} (h : decodeAlone schema body = .error (.mismatch path reason)) :
    reason.OfReading := by
  apply FoundByReading.decode schema (Scope.outermost (some (.int body.length))) body path reason
  rw [decodeAlone, Catalogue.Layout.decode] at h
  cases hread : schema.decode (Scope.outermost (some (.int body.length))) body with
  | error fault =>
    rw [hread] at h
    cases h
    rfl
  | ok result =>
    rw [hread] at h
    cases h

/-- On its own, with the length of the body beside it, a content has exactly the values that it
has in an extension. If it has none, then what is wrong is the cause of the error in which the
extension ends: bytes are missing or a length is not the one it has to be. -/
theorem decodeAlone_agrees {schema : Schema} {envelope : Envelope}
    (h : Serves schema envelope.number) :
    (∀ content, decodeAlone schema envelope.body = .ok content ↔
      ∃ ext, Extension.decode envelope.bytes = .ok (ext, []) ∧ ext.content = content) ∧
    ∀ fault, decodeAlone schema envelope.body = .error fault →
      ∃ path reason e, fault = .mismatch path reason ∧
        Extension.decode envelope.bytes = .error e ∧ e.IsVerification ∧ e.cause? = some reason ∧
        (reason.kind = .stream ∨ reason.kind = .check) := by
  have halone : decodeAlone schema envelope.body =
      Extension.decodeContent envelope.type envelope.body := decodeAlone_eq h envelope.body
  constructor
  · intro content
    rw [halone, envelope.decode_bytes, Envelope.extension]
    cases hcontent : Extension.decodeContent envelope.type envelope.body with
    | error fault => simp [Except.map]
    | ok found => simp [Except.map]
  · intro fault hfault
    have hinside := halone.symm.trans hfault
    obtain ⟨path, reason, rfl⟩ := Extension.wellShaped_decodeContent _ _ fault hinside
    have hextension : envelope.extension =
        .error (.malformed (.extension envelope.type envelope.body.length)
          ("extension_data" :: path) reason) := by
      rw [Envelope.extension, hinside]
      rfl
    have hdecode : Extension.decode envelope.bytes =
        .error (.malformed (.extension envelope.type envelope.body.length)
          ("extension_data" :: path) reason) := by
      rw [envelope.decode_bytes, hextension]
      rfl
    exact ⟨path, reason, _, rfl, hdecode, ExtensionError.isVerification_malformed _ _ _, rfl,
      ofReading_of_decodeAlone hfault⟩

/-- A request for a status takes what the length beside it leaves after one byte, and a version is
told from a list of versions by that length. A length of two bytes is cut off in either setting. -/
theorem decodeAlone_agrees_occurs :
    (∃ content ext, decodeAlone statusRequest [1, 7, 8] = .ok content ∧
      Extension.decode [0, 5, 0, 3, 1, 7, 8] = .ok (ext, []) ∧ ext.content = content) ∧
    (∃ content ext, decodeAlone supportedVersions [3, 4] = .ok content ∧
      Extension.decode [0, 43, 0, 2, 3, 4] = .ok (ext, []) ∧ ext.content = content) ∧
    ∃ path reason e, decodeAlone recordSizeLimit [9] = .error (.mismatch path reason) ∧
      Extension.decode [0, 28, 0, 1, 9] = .error e ∧ e.cause? = some reason ∧
      (reason.kind = .stream ∨ reason.kind = .check) := by
  refine ⟨?_, ?_, ?_⟩
  · have hserves : Serves statusRequest 5 :=
      .listed "status_request" rfl (by decide) rfl
    have hagrees := (@decodeAlone_agrees _ ⟨5, [1, 7, 8], by decide, by decide⟩ hserves).1
    obtain ⟨ext, hdecode, hcontent⟩ := (hagrees _).mp rfl
    exact ⟨_, ext, rfl, hdecode, hcontent⟩
  · have hserves : Serves supportedVersions 43 :=
      .listed "supported_versions" rfl (by decide) rfl
    have hagrees := (@decodeAlone_agrees _ ⟨43, [3, 4], by decide, by decide⟩ hserves).1
    obtain ⟨ext, hdecode, hcontent⟩ := (hagrees _).mp rfl
    exact ⟨_, ext, rfl, hdecode, hcontent⟩
  · have hserves : Serves recordSizeLimit 28 :=
      .listed "record_size_limit" rfl (by decide) rfl
    have hagrees := (@decodeAlone_agrees _ ⟨28, [9], by decide, by decide⟩ hserves).2
    obtain ⟨path, reason, e, hfault, hdecode, -, hcause, hkind⟩ := hagrees _ rfl
    exact ⟨path, reason, e, congrArg Except.error hfault, hdecode, hcause, hkind⟩

end Content
end HelloExtensions
