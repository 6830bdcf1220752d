import HelloExtensions.Proofs.ItemForm
import HelloExtensions.Proofs.Spelling

/-!
Spellings are what is written. While a value is written, the records around a schema have the
fields that they are given. As long as none of these hides what is around, a schema that refers
to the record a certain number of records further out finds there what it refers to, and so the
bytes that spell a value are written for it.
-/
namespace HelloExtensions

open Reading

namespace Scope

/-- The scope is `depth` records inside the outer one, and none of these hides it. -/
inductive Within (outer : Value) : (depth : Nat) → (scope : Value) → Prop
  | here : Within outer 0 outer
  | inside {depth : Nat} {scope : Value} {fields : Entries Value}
      (hscope : Within outer depth scope) (hplain : ∀ name ∈ reserved, fields.lookup name = none) :
      Within outer (depth + 1) (Scope.inside fields scope)

/-- What a schema that is written can refer to: a declared length and the number of a type. No
field has a name that keeps what is optional from being written. -/
structure Declares (outer : Value) (n : Nat) (number : Int) : Prop where
  length_eq : ∃ length, outer.entry lengthName = .ok length ∧ length.integer? = some (n : Int)
  number_eq : typeNumber (inside [] outer) = .ok number
  plain : hasTakenName outer = false

section

variable {outer scope : Value} {depth n : Nat} {number : Int}

theorem ascend_of_within (h : Within outer depth scope) : ascend depth scope = .ok outer := by
  induction h with
  | here => rfl
  | inside _ hplain ih =>
    rw [ascend_inside (hplain aroundName List.mem_cons_self)]
    exact ih

theorem Declares.exists_length (h : Declares outer n number) (hin : Within outer depth scope) :
    ∃ found, length scope depth = .ok found ∧ found.integer? = some (n : Int) := by
  obtain ⟨found, hentry, hinteger⟩ := h.length_eq
  refine ⟨found, ?_, hinteger⟩
  rw [length, ascend_of_within hin]
  show (outer.entry lengthName).mapError Fault.shape = _
  rw [hentry]
  rfl

/-- The record around the innermost one is the outer one. -/
theorem Declares.typeNumber_eq (h : Declares outer n number) (hin : Within outer 1 scope) :
    typeNumber scope = .ok number := by
  cases hin with
  | @inside _ _ fields hscope hplain =>
    cases hscope
    rw [← h.number_eq]
    have haround : (inside fields outer).entry aroundName = (inside [] outer).entry aroundName := by
      have hnone := hplain aroundName List.mem_cons_self
      simp [inside, Value.entry, List.lookup_append, hnone]
    rw [typeNumber, typeNumber, haround]

theorem hasTakenName_inside {fields : Entries Value}
    (hplain : ∀ name ∈ reserved, fields.lookup name = none) (around : Value) :
    hasTakenName (inside fields around) = false := by
  rw [hasTakenName, List.any_eq_false]
  intro name hname
  have hnone := hplain name (List.mem_cons_of_mem _ hname)
  have hne : name ≠ aroundName := by
    rintro rfl
    exact absurd hname (by decide)
  have hb : (name == aroundName) = false := beq_eq_false_iff_ne.mpr hne
  simp [inside, Value.field?, List.lookup_append, hnone, List.lookup_cons, hb]

theorem Declares.hasTakenName_eq (h : Declares outer n number) (hin : Within outer depth scope) :
    hasTakenName scope = false := by
  cases hin with
  | here => exact h.plain
  | inside _ hplain => exact hasTakenName_inside hplain _

end

end Scope

theorem Value.amount?_of_integer? {value : Value} {n : Int} (h : value.integer? = some n) :
    value.amount? = some (.whole n) := by
  cases value with
  | decimal m p => cases h
  | _ =>
    simp only [Value.amount?, h]
    rfl

theorem LengthTest.holds_of_integer? {length : Value} {n : Nat}
    (h : length.integer? = some (n : Int)) (test : LengthTest) :
    test.holds length = .ok (decide (test.Passes n)) := by
  rw [← test.holds_int n]
  cases test <;> simp only [LengthTest.holds, Value.amount?_of_integer? h] <;> rfl

/-- A text is looked up by itself and is no integer. -/
theorem Value.key_of_text? {value : Value} {name : String} (h : value.text? = some name) :
    value.integer? = none ∧ value.key = .ok (some name) := by
  cases value with
  | text s => exact ⟨rfl, congrArg Except.ok h⟩
  | code c =>
    obtain ⟨number, name?⟩ := c
    cases name? with
    | none => cases h
    | some s => exact ⟨rfl, congrArg Except.ok h⟩
  | _ => cases h

theorem Schema.encodeCode_of_denotes {registry : Registry} {given : Value} {n : Nat}
    (h : registry.Denotes given n) (hn : n < BigEndian.capacity registry.width) :
    Schema.encodeCode registry given = .ok (BigEndian.encode registry.width n) := by
  have hencode := ItemForm.encodeUInt_of_lt hn
  rcases h with hinteger | ⟨name, htext, hnumber⟩
  · rw [Schema.encodeCode, hinteger]
    exact hencode
  · obtain ⟨hinteger, hkey⟩ := Value.key_of_text? htext
    rw [Schema.encodeCode, hinteger, hkey]
    simp only [mapError_ok, bind, Except.bind, Option.bind_some, hnumber]
    exact hencode

theorem Schema.encodeBytes_of_length {b : List UInt8} {n less : Nat} (h : b.length + less = n) :
    Schema.encodeBytes (.whole ((n : Int) - less)) (.bytes b) = .ok b := by
  have hsize : ((n : Int) - less) = (b.length : Nat) := by omega
  have hbelow : (Amount.whole b.length).isBelow 0 = false := by
    simp only [Amount.isBelow, decide_eq_false_iff_not]
    omega
  have hequals : (Amount.whole b.length).equals b.length = true := by
    simp only [Amount.equals, beq_self_eq_true]
  rw [hsize]
  simp only [Schema.encodeBytes, Value.integer?, hbelow, hequals, Bool.false_eq_true, if_false,
    if_true]

theorem Schema.exists_fault_of_refusesNull (schema : Schema) (h : schema.refusesNull = true)
    (scope : Value) : ∃ fault, schema.encode scope .null = .error fault := by
  induction schema using Schema.rec (motive_2 := fun _ => True) with
  | uint width => exact ⟨_, by rw [Schema.encode]; rfl⟩
  | code registry => exact ⟨_, by rw [Schema.encode]; rfl⟩
  | rest => exact ⟨_, by rw [Schema.encode]; rfl⟩
  | region width content ih =>
    obtain ⟨fault, hfault⟩ := ih h
    exact ⟨fault, by rw [Schema.encode, hfault]; rfl⟩
  | bytes | many | single | optional | onlyIf | ifElse | record => cases h
  | done | label | typeNumber | check | field => trivial

theorem Schema.encodeAll_of_spellsAll {item : Schema} {scope : Value} {n : Nat} {number : Int}
    (hitem : ∀ given read b, item.Spells n number given read b → item.encode scope given = .ok b)
    {given read : List Value} {b : List UInt8} (h : item.SpellsAll n number given read b) :
    Schema.encodeAll (item.encode scope) given = .ok b := by
  induction given generalizing read b with
  | nil =>
    cases h
    rfl
  | cons first givens ih =>
    cases h with
    | cons hfirst hothers =>
      rw [Schema.encodeAll, hitem _ _ _ hfirst, ih hothers]
      rfl

section

variable {outer : Value} {n : Nat} {number : Int}

mutual

/-- What is spelled is written. -/
theorem Schema.encode_of_spells (h : Scope.Declares outer n number) (schema : Schema)
    {depth : Nat} {scope : Value} (hin : Scope.Within outer depth scope)
    (hout : schema.refersOut depth = true) (horderly : schema.orderly = true)
    {given read : Value} {b : List UInt8} (hspells : schema.Spells n number given read b) :
    schema.encode scope given = .ok b := by
  cases hspells with
  | uint hgiven hn =>
    rw [Schema.encode, hgiven]
    exact ItemForm.encodeUInt_of_lt hn
  | code hgiven hn =>
    rw [Schema.encode]
    exact Schema.encodeCode_of_denotes hgiven hn
  | rest => rw [Schema.encode, Schema.encodeRest]
  | @bytes up less _ hlength =>
    simp only [Schema.refersOut, beq_iff_eq] at hout
    subst up
    obtain ⟨found, hfound, hinteger⟩ := h.exists_length hin
    rw [Schema.encode, Scope.remaining, hfound]
    simp only [bind, Except.bind, Value.amount?_of_integer? hinteger, pure, Except.pure,
      Amount.minus]
    exact Schema.encodeBytes_of_length hlength
  | @region width content _ _ _ hcontent hb =>
    simp only [Schema.orderly, Bool.and_eq_true] at horderly
    rw [Schema.encode, Schema.encode_of_spells h content hin hout horderly.1 hcontent]
    show Schema.encodeRegion width _ = _
    rw [Schema.encodeRegion, ItemForm.encodeUInt_of_lt hb]
    rfl
  | @many item _ _ _ hitems =>
    simp only [Schema.orderly, Bool.and_eq_true] at horderly
    rw [Schema.encode]
    show Schema.encodeAll (item.encode scope) _ = _
    exact Schema.encodeAll_of_spellsAll
      (fun _ _ _ hitem => Schema.encode_of_spells h item hin hout horderly.1.1 hitem) hitems
  | @single item _ _ _ hitem =>
    rw [Schema.encode, Schema.encodeSingle]
    show Schema.encodeAll (item.encode scope) [_] = _
    rw [Schema.encodeAll, Schema.encode_of_spells h item hin hout horderly hitem]
    simp [Schema.encodeAll, bind, Except.bind, pure, Except.pure]
  | @present content _ _ _ hcontent =>
    simp only [Schema.orderly, Bool.and_eq_true] at horderly
    rw [Schema.encode, h.hasTakenName_eq hin,
      Schema.encode_of_spells h content hin hout horderly.1.1.1 hcontent]
    rfl
  | absent content =>
    simp only [Schema.orderly, Bool.and_eq_true] at horderly
    obtain ⟨fault, hfault⟩ := content.exists_fault_of_refusesNull horderly.2 scope
    rw [Schema.encode, h.hasTakenName_eq hin, hfault]
    rfl
  | @passed up test content _ _ _ htest hcontent =>
    simp only [Schema.refersOut, Bool.and_eq_true, beq_iff_eq] at hout
    obtain ⟨rfl, hout⟩ := hout
    obtain ⟨found, hfound, hinteger⟩ := h.exists_length hin
    simp only [Schema.encode, hfound, bind, Except.bind, test.holds_of_integer? hinteger, htest,
      decide_true, if_true]
    exact Schema.encode_of_spells h content hin hout horderly hcontent
  | @failed up test content htest =>
    simp only [Schema.refersOut, Bool.and_eq_true, beq_iff_eq] at hout
    obtain ⟨rfl, -⟩ := hout
    obtain ⟨found, hfound, hinteger⟩ := h.exists_length hin
    simp only [Schema.encode, hfound, bind, Except.bind, test.holds_of_integer? hinteger, htest,
      decide_false, Bool.false_eq_true, if_false]
    rfl
  | @yes up test yes no _ _ _ htest hyes =>
    simp only [Schema.refersOut, Bool.and_eq_true, beq_iff_eq] at hout
    obtain ⟨⟨rfl, hout⟩, -⟩ := hout
    simp only [Schema.orderly, Bool.and_eq_true] at horderly
    obtain ⟨found, hfound, hinteger⟩ := h.exists_length hin
    simp only [Schema.encode, hfound, bind, Except.bind, test.holds_of_integer? hinteger, htest,
      decide_true, if_true]
    exact Schema.encode_of_spells h yes hin hout horderly.1 hyes
  | @no up test yes no _ _ _ htest hno =>
    simp only [Schema.refersOut, Bool.and_eq_true, beq_iff_eq] at hout
    obtain ⟨⟨rfl, -⟩, hout⟩ := hout
    simp only [Schema.orderly, Bool.and_eq_true] at horderly
    obtain ⟨found, hfound, hinteger⟩ := h.exists_length hin
    simp only [Schema.encode, hfound, bind, Except.bind, test.holds_of_integer? hinteger, htest,
      decide_false, Bool.false_eq_true, if_false]
    exact Schema.encode_of_spells h no hin hout horderly.2 hno
  | @record fields given _ _ hnames hfields =>
    simp only [Schema.orderly, Bool.and_eq_true, decide_eq_true_eq] at horderly
    obtain ⟨horderly, -, hreserved⟩ := horderly
    have hplain : ∀ name ∈ Scope.reserved, given.lookup name = none := by
      intro name hname
      rw [List.lookup_eq_none_iff]
      intro entry hentry
      have hne : entry.1 ≠ name := fun he => hreserved name hname (he ▸ hnames entry hentry)
      exact bne_iff_ne.mpr hne.symm
    rw [Schema.encode]
    exact Fields.encode_of_spells h fields (hin.inside hplain) hout horderly hfields

theorem Fields.encode_of_spells (h : Scope.Declares outer n number) (fields : Fields)
    {depth : Nat} {scope : Value} (hin : Scope.Within outer depth scope)
    (hout : fields.refersOut depth = true) (horderly : fields.orderly = true)
    {given read : List (String × Value)} {b : List UInt8}
    (hspells : fields.Spells n number given read b) :
    fields.encode scope given = .ok b := by
  cases hspells with
  | done => rw [Fields.encode]
  | @label _ _ name text more _ hmore =>
    rw [Fields.encode]
    exact Fields.encode_of_spells h more hin hout horderly hmore
  | @typeNumber _ _ name more _ hmore =>
    simp only [Fields.refersOut, Bool.and_eq_true, beq_iff_eq] at hout
    obtain ⟨rfl, hout⟩ := hout
    rw [Fields.encode, h.typeNumber_eq hin]
    exact Fields.encode_of_spells h more hin hout horderly hmore
  | @check _ _ test more _ htest hmore =>
    simp only [Fields.refersOut, Bool.and_eq_true, beq_iff_eq] at hout
    obtain ⟨rfl, hout⟩ := hout
    obtain ⟨found, hfound, hinteger⟩ := h.exists_length hin
    simp only [Fields.encode, hfound, bind, Except.bind, test.holds_of_integer? hinteger, htest,
      decide_true, if_true]
    exact Fields.encode_of_spells h more hin hout horderly hmore
  | @field given _ name schema more found _ first others hfound hfield hmore =>
    simp only [Fields.refersOut, Bool.and_eq_true] at hout
    simp only [Fields.orderly, Bool.and_eq_true] at horderly
    have hentry : (Value.record given).entry name = .ok found := by
      simp only [Value.entry, hfound]
    rw [Fields.encode, hentry, hfound, mapError_ok, Option.getD_some, ite_self]
    simp only [bind, Except.bind, Schema.encode_of_spells h schema hin hout.1 horderly.1.1 hfield,
      Fields.encode_of_spells h more hin hout.2 horderly.1.2 hmore, mapError_ok]
    rfl

end

end

end HelloExtensions
