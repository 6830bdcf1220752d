import HelloExtensions.Proofs.Spelling.Layout
import HelloExtensions.Tracing
import Mathlib.Algebra.Group.Nat.Defs

/-!
Widths of numbers. No layout of a content has a number of more than four bytes, so the integers of
what is decoded have fewer digits than any limit allows, and the content of every extension that is
decoded is printed.
-/
namespace HelloExtensions

open Registry

mutual

/-- No number in the schema has more than four bytes. -/
def Schema.narrow : Schema → Bool
  | .uint width => width ≤ 4
  | .code registry => registry.width ≤ 4
  | .rest => true
  | .bytes _ _ => true
  | .region _ content => content.narrow
  | .many item => item.narrow
  | .single item => item.narrow
  | .optional content => content.narrow
  | .onlyIf _ _ content => content.narrow
  | .ifElse _ _ yes no => yes.narrow && no.narrow
  | .record fields => fields.narrow

def Fields.narrow : Fields → Bool
  | .done => true
  | .label _ _ more => more.narrow
  | .typeNumber _ more => more.narrow
  | .check _ more => more.narrow
  | .field _ schema more => schema.narrow && more.narrow

end

/-- All of the integers take up four bytes at most. -/
def Narrow (integers : List Int) : Prop := ∀ n ∈ integers, n.natAbs < BigEndian.capacity 4

namespace Narrow

variable {a b : List Int}

theorem nil : Narrow [] := fun _ h => by cases h

theorem append (ha : Narrow a) (hb : Narrow b) : Narrow (a ++ b) := by
  intro n hn
  rcases List.mem_append.mp hn with hfirst | hsecond
  · exact ha n hfirst
  · exact hb n hsecond

theorem of_lt {width n : Nat} (hwidth : width ≤ 4) (hn : n < BigEndian.capacity width) :
    Narrow [(n : Int)] := by
  intro m hm
  obtain rfl := List.mem_singleton.mp hm
  exact Nat.lt_of_lt_of_le hn (Nat.pow_le_pow_right (by decide) hwidth)

/-- No limit keeps them from being written. -/
theorem exceeded?_eq_none (h : Narrow a) (limit? : Option Text.Numeral.DigitLimit) :
    Text.Numeral.exceeded? limit? a = none := by
  refine Text.Numeral.exceeded?_of_all fun n hn => Text.Numeral.isWritten_iff.mpr fun limit _ => ?_
  have hten : BigEndian.capacity 4 ≤ 10 ^ 10 := by decide
  have hdigits : 10 ^ 10 ≤ 10 ^ limit.digits :=
    Nat.pow_le_pow_right (by decide) (Nat.le_trans (by decide) limit.threshold_le)
  exact Nat.lt_of_lt_of_le (h n hn) (Nat.le_trans hten hdigits)

end Narrow

section

variable {length : Nat} {number : Int}

theorem narrow_items {item : Schema} {given read : List Value} {b : List UInt8}
    (hitem : ∀ given read b, item.Spells length number given read b →
      Narrow read.literalIntegers)
    (h : item.SpellsAll length number given read b) : Narrow (Value.itemIntegers read) := by
  induction given generalizing read b with
  | nil =>
    cases h
    exact .nil
  | cons first givens ih =>
    cases h with
    | cons hfirst hothers => exact (hitem _ _ _ hfirst).append (ih hothers)

mutual

theorem Schema.narrow_of_spells (hnumber : Narrow [number]) (schema : Schema)
    {given read : Value} {b : List UInt8} (h : schema.Spells length number given read b)
    (hnarrow : schema.narrow = true) : Narrow read.literalIntegers := by
  cases h with
  | uint hgiven hn => exact .of_lt (of_decide_eq_true hnarrow) hn
  | code hgiven hn => exact .of_lt (of_decide_eq_true hnarrow) hn
  | rest => exact .nil
  | bytes hlength => exact .nil
  | region hcontent hb => exact Schema.narrow_of_spells hnumber _ hcontent hnarrow
  | many hitems =>
    refine narrow_items (fun _ _ _ hitem => ?_) hitems
    exact Schema.narrow_of_spells hnumber _ hitem hnarrow
  | single hitem => exact (Schema.narrow_of_spells hnumber _ hitem hnarrow).append .nil
  | present hcontent => exact Schema.narrow_of_spells hnumber _ hcontent hnarrow
  | absent => exact .nil
  | passed htest hcontent => exact Schema.narrow_of_spells hnumber _ hcontent hnarrow
  | failed htest => exact .nil
  | yes htest hyes =>
    exact Schema.narrow_of_spells hnumber _ hyes (Bool.and_eq_true_iff.mp hnarrow).1
  | no htest hno =>
    exact Schema.narrow_of_spells hnumber _ hno (Bool.and_eq_true_iff.mp hnarrow).2
  | record hnames hfields => exact Fields.narrow_of_spells hnumber _ hfields hnarrow

theorem Fields.narrow_of_spells (hnumber : Narrow [number]) (fields : Fields)
    {given read : List (String × Value)} {b : List UInt8}
    (h : fields.Spells length number given read b) (hnarrow : fields.narrow = true) :
    Narrow (Value.fieldIntegers read) := by
  cases h with
  | done => exact .nil
  | label hmore => exact Narrow.nil.append (Fields.narrow_of_spells hnumber _ hmore hnarrow)
  | typeNumber hmore => exact hnumber.append (Fields.narrow_of_spells hnumber _ hmore hnarrow)
  | check htest hmore => exact Fields.narrow_of_spells hnumber _ hmore hnarrow
  | field hfound hfield hmore =>
    obtain ⟨hschema, hothers⟩ := Bool.and_eq_true_iff.mp hnarrow
    exact (Schema.narrow_of_spells hnumber _ hfield hschema).append
      (Fields.narrow_of_spells hnumber _ hmore hothers)

end

end

namespace Value

theorem append_subset_append {a b c d : List Int} (hfirst : a ⊆ b) (hsecond : c ⊆ d) :
    a ++ c ⊆ b ++ d :=
  List.append_subset.mpr ⟨List.subset_append_of_subset_left _ hfirst,
    List.subset_append_of_subset_right _ hsecond⟩

mutual

/-- What is shown has no other integers than the literal. -/
theorem shownIntegers_subset (value : Value) : value.shownIntegers ⊆ value.literalIntegers := by
  cases value with
  | code c =>
    obtain ⟨number, _ | name⟩ := c
    · exact List.Subset.refl _
    · exact List.nil_subset _
  | list items => exact listedItemIntegers_subset items
  | record fields => exact listedFieldIntegers_subset _ fields
  | _ => exact List.Subset.refl _

theorem listedItemIntegers_subset (items : List Value) :
    listedItemIntegers items ⊆ itemIntegers items := by
  cases items with
  | nil => exact List.Subset.refl _
  | cons value items =>
    exact append_subset_append (shownIntegers_subset value) (listedItemIntegers_subset items)

theorem listedFieldIntegers_subset (flags : Bool) (fields : List (String × Value)) :
    listedFieldIntegers flags fields ⊆ fieldIntegers fields := by
  cases fields with
  | nil => exact List.Subset.refl _
  | cons field fields =>
    obtain ⟨name, value⟩ := field
    rw [listedFieldIntegers]
    split
    · exact append_subset_append (fieldTextIntegers_subset value)
        (listedFieldIntegers_subset flags fields)
    · exact List.subset_append_of_subset_right _ (listedFieldIntegers_subset flags fields)

theorem fieldTextIntegers_subset (value : Value) :
    value.fieldTextIntegers ⊆ value.literalIntegers := by
  cases value with
  | list items => exact listedItemIntegers_subset items
  | record fields => exact listedFieldIntegers_subset _ fields
  | _ => exact List.Subset.refl _

end

end Value

namespace Extension

theorem narrow_layout (number : Int) (name? : Option String) :
    (layout number name?).narrow = true :=
  forall_layout (P := fun schema => schema.narrow = true) (by decide) (by decide) (by decide)
    number name?

/-- The integers of what is decoded are those of at most four bytes. -/
theorem narrow_of_decodeContent {number : Nat} (hnumber : number < 65536) {body : List UInt8}
    {content : Value} (h : decodeContent (extensionTypes.codePoint number) body = .ok content) :
    Narrow content.literalIntegers := by
  obtain ⟨left, hdecode⟩ := (decodeContent_eq_ok_iff _ body content).mp h
  obtain ⟨b, hspells, -⟩ := Schema.exists_spells_of_decode (answers_scope _ body.length) _ 0
    (refersOut_layout _ _) (orderly_layout _ _) (wellNumbered_layout _ _) hdecode
  have hwidth : number < BigEndian.capacity 2 := hnumber
  exact Schema.narrow_of_spells (.of_lt (by decide) hwidth) _ hspells (narrow_layout _ _)

end Extension

/-- Such a value is printed whatever limit there is. -/
theorem Narrow.printValue_eq {value : Value} (h : Narrow value.literalIntegers)
    (limit? : Option Text.Numeral.DigitLimit) (title : String) :
    printValue limit? title value = .ok (printedValue title value) := by
  have hshown : Narrow value.shownIntegers := fun n hn => h n (value.shownIntegers_subset hn)
  rw [printValue, hshown.exceeded?_eq_none limit?]

end HelloExtensions
