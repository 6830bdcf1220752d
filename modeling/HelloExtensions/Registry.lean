import HelloExtensions.BigEndian
import HelloExtensions.Entries

/-!
Registries assign names to the numbers of a field. A number without a name is still a code
point, so reading one never fails; a name without a number is none. In a well-formed registry
the names and the numbers that are assigned determine each other.
-/
namespace HelloExtensions

/-- A number from a registry, with the name it is assigned there if any. -/
structure CodePoint where
  number : Int
  name? : Option String
deriving DecidableEq, Repr

/-- The numbers take `width` bytes. -/
structure Registry where
  width : Nat
  assignments : List (String × Nat)
deriving DecidableEq, Repr

namespace Registry

def name? (registry : Registry) (number : Nat) : Option String :=
  (registry.assignments.find? fun a => a.2 == number).map (·.1)

def number? (registry : Registry) (name : String) : Option Nat :=
  registry.assignments.lookup name

def codePoint (registry : Registry) (number : Nat) : CodePoint :=
  ⟨number, registry.name? number⟩

/-- No name and no number is assigned twice, and each number fits the width. -/
def WellFormed (registry : Registry) : Prop :=
  (registry.assignments.map (·.1)).Nodup ∧ (registry.assignments.map (·.2)).Nodup ∧
    ∀ a ∈ registry.assignments, a.2 < BigEndian.capacity registry.width

instance (registry : Registry) : Decidable registry.WellFormed :=
  inferInstanceAs (Decidable (_ ∧ _ ∧ _))

private theorem find?_eq_some_iff {assignments : List (String × Nat)} {name : String}
    {number : Nat} (distinct : (assignments.map (·.2)).Nodup) :
    assignments.find? (fun a => a.2 == number) = some (name, number) ↔
      (name, number) ∈ assignments := by
  induction assignments with
  | nil => simp
  | cons a rest ih =>
    obtain ⟨k, n⟩ := a
    obtain ⟨hn, hrest⟩ := List.nodup_cons.1 distinct
    by_cases h : n = number
    · subst h
      have hm : (name, n) ∉ rest := fun hm => hn (List.mem_map_of_mem (f := (·.2)) hm)
      simp [hm, eq_comm]
    · have h' : number ≠ n := fun e => h e.symm
      simp [h, h', ih hrest]

theorem number?_eq_some_iff {registry : Registry} (h : registry.WellFormed) {name : String}
    {number : Nat} :
    registry.number? name = some number ↔ (name, number) ∈ registry.assignments :=
  Entries.lookup_eq_some_iff h.1

theorem name?_eq_some_iff {registry : Registry} (h : registry.WellFormed) {name : String}
    {number : Nat} :
    registry.name? number = some name ↔ (name, number) ∈ registry.assignments := by
  rw [name?, ← find?_eq_some_iff h.2.1, Option.map_eq_some_iff]
  refine ⟨fun ⟨a, ha, hname⟩ => ?_, fun ha => ⟨_, ha, rfl⟩⟩
  have hnumber : a.2 = number := by simpa using List.find?_some ha
  rw [ha, ← hname, ← hnumber]

/-- A name stands for a number exactly where the number has the name. -/
theorem number?_eq_some_iff_name? {registry : Registry} (h : registry.WellFormed)
    {name : String} {number : Nat} :
    registry.number? name = some number ↔ registry.name? number = some name :=
  (number?_eq_some_iff h).trans (name?_eq_some_iff h).symm

end Registry
end HelloExtensions
