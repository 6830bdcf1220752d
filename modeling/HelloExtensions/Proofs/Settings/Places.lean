import HelloExtensions.Proofs.Settings.Merging
import HelloExtensions.Proofs.Settings.Paths

/-!
Settings that may lead back to their root. Each table stands at one place, the names that lead to
it from the root, and what it has under a name is a table one name further in or else the root.
From such a table the root is reached by going inwards until it comes, so that whether it is reached
depends on the tables at places further in alone. New trees can be put where there is nothing yet.
-/
namespace HelloExtensions.Settings

/-- Every table that stands somewhere stands at one place only, and has under a name either the
root or a table that stands one name further in. -/
structure Placed (store : Store) (root : Nat) (stands : Nat → List String → Prop) : Prop where
  unique : ∀ {id a b}, stands id a → stands id b → a = b
  lt_size : ∀ {id place}, stands id place → id < store.size
  root_stands : stands root []
  inner : ∀ {id place name below}, stands id place →
    (store.table id).lookup name = some (.table below) →
      below = root ∨ stands below (place ++ [name])

/-- The table leads back to the root. -/
inductive LeadsToRoot (store : Store) (root : Nat) : Nat → Prop
  | root {id : Nat} {name : String} (hslot : (store.table id).lookup name = some (.table root)) :
      LeadsToRoot store root id
  | inner {id below : Nat} {name : String}
      (hslot : (store.table id).lookup name = some (.table below))
      (hleads : LeadsToRoot store root below) : LeadsToRoot store root id

/-- The table leads back to the root by what it has under the name. -/
def LeadsToRootUnder (store : Store) (root id : Nat) (name : String) : Prop :=
  ∃ below, (store.table id).lookup name = some (.table below) ∧
    (below = root ∨ LeadsToRoot store root below)

/-- To merge the value into the slot is to come upon null, or upon the root again. -/
inductive MeetsRoot (store : Store) (root : Nat) : Value → Slot → Prop
  | null (fields : Entries Value) : MeetsRoot store root (.record fields) (.plain .null)
  | root (fields : Entries Value) : MeetsRoot store root (.record fields) (.table root)
  | inner {fields : Entries Value} {id : Nat} {name : String} {value : Value} {slot : Slot}
      (hvalue : fields.lookup name = some value)
      (hslot : (store.table id).lookup name = some slot)
      (hmeets : MeetsRoot store root value slot) :
      MeetsRoot store root (.record fields) (.table id)

/-- The same of one field and what the table has under its name. -/
def MeetsRootUnder (store : Store) (root : Nat) (fields : Entries Value) (id : Nat)
    (name : String) : Prop :=
  ∃ value slot, fields.lookup name = some value ∧ (store.table id).lookup name = some slot ∧
    MeetsRoot store root value slot

section

variable {store after : Store} {root id below : Nat} {name : String} {slot : Slot} {value : Value}
  {fields : Entries Value} {place start : List String} {part : Finset Nat}
  {stands : Nat → List String → Prop}

theorem LeadsToRootUnder.leadsToRoot (h : LeadsToRootUnder store root id name) :
    LeadsToRoot store root id := by
  obtain ⟨below, hslot, rfl | hinner⟩ := h
  · exact .root hslot
  · exact .inner hslot hinner

theorem LeadsToRoot.exists_leads (h : LeadsToRoot store root id) :
    ∃ steps, steps ≠ [] ∧ store.Leads (.table id) steps root := by
  induction h with
  | root hslot => exact ⟨_, List.cons_ne_nil _ _, .name hslot (.here _)⟩
  | inner hslot hinner ih =>
    obtain ⟨steps, -, hleads⟩ := ih
    exact ⟨_, List.cons_ne_nil _ _, .name hslot hleads⟩

theorem MeetsRoot.exists_record (h : MeetsRoot store root value slot) :
    ∃ fields, value = .record fields := by
  cases h with
  | null fields => exact ⟨fields, rfl⟩
  | root fields => exact ⟨fields, rfl⟩
  | inner hvalue hslot hmeets => exact ⟨_, rfl⟩

theorem MeetsRoot.exists_name (h : MeetsRoot store root (.record fields) (.table id))
    (hne : id ≠ root) : ∃ name, MeetsRootUnder store root fields id name := by
  cases h with
  | root => exact absurd rfl hne
  | inner hvalue hslot hmeets => exact ⟨_, _, _, hvalue, hslot, hmeets⟩

namespace Placed

theorem insert (h : Placed store root stands) (hid : stands id place)
    (hslot : ∀ below, slot = .table below → below = root ∨ stands below (place ++ [name])) :
    Placed (store.insert id name slot) root stands := by
  refine ⟨h.unique, fun hother => ?_, h.root_stands, ?_⟩
  · rw [Store.size_insert]
    exact h.lt_size hother
  · intro other start key below hother hlookup
    rw [Store.lookup_insert (h.lt_size hid)] at hlookup
    by_cases hkey : other = id ∧ key = name
    · rw [if_pos hkey] at hlookup
      obtain ⟨rfl, rfl⟩ := hkey
      obtain rfl := h.unique hid hother
      exact hslot below (Option.some.inj hlookup)
    · rw [if_neg hkey] at hlookup
      exact h.inner hother hlookup

/-- In a tree each table stands where names lead to it. -/
theorem of_holds (h : Holds store (.table root) value part) :
    Placed store root fun id names => store.at? (.table root) names = some (.table id) := by
  refine ⟨fun ha hb => ?_, fun hid => ?_, Store.at?_nil store _,
    fun {id names name below} hid hslot => ?_⟩
  · exact h.eq_of_at? ha hb
  · exact (h.mem_of_at? hid).2
  · right
    rw [Store.at?_append, hid, Option.bind_some, Store.at?_cons_of_lookup hslot, Store.at?_nil]

/-- Only what stands further in matters to whether the root is reached. -/
theorem leadsToRoot_frame (h : Placed store root stands) (hleads : LeadsToRoot store root id)
    (hid : stands id place) (hstart : start <+: place)
    (hsame : ∀ other inner, stands other inner → start <+: inner →
      after.table other = store.table other) : LeadsToRoot after root id := by
  induction hleads generalizing place with
  | root hslot =>
    rw [← hsame _ _ hid hstart] at hslot
    exact .root hslot
  | inner hslot hleads ih =>
    have hkept := hslot
    rw [← hsame _ _ hid hstart] at hkept
    rcases h.inner hid hslot with rfl | hbelow
    · exact .root hkept
    · exact .inner hkept (ih hbelow (hstart.trans (List.prefix_append _ _)))

/-- Nor does anything else matter to where merging comes to. -/
theorem meetsRoot_frame (h : Placed store root stands) (hmeets : MeetsRoot store root value slot)
    (hslot : ∀ id, slot = .table id → id = root ∨ ∃ place, stands id place ∧ start <+: place)
    (hsame : ∀ other inner, stands other inner → start <+: inner →
      after.table other = store.table other) : MeetsRoot after root value slot := by
  induction hmeets with
  | null fields => exact .null fields
  | root fields => exact .root fields
  | inner hvalue hlookup hmeets ih =>
    rcases hslot _ rfl with rfl | ⟨place, hplace, hstart⟩
    · exact .root _
    · have hkept := hlookup
      rw [← hsame _ _ hplace hstart] at hkept
      refine .inner hvalue hkept (ih fun below hbelow => ?_)
      subst hbelow
      rcases h.inner hplace hlookup with rfl | hinner
      · exact .inl rfl
      · exact .inr ⟨_, hinner, hstart.trans (List.prefix_append _ _)⟩

/-- A tree none of whose tables stands anywhere can be given a place. -/
theorem exists_graft (h : Placed store root stands) (htree : Holds store (.table below) value part)
    (hfresh : ∀ other ∈ part, ∀ inner, ¬ stands other inner) (place : List String) :
    ∃ wider : Nat → List String → Prop, Placed store root wider ∧ wider below place ∧
      (∀ other inner, stands other inner → wider other inner) ∧
      ∀ other inner, wider other inner → stands other inner ∨ other ∈ part := by
  refine ⟨fun other inner => stands other inner ∨
    ∃ names, store.at? (.table below) names = some (.table other) ∧ inner = place ++ names,
    ⟨?_, ?_, .inl h.root_stands, ?_⟩, .inr ⟨[], by simp⟩, fun _ _ => .inl, ?_⟩
  · rintro other a b (ha | ⟨front, hfront, rfl⟩) (hb | ⟨back, hback, rfl⟩)
    · exact h.unique ha hb
    · exact absurd ha (hfresh other (htree.mem_of_at? hback).1 a)
    · exact absurd hb (hfresh other (htree.mem_of_at? hfront).1 b)
    · rw [htree.eq_of_at? hfront hback]
  · rintro other inner (hold | ⟨names, hat, -⟩)
    · exact h.lt_size hold
    · exact (htree.mem_of_at? hat).2
  · rintro other inner name deeper (hold | ⟨names, hat, rfl⟩) hlookup
    · rcases h.inner hold hlookup with rfl | hinner
      · exact .inl rfl
      · exact .inr (.inl hinner)
    · refine .inr (.inr ⟨names ++ [name], ?_, (List.append_assoc _ _ _)⟩)
      rw [Store.at?_append, hat, Option.bind_some, Store.at?_cons_of_lookup hlookup, Store.at?_nil]
  · rintro other inner (hold | ⟨names, hat, -⟩)
    · exact .inl hold
    · exact .inr (htree.mem_of_at? hat).1

end Placed

end

end HelloExtensions.Settings
