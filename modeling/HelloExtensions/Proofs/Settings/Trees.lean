import HelloExtensions.Proofs.Settings.Overlay
import HelloExtensions.Settings.Store
import Mathlib.Data.Finset.Basic
import Mathlib.Order.Interval.Finset.Nat

/-!
Trees in a store. A slot holds a value if the tables and lists that it leads to are built like the
value, and no table is reached in two ways. The numbers of these tables are the slot's share of
the store: as long as the tables in the share stay as they are, the slot holds the value, whatever
becomes of the others. A value that is loaded is held by new tables only.
-/
namespace HelloExtensions.Settings

/-- A value that a slot keeps as it is. -/
def isPlain : Value → Bool
  | .list _ => false
  | .record _ => false
  | _ => true

/-- The slot holds the value, and the tables it leads to are among those numbered in `share`.
Different fields and different items lead to different tables. -/
inductive Holds (store : Store) : Slot → Value → Finset Nat → Prop
  | plain {value : Value} {share : Finset Nat} (hplain : isPlain value = true) :
      Holds store (.plain value) value share
  | list {id : Nat} {slots : List Slot} {values : List Value} {share : Finset Nat}
      (parts : Nat → Finset Nat) (hlength : slots.length = values.length)
      (hparts : ∀ i, parts i ⊆ share) (hdisjoint : ∀ i j, i ≠ j → Disjoint (parts i) (parts j))
      (hitems : ∀ i slot value, slots[i]? = some slot → values[i]? = some value →
        Holds store slot value (parts i)) :
      Holds store (.list id slots) (.list values) share
  | table {id : Nat} {fields : Entries Value} {share : Finset Nat}
      (parts : String → Finset Nat) (hid : id ∈ share) (hsize : id < store.size)
      (hkeys : Entries.keys (store.table id) = Entries.keys fields)
      (hparts : ∀ name, parts name ⊆ share.erase id)
      (hdisjoint : ∀ a b, a ≠ b → Disjoint (parts a) (parts b))
      (hentries : ∀ name slot value, (store.table id).lookup name = some slot →
        fields.lookup name = some value → Holds store slot value (parts name)) :
      Holds store (.table id) (.record fields) share

namespace Holds

variable {store : Store} {slot : Slot} {value : Value} {share : Finset Nat}

theorem mono (h : Holds store slot value share) {larger : Finset Nat} (hle : share ⊆ larger) :
    Holds store slot value larger := by
  cases h with
  | plain hplain => exact .plain hplain
  | list parts hlength hparts hdisjoint hitems =>
    exact .list parts hlength (fun i => (hparts i).trans hle) hdisjoint hitems
  | table parts hid hsize hkeys hparts hdisjoint hentries =>
    exact .table parts (hle hid) hsize hkeys
      (fun name => (hparts name).trans (Finset.erase_subset_erase _ hle)) hdisjoint hentries

/-- Only the tables in the share matter. -/
theorem frame (h : Holds store slot value share) {after : Store}
    (hsize : store.size ≤ after.size) (hsame : ∀ id ∈ share, after.table id = store.table id) :
    Holds after slot value share := by
  induction h with
  | plain hplain => exact .plain hplain
  | list parts hlength hparts hdisjoint hitems ih =>
    refine .list parts hlength hparts hdisjoint fun i slot value hslot hvalue => ?_
    exact ih i slot value hslot hvalue fun id hid => hsame id (hparts i hid)
  | @table id fields share parts hid hbound hkeys hparts hdisjoint hentries ih =>
    have htable : after.table id = store.table id := hsame id hid
    refine .table parts hid (Nat.lt_of_lt_of_le hbound hsize) (htable ▸ hkeys) hparts hdisjoint ?_
    intro name slot value hslot hvalue
    rw [htable] at hslot
    exact ih name slot value hslot hvalue fun other hother =>
      hsame other (Finset.mem_of_mem_erase (hparts name hother))

/-- Numbers that no table has do not matter either. -/
theorem within (h : Holds store slot value share) :
    Holds store slot value (share ∩ Finset.range store.size) := by
  induction h with
  | plain hplain => exact .plain hplain
  | list parts hlength hparts hdisjoint hitems ih =>
    refine .list (fun i => parts i ∩ Finset.range store.size) hlength ?_ ?_ ih
    · exact fun i => Finset.inter_subset_inter_right (hparts i)
    · exact fun i j hne =>
        (hdisjoint i j hne).mono Finset.inter_subset_left Finset.inter_subset_left
  | table parts hid hsize hkeys hparts hdisjoint hentries ih =>
    refine .table (fun name => parts name ∩ Finset.range store.size) ?_ hsize hkeys ?_ ?_ ih
    · exact Finset.mem_inter.mpr ⟨hid, Finset.mem_range.mpr hsize⟩
    · intro name
      rw [← Finset.erase_inter]
      exact Finset.inter_subset_inter_right (hparts name)
    · exact fun a b hne =>
        (hdisjoint a b hne).mono Finset.inter_subset_left Finset.inter_subset_left

theorem eq_of_plain {found : Value} (h : Holds store (.plain found) value share) :
    value = found := by
  cases h with
  | plain hplain => rfl

theorem exists_table {fields : Entries Value} (h : Holds store slot (.record fields) share) :
    ∃ id, slot = .table id ∧ id ∈ share := by
  cases h with
  | plain hplain => cases hplain
  | table parts hid hsize hkeys hparts hdisjoint hentries => exact ⟨_, rfl, hid⟩

theorem exists_record {id : Nat} (h : Holds store (.table id) value share) :
    ∃ fields, value = .record fields := by
  cases h with
  | table parts hid hsize hkeys hparts hdisjoint hentries => exact ⟨_, rfl⟩

section

variable {id : Nat} {fields : Entries Value} {name : String}

theorem keys_eq (h : Holds store (.table id) (.record fields) share) :
    Entries.keys (store.table id) = Entries.keys fields := by
  cases h with
  | table parts hid hsize hkeys hparts hdisjoint hentries => exact hkeys

theorem isSome_lookup_eq (h : Holds store (.table id) (.record fields) share) (name : String) :
    ((store.table id).lookup name).isSome = (fields.lookup name).isSome := by
  rw [Bool.eq_iff_iff, Entries.isSome_lookup_iff, Entries.isSome_lookup_iff, h.keys_eq]

theorem lookup_eq_none (h : Holds store (.table id) (.record fields) share)
    (hnone : fields.lookup name = none) : (store.table id).lookup name = none := by
  have hsome := h.isSome_lookup_eq name
  rw [hnone, Option.isSome_none] at hsome
  exact Option.isSome_eq_false_iff.mp hsome |> Option.isNone_iff_eq_none.mp

/-- What stands under a name of the record is held under this name. -/
theorem lookup (h : Holds store (.table id) (.record fields) share)
    (hvalue : fields.lookup name = some value) :
    ∃ slot, (store.table id).lookup name = some slot ∧ Holds store slot value (share.erase id) := by
  have hsome := h.isSome_lookup_eq name
  rw [hvalue, Option.isSome_some] at hsome
  obtain ⟨slot, hslot⟩ := Option.isSome_iff_exists.mp hsome
  cases h with
  | table parts hid hsize hkeys hparts hdisjoint hentries =>
    exact ⟨slot, hslot, (hentries name slot value hslot hvalue).mono (hparts name)⟩

end

end Holds

namespace Store

/-- A store that has all tables of another one, as they are there. -/
structure Extends (before after : Store) : Prop where
  size_le : before.size ≤ after.size
  table_eq : ∀ id, id < before.size → after.table id = before.table id

theorem Extends.refl (store : Store) : Extends store store := ⟨Nat.le_refl _, fun _ _ => rfl⟩

theorem Extends.trans {a b c : Store} (hab : Extends a b) (hbc : Extends b c) : Extends a c := by
  refine ⟨hab.size_le.trans hbc.size_le, fun id hid => ?_⟩
  rw [hbc.table_eq id (Nat.lt_of_lt_of_le hid hab.size_le), hab.table_eq id hid]

theorem extends_push (table : Table) (store : Store) : Extends store (store.push table) := by
  refine ⟨by rw [size_push]; omega, fun id hid => ?_⟩
  rw [table_push, if_neg (Nat.ne_of_lt hid)]

/-- The tables that have been added. -/
def added (before after : Store) : Finset Nat := Finset.Ico before.size after.size

theorem mem_added {before after : Store} {id : Nat} :
    id ∈ added before after ↔ before.size ≤ id ∧ id < after.size := Finset.mem_Ico

theorem added_subset {a b c d : Store} (hab : a.size ≤ b.size) (hcd : c.size ≤ d.size) :
    added b c ⊆ added a d := Finset.Ico_subset_Ico hab hcd

theorem disjoint_added (a b c : Store) : Disjoint (added a b) (added b c) :=
  Finset.Ico_disjoint_Ico_consecutive _ _ _

theorem load_record (fields : List (String × Value)) (store : Store) :
    load (.record fields) store = (.table (loadFields fields store).2.size,
      (loadFields fields store).2.push (loadFields fields store).1) := by
  rw [load]

theorem load_list (items : List Value) (store : Store) :
    load (.list items) store =
      (.list (loadItems items store).2.lists (loadItems items store).1,
        { (loadItems items store).2 with lists := (loadItems items store).2.lists + 1 }) := by
  rw [load]

theorem loadItems_cons (value : Value) (items : List Value) (store : Store) :
    loadItems (value :: items) store =
      ((load value store).1 :: (loadItems items (load value store).2).1,
        (loadItems items (load value store).2).2) := by
  rw [loadItems]

theorem loadFields_cons (name : String) (value : Value) (fields : List (String × Value))
    (store : Store) :
    loadFields ((name, value) :: fields) store =
      ((name, (load value store).1) :: (loadFields fields (load value store).2).1,
        (loadFields fields (load value store).2).2) := by
  rw [loadFields]

end Store

open Store

theorem Holds.extend {before store after : Store} {slot : Slot} {value : Value}
    (h : Holds store slot value (added before store)) (hextends : Extends store after) :
    Holds after slot value (added before store) :=
  h.frame hextends.size_le fun id hid => hextends.table_eq id (mem_added.mp hid).2

/-- What is added to a store shares no table with what a slot holds. -/
theorem Holds.apart {store after : Store} {slot : Slot} {value : Value} {share part : Finset Nat}
    (h : Holds store slot value share) (hextends : Extends store after)
    (hfresh : ∀ id ∈ part, store.size ≤ id) :
    Holds after slot value (share ∩ Finset.range store.size) ∧
      Disjoint (share ∩ Finset.range store.size) part := by
  have hold : ∀ id ∈ share ∩ Finset.range store.size, id < store.size := fun id hid =>
    Finset.mem_range.mp (Finset.mem_inter.mp hid).2
  refine ⟨h.within.frame hextends.size_le fun id hid => hextends.table_eq id (hold id hid), ?_⟩
  rw [Finset.disjoint_left]
  intro id hid hpart
  exact absurd (hold id hid) (Nat.not_lt.mpr (hfresh id hpart))

/-- Slots for the items of a list, each with a share of its own of the tables added. -/
structure HoldsItems (before after : Store) (slots : List Slot) (values : List Value) : Prop where
  length_eq : slots.length = values.length
  exists_parts : ∃ parts : Nat → Finset Nat, (∀ i, parts i ⊆ added before after) ∧
    (∀ i j, i ≠ j → Disjoint (parts i) (parts j)) ∧
    ∀ i slot value, slots[i]? = some slot → values[i]? = some value →
      Holds after slot value (parts i)

/-- The same for the entries of a table and the fields of a record. -/
structure HoldsFields (before after : Store) (table : Table) (fields : Entries Value) : Prop where
  keys_eq : Entries.keys table = Entries.keys fields
  exists_parts : ∃ parts : String → Finset Nat, (∀ name, parts name ⊆ added before after) ∧
    (∀ a b, a ≠ b → Disjoint (parts a) (parts b)) ∧
    ∀ name slot value, table.lookup name = some slot → fields.lookup name = some value →
      Holds after slot value (parts name)

mutual

/-- A value that is loaded is held by the tables that are added for it. -/
theorem holds_load (value : Value) (store : Store) :
    Extends store (load value store).2 ∧
      Holds (load value store).2 (load value store).1 value (added store (load value store).2) := by
  cases value with
  | record fields =>
    obtain ⟨hextends, hkeys, parts, hparts, hdisjoint, hentries⟩ := holds_loadFields fields store
    rw [load_record]
    generalize loadFields fields store = loaded at *
    have hpush := extends_push loaded.1 loaded.2
    have hnew : (loaded.2.push loaded.1).table loaded.2.size = loaded.1 := by
      rw [table_push, if_pos rfl]
    have hsize : (loaded.2.push loaded.1).size = loaded.2.size + 1 := size_push _ _
    have hle := hextends.size_le
    refine ⟨hextends.trans hpush, .table parts ?_ ?_ ?_ ?_ hdisjoint ?_⟩
    · rw [mem_added, hsize]
      omega
    · rw [hsize]
      exact Nat.lt_succ_self _
    · rw [hnew, hkeys]
    · intro name id hid
      have hbounds := mem_added.mp (hparts name hid)
      rw [Finset.mem_erase, mem_added, hsize]
      omega
    · intro name slot value hslot hvalue
      rw [hnew] at hslot
      refine (hentries name slot value hslot hvalue).frame hpush.size_le fun id hid => ?_
      exact hpush.table_eq id (mem_added.mp (hparts name hid)).2
  | list items =>
    obtain ⟨hextends, hlength, parts, hparts, hdisjoint, hitems⟩ := holds_loadItems items store
    rw [load_list]
    refine ⟨⟨hextends.size_le, hextends.table_eq⟩, .list parts hlength hparts hdisjoint ?_⟩
    intro i slot value hslot hvalue
    exact (hitems i slot value hslot hvalue).frame (Nat.le_refl _) fun id _ => rfl
  | null => exact ⟨.refl store, .plain rfl⟩
  | bool b => exact ⟨.refl store, .plain rfl⟩
  | int n => exact ⟨.refl store, .plain rfl⟩
  | decimal mantissa places => exact ⟨.refl store, .plain rfl⟩
  | text s => exact ⟨.refl store, .plain rfl⟩
  | bytes b => exact ⟨.refl store, .plain rfl⟩
  | code c => exact ⟨.refl store, .plain rfl⟩

theorem holds_loadItems (values : List Value) (store : Store) :
    Extends store (loadItems values store).2 ∧
      HoldsItems store (loadItems values store).2 (loadItems values store).1 values := by
  cases values with
  | nil =>
    refine ⟨.refl store, rfl, fun _ => ∅, ?_, ?_, ?_⟩
    · exact fun _ => Finset.empty_subset _
    · exact fun _ _ _ => Finset.disjoint_empty_left _
    · exact fun i slot value hslot => by cases hslot
  | cons value values =>
    obtain ⟨hfirst, hholds⟩ := holds_load value store
    obtain ⟨hrest, hlength, parts, hparts, hdisjoint, hitems⟩ :=
      holds_loadItems values (load value store).2
    rw [loadItems_cons]
    generalize load value store = first at *
    generalize loadItems values first.2 = rest at *
    have hapart : ∀ i, Disjoint (added store first.2) (parts i) := fun i =>
      (disjoint_added store first.2 rest.2).mono_right (hparts i)
    refine ⟨hfirst.trans hrest, by simp only [List.length_cons, hlength],
      fun i => i.casesOn (added store first.2) parts, ?_, ?_, ?_⟩
    · intro i
      cases i with
      | zero => exact added_subset (Nat.le_refl _) hrest.size_le
      | succ i => exact (hparts i).trans (added_subset hfirst.size_le (Nat.le_refl _))
    · intro i j hne
      cases i with
      | zero =>
        cases j with
        | zero => exact absurd rfl hne
        | succ j => exact hapart j
      | succ i =>
        cases j with
        | zero => exact (hapart i).symm
        | succ j => exact hdisjoint i j fun h => hne (congrArg Nat.succ h)
    · intro i slot value hslot hvalue
      cases i with
      | zero =>
        obtain rfl := Option.some.inj hslot
        obtain rfl := Option.some.inj hvalue
        exact hholds.extend hrest
      | succ i => exact hitems i slot value hslot hvalue

theorem holds_loadFields (fields : List (String × Value)) (store : Store) :
    Extends store (loadFields fields store).2 ∧
      HoldsFields store (loadFields fields store).2 (loadFields fields store).1 fields := by
  cases fields with
  | nil =>
    refine ⟨.refl store, rfl, fun _ => ∅, ?_, ?_, ?_⟩
    · exact fun _ => Finset.empty_subset _
    · exact fun _ _ _ => Finset.disjoint_empty_left _
    · exact fun name slot value hslot => by cases hslot
  | cons field fields =>
    obtain ⟨key, value⟩ := field
    obtain ⟨hfirst, hholds⟩ := holds_load value store
    obtain ⟨hrest, hkeys, parts, hparts, hdisjoint, hentries⟩ :=
      holds_loadFields fields (load value store).2
    rw [loadFields_cons]
    generalize load value store = first at *
    generalize loadFields fields first.2 = rest at *
    have hapart : ∀ name, Disjoint (added store first.2) (parts name) := fun name =>
      (disjoint_added store first.2 rest.2).mono_right (hparts name)
    refine ⟨hfirst.trans hrest, ?_, fun name => if name = key then added store first.2
      else parts name, ?_, ?_, ?_⟩
    · simpa only [Entries.keys, List.map_cons, List.cons.injEq, true_and] using hkeys
    · intro name
      dsimp only
      split
      · exact added_subset (Nat.le_refl _) hrest.size_le
      · exact (hparts name).trans (added_subset hfirst.size_le (Nat.le_refl _))
    · intro a b hne
      dsimp only
      by_cases ha : a = key
      · have hb : b ≠ key := fun h => hne (ha.trans h.symm)
        rw [if_pos ha, if_neg hb]
        exact hapart b
      · rw [if_neg ha]
        split
        · exact (hapart a).symm
        · exact hdisjoint a b hne
    · intro name slot value hslot hvalue
      rw [Entries.lookup_cons] at hslot hvalue
      dsimp only
      by_cases hname : name = key
      · rw [if_pos hname] at hslot hvalue ⊢
        obtain rfl := Option.some.inj hslot
        obtain rfl := Option.some.inj hvalue
        exact hholds.extend hrest
      · rw [if_neg hname] at hslot hvalue ⊢
        exact hentries name slot value hslot hvalue

end

end HelloExtensions.Settings
