import HelloExtensions.Proofs.Settings.Trees

/-!
Paths in a store. Names lead from table to table; where lists are passed as well, a step is either
a name or a position. In a tree no table is reached by two paths, so none is inside itself, and
names lead to what they lead to in the value. A slot holds its value for as long as the tables that
it leads to stay as they are.
-/
namespace HelloExtensions.Settings

open Value

/-- A step inwards: to what a table has under a name, or to an item of a list. -/
inductive Step where
  | name (name : String)
  | item (position : Nat)

namespace Store

/-- What the names lead to one after the other, from table to table. -/
def at? (store : Store) : Slot → List String → Option Slot
  | slot, [] => some slot
  | .table id, name :: names => ((store.table id).lookup name).bind fun slot => store.at? slot names
  | _, _ :: _ => none

/-- The slot leads to this table by these steps. -/
inductive Leads (store : Store) : Slot → List Step → Nat → Prop
  | here (id : Nat) : Leads store (.table id) [] id
  | item {id position inner : Nat} {slots : List Slot} {slot : Slot} {steps : List Step}
      (hitem : slots[position]? = some slot) (hleads : Leads store slot steps inner) :
      Leads store (.list id slots) (.item position :: steps) inner
  | name {outer inner : Nat} {name : String} {slot : Slot} {steps : List Step}
      (hslot : (store.table outer).lookup name = some slot)
      (hleads : Leads store slot steps inner) :
      Leads store (.table outer) (.name name :: steps) inner

/-- The table is one of those that it leads to. -/
def InsideItself (store : Store) (id : Nat) : Prop :=
  ∃ steps, steps ≠ [] ∧ store.Leads (.table id) steps id

section

variable {store : Store} {slot : Slot} {id middle inner : Nat} {name : String}
  {names : List String} {front back : List Step}

@[simp] theorem at?_nil (store : Store) (slot : Slot) : store.at? slot [] = some slot := by
  rw [at?]

theorem at?_cons (store : Store) (id : Nat) (name : String) (names : List String) :
    store.at? (.table id) (name :: names) =
      ((store.table id).lookup name).bind fun slot => store.at? slot names := by
  rw [at?]

theorem at?_cons_of_lookup (h : (store.table id).lookup name = some slot) (names : List String) :
    store.at? (.table id) (name :: names) = store.at? slot names := by
  rw [at?_cons, h, Option.bind_some]

theorem at?_of_not_table (h : ∀ id, slot ≠ .table id) (name : String) (names : List String) :
    store.at? slot (name :: names) = none := by
  rw [at?]
  exact fun id heq => h id heq

theorem at?_append (store : Store) (slot : Slot) (names more : List String) :
    store.at? slot (names ++ more) =
      (store.at? slot names).bind fun slot => store.at? slot more := by
  induction names generalizing slot with
  | nil => rw [List.nil_append, at?_nil, Option.bind_some]
  | cons name names ih =>
    cases slot with
    | table id =>
      rw [List.cons_append, at?_cons, at?_cons, Option.bind_assoc]
      exact congrArg _ (funext fun slot => ih slot)
    | _ => rfl

theorem Leads.append (h : store.Leads slot front middle)
    (hback : store.Leads (.table middle) back inner) : store.Leads slot (front ++ back) inner := by
  induction h with
  | here id => exact hback
  | item hitem hleads ih => exact .item hitem (ih hback)
  | name hslot hleads ih => exact .name hslot (ih hback)

/-- Names lead to a table just as the steps that they are do. -/
theorem leads_map_name_iff :
    store.Leads slot (names.map .name) id ↔ store.at? slot names = some (.table id) := by
  constructor
  · intro h
    induction names generalizing slot with
    | nil =>
      cases h
      exact at?_nil store _
    | cons name names ih =>
      cases h with
      | name hslot hleads => rw [at?_cons_of_lookup hslot, ih hleads]
  · intro h
    induction names generalizing slot with
    | nil =>
      rw [at?_nil] at h
      obtain rfl := Option.some.inj h
      exact .here id
    | cons name names ih =>
      cases slot with
      | table outer =>
        rw [at?_cons] at h
        obtain ⟨slot, hslot, hrest⟩ := Option.bind_eq_some_iff.mp h
        exact .name hslot (ih hrest)
      | plain value => cases h
      | list number slots => cases h

end

end Store

/-- Tables with the same names have something under the same names. -/
theorem exists_of_keys_eq {α β : Type} {a : Entries α} {b : Entries β}
    (hkeys : Entries.keys a = Entries.keys b) {name : String} {found : α}
    (h : a.lookup name = some found) : ∃ other, b.lookup name = some other := by
  apply Option.isSome_iff_exists.mp
  rw [Entries.isSome_lookup_iff, ← hkeys, ← Entries.isSome_lookup_iff, h]
  rfl

theorem exists_of_length_eq {α β : Type} {a : List α} {b : List β} (hlength : a.length = b.length)
    {position : Nat} {found : α} (h : a[position]? = some found) :
    ∃ other, b[position]? = some other := by
  obtain ⟨hbound, -⟩ := List.getElem?_eq_some_iff.mp h
  exact ⟨_, List.getElem?_eq_getElem (hlength ▸ hbound)⟩

namespace Holds

variable {store : Store} {slot : Slot} {value : Value} {share : Finset Nat} {id : Nat}
  {steps front back : List Step}

/-- What stands under a name of the table holds what the record has under it. -/
theorem exists_value {outer : Nat} {fields : Entries Value} {name : String}
    (h : Holds store (.table outer) (.record fields) share)
    (hslot : (store.table outer).lookup name = some slot) :
    ∃ value, fields.lookup name = some value ∧ Holds store slot value (share.erase outer) := by
  obtain ⟨value, hvalue⟩ := exists_of_keys_eq h.keys_eq hslot
  obtain ⟨found, hfound, hheld⟩ := h.lookup hvalue
  obtain rfl := Option.some.inj (hslot.symm.trans hfound)
  exact ⟨value, hvalue, hheld⟩

theorem mem_of_leads (h : Holds store slot value share) (hleads : store.Leads slot steps id) :
    id ∈ share ∧ id < store.size := by
  induction h generalizing steps with
  | plain hplain => cases hleads
  | list parts hlength hparts hdisjoint hitems ih =>
    cases hleads with
    | item hitem hleads =>
      obtain ⟨value, hvalue⟩ := exists_of_length_eq hlength hitem
      obtain ⟨hmem, hlt⟩ := ih _ _ _ hitem hvalue hleads
      exact ⟨hparts _ hmem, hlt⟩
  | table parts hid hsize hkeys hparts hdisjoint hentries ih =>
    cases hleads with
    | here => exact ⟨hid, hsize⟩
    | name hslot hleads =>
      obtain ⟨value, hvalue⟩ := exists_of_keys_eq hkeys hslot
      obtain ⟨hmem, hlt⟩ := ih _ _ _ hslot hvalue hleads
      exact ⟨Finset.mem_of_mem_erase (hparts _ hmem), hlt⟩

/-- A table in a tree is reached by one path only, as it is in the share of none of its entries. -/
theorem eq_of_leads (h : Holds store slot value share) (hfront : store.Leads slot front id)
    (hback : store.Leads slot back id) : front = back := by
  induction h generalizing front back with
  | plain hplain => cases hfront
  | list parts hlength hparts hdisjoint hitems ih =>
    cases hfront with
    | @item _ a _ _ _ _ hitem hleads =>
      cases hback with
      | @item _ b _ _ _ _ hother hothers =>
        obtain ⟨value, hvalue⟩ := exists_of_length_eq hlength hitem
        obtain ⟨other, hothervalue⟩ := exists_of_length_eq hlength hother
        by_cases hab : a = b
        · subst hab
          obtain rfl := Option.some.inj (hitem.symm.trans hother)
          rw [ih _ _ _ hitem hvalue hleads hothers]
        · have hin := ((hitems _ _ _ hitem hvalue).mem_of_leads hleads).1
          have hout := ((hitems _ _ _ hother hothervalue).mem_of_leads hothers).1
          exact absurd hout (Finset.disjoint_left.mp (hdisjoint a b hab) hin)
  | @table outer fields share parts hid hsize hkeys hparts hdisjoint hentries ih =>
    have hinner : ∀ {name : String} {slot : Slot} {steps : List Step},
        (store.table outer).lookup name = some slot → store.Leads slot steps id →
          id ∈ parts name := by
      intro name slot steps hslot hleads
      obtain ⟨value, hvalue⟩ := exists_of_keys_eq hkeys hslot
      exact ((hentries _ _ _ hslot hvalue).mem_of_leads hleads).1
    cases hfront with
    | here =>
      cases hback with
      | here => rfl
      | name hslot hleads =>
        exact absurd (hparts _ (hinner hslot hleads)) (Finset.notMem_erase _ _)
    | @name _ _ a _ _ hslot hleads =>
      cases hback with
      | here => exact absurd (hparts _ (hinner hslot hleads)) (Finset.notMem_erase _ _)
      | @name _ _ b _ _ hother hothers =>
        by_cases hab : a = b
        · subst hab
          obtain rfl := Option.some.inj (hslot.symm.trans hother)
          obtain ⟨value, hvalue⟩ := exists_of_keys_eq hkeys hslot
          rw [ih _ _ _ hslot hvalue hleads hothers]
        · exact absurd (hinner hother hothers)
            (Finset.disjoint_left.mp (hdisjoint a b hab) (hinner hslot hleads))

theorem eq_of_at? (h : Holds store slot value share) {a b : List String}
    (ha : store.at? slot a = some (.table id)) (hb : store.at? slot b = some (.table id)) : a = b :=
  List.map_injective_iff.mpr (fun _ _ => Step.name.inj)
    (h.eq_of_leads (Store.leads_map_name_iff.mpr ha) (Store.leads_map_name_iff.mpr hb))

theorem mem_of_at? (h : Holds store slot value share) {names : List String}
    (hat : store.at? slot names = some (.table id)) : id ∈ share ∧ id < store.size :=
  h.mem_of_leads (Store.leads_map_name_iff.mpr hat)

theorem not_insideItself (h : Holds store slot value share) (hleads : store.Leads slot front id) :
    ¬ store.InsideItself id := by
  rintro ⟨steps, hne, hloop⟩
  exact hne (List.append_right_eq_self.mp (h.eq_of_leads (hleads.append hloop) hleads))

/-- Only the tables that are reached matter. -/
theorem frame_of_leads (h : Holds store slot value share) {after : Store}
    (hsize : store.size ≤ after.size)
    (hsame : ∀ steps id, store.Leads slot steps id → after.table id = store.table id) :
    Holds after slot value share := by
  induction h with
  | plain hplain => exact .plain hplain
  | list parts hlength hparts hdisjoint hitems ih =>
    refine .list parts hlength hparts hdisjoint fun i slot value hslot hvalue => ?_
    exact ih i slot value hslot hvalue fun steps id hleads =>
      hsame (.item i :: steps) id (.item hslot hleads)
  | @table id fields share parts hid hbound hkeys hparts hdisjoint hentries ih =>
    have htable : after.table id = store.table id := hsame [] id (.here id)
    refine .table parts hid (Nat.lt_of_lt_of_le hbound hsize) (htable ▸ hkeys) hparts hdisjoint ?_
    intro name slot value hslot hvalue
    rw [htable] at hslot
    exact ih name slot value hslot hvalue fun steps inner hleads =>
      hsame (.name name :: steps) inner (.name hslot hleads)

/-- Names lead to the same in the store as in the value. -/
theorem at?_eq (h : Holds store slot value share) (names : List String) :
    match value.at? names with
    | some inner => ∃ found, store.at? slot names = some found ∧ Holds store found inner share
    | none => store.at? slot names = none := by
  induction names generalizing slot value share with
  | nil =>
    rw [Value.at?]
    exact ⟨slot, Store.at?_nil store slot, h⟩
  | cons name names ih =>
    by_cases hrecord : ∃ fields, value = .record fields
    · obtain ⟨fields, rfl⟩ := hrecord
      obtain ⟨id, rfl, -⟩ := h.exists_table
      rw [Value.at?_cons, Store.at?_cons]
      cases hvalue : fields.lookup name with
      | none => rw [Option.bind_none, h.lookup_eq_none hvalue, Option.bind_none]
      | some value =>
        obtain ⟨slot, hslot, hinner⟩ := h.lookup hvalue
        have hnext := ih hinner
        rw [hslot, Option.bind_some, Option.bind_some]
        cases hat : value.at? names with
        | none =>
          rw [hat] at hnext
          exact hnext
        | some inner =>
          rw [hat] at hnext
          obtain ⟨found, hfound, hheld⟩ := hnext
          exact ⟨found, hfound, hheld.mono (Finset.erase_subset id share)⟩
    · have hslot : ∀ id, slot ≠ .table id := by
        intro id heq
        subst heq
        exact hrecord h.exists_record
      rw [at?_of_not_record fun fields heq => hrecord ⟨fields, heq⟩]
      exact Store.at?_of_not_table hslot name names

theorem at?_eq_null_iff (h : Holds store slot value share) (names : List String) :
    store.at? slot names = some (.plain .null) ↔ value.at? names = some .null := by
  have hat := h.at?_eq names
  constructor
  · intro hnull
    cases hvalue : value.at? names with
    | none =>
      rw [hvalue] at hat
      cases hat.symm.trans hnull
    | some inner =>
      rw [hvalue] at hat
      obtain ⟨found, hfound, hheld⟩ := hat
      obtain rfl := Option.some.inj (hfound.symm.trans hnull)
      rw [hheld.eq_of_plain]
  · intro hnull
    rw [hnull] at hat
    obtain ⟨found, hfound, hheld⟩ := hat
    cases hheld
    exact hfound

/-- A table that names lead to has no name twice, if no record of the value has. -/
theorem nodup_keys (h : Holds store slot value share) (hkeyed : value.wellKeyed = true)
    {names : List String} (hat : store.at? slot names = some (.table id)) :
    (Entries.keys (store.table id)).Nodup := by
  have hinner := h.at?_eq names
  cases hvalue : value.at? names with
  | none =>
    rw [hvalue] at hinner
    cases hinner.symm.trans hat
  | some inner =>
    rw [hvalue] at hinner
    obtain ⟨found, hfound, hheld⟩ := hinner
    obtain rfl := Option.some.inj (hfound.symm.trans hat)
    obtain ⟨fields, rfl⟩ := hheld.exists_record
    rw [hheld.keys_eq]
    exact (wellKeyed_record_iff.mp (wellKeyed_of_at? hkeyed hvalue)).1

end Holds

end HelloExtensions.Settings
