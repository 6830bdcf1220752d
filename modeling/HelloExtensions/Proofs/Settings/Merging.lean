import HelloExtensions.Proofs.Settings.Trees
import HelloExtensions.Settings.Merge
import Mathlib.Data.Finset.Card

/-!
Merging trees. Let the branch and the target be trees that share no table, and let no record of the
branch land on null. If the value of the branch can be merged into that of the target, then merging
returns the target, which then holds the result; if not, it ends in an error. Tables that belong to
neither tree stay as they are. The limit on the depth is never reached, because each step inwards
leaves a table of the branch behind.
-/
namespace HelloExtensions.Settings

open Value

namespace Store

variable {store : Store} {id : Nat}

@[simp] theorem size_insert (store : Store) (id : Nat) (key : String) (slot : Slot) :
    (store.insert id key slot).size = store.size := size_modify _ _ _

theorem table_insert_self (hid : id < store.size) (key : String) (slot : Slot) :
    (store.insert id key slot).table id = Entries.insert key slot (store.table id) := by
  rw [insert, table_modify hid, if_pos rfl]

theorem table_insert_of_ne (hid : id < store.size) (key : String) (slot : Slot) {other : Nat}
    (hne : other ≠ id) : (store.insert id key slot).table other = store.table other := by
  rw [insert, table_modify hid, if_neg hne]

theorem lt_size_of_lookup {key : String} {slot : Slot}
    (h : (store.table id).lookup key = some slot) : id < store.size := by
  by_contra hle
  have hnone : store.tables[id]? = none := List.getElem?_eq_none (Nat.le_of_not_lt hle)
  rw [table, List.getD_eq_getElem?_getD, hnone] at h
  cases h

end Store

/-- The table has the names of the record, and holds what stands under each of them except one,
about which nothing is said. -/
structure HoldsBut (store : Store) (id : Nat) (fields : Entries Value) (key : String)
    (parts : String → Finset Nat) (share : Finset Nat) : Prop where
  mem : id ∈ share
  lt_size : id < store.size
  keys_eq : Entries.keys (store.table id) = Entries.keys fields
  parts_subset : ∀ name, name ≠ key → parts name ⊆ share.erase id
  disjoint : ∀ a b, a ≠ key → b ≠ key → a ≠ b → Disjoint (parts a) (parts b)
  entries : ∀ name, name ≠ key → ∀ slot value, (store.table id).lookup name = some slot →
    fields.lookup name = some value → Holds store slot value (parts name)

section

variable {store : Store} {id : Nat} {fields : Entries Value} {key : String}
  {parts : String → Finset Nat} {share : Finset Nat}

theorem Holds.exists_but (h : Holds store (.table id) (.record fields) share) (key : String) :
    ∃ parts, HoldsBut store id fields key parts share ∧ parts key ⊆ share.erase id ∧
      (∀ name, name ≠ key → Disjoint (parts name) (parts key)) ∧
      ∀ slot value, (store.table id).lookup key = some slot → fields.lookup key = some value →
        Holds store slot value (parts key) := by
  cases h with
  | table parts hid hsize hkeys hparts hdisjoint hentries =>
    refine ⟨parts, ⟨hid, hsize, hkeys, fun name _ => hparts name, fun a b _ _ => hdisjoint a b,
      fun name _ => hentries name⟩, hparts key, fun name => hdisjoint name key, hentries key⟩

/-- Changes to tables of which the other entries have no share do not matter to them. -/
theorem HoldsBut.frame (h : HoldsBut store id fields key parts share) {after : Store}
    {touched : Finset Nat} (hsize : after.size = store.size)
    (hsame : ∀ other, other ∉ touched → after.table other = store.table other)
    (hid : id ∉ touched) (hapart : ∀ name, name ≠ key → Disjoint (parts name) touched) :
    HoldsBut after id fields key parts share := by
  have htable : after.table id = store.table id := hsame id hid
  refine ⟨h.mem, hsize ▸ h.lt_size, htable ▸ h.keys_eq, h.parts_subset, h.disjoint, ?_⟩
  intro name hname slot value hslot hvalue
  rw [htable] at hslot
  refine (h.entries name hname slot value hslot hvalue).frame (Nat.le_of_eq hsize.symm) ?_
  intro other hother
  exact hsame other (Finset.disjoint_left.mp (hapart name hname) hother)

/-- The entry that nothing is said about may be written anew. -/
theorem HoldsBut.insert (h : HoldsBut store id fields key parts share) {slot : Slot}
    {value : Value} {new : Finset Nat} (hslot : Holds store slot value new) (hid : id ∉ new)
    (hapart : ∀ name, name ≠ key → Disjoint (parts name) new) :
    Holds (store.insert id key slot) (.table id) (.record (Entries.insert key value fields))
      (share ∪ new) := by
  have hkeep : ∀ {inner : Slot} {found : Value} {part : Finset Nat},
      Holds store inner found part → id ∉ part →
        Holds (store.insert id key slot) inner found part := by
    intro inner found part hholds hpart
    refine hholds.frame (by rw [Store.size_insert]) fun other hother => ?_
    exact Store.table_insert_of_ne h.lt_size key slot fun heq => hpart (heq ▸ hother)
  have hmem : id ∈ share ∪ new := Finset.mem_union_left new h.mem
  have hnew : new ⊆ (share ∪ new).erase id := fun other hother =>
    Finset.mem_erase.mpr ⟨fun heq => hid (heq ▸ hother), Finset.mem_union_right share hother⟩
  have hothers : ∀ name, name ≠ key → parts name ⊆ (share ∪ new).erase id := fun name hname =>
    (h.parts_subset name hname).trans (Finset.erase_subset_erase id Finset.subset_union_left)
  refine .table (fun name => if name = key then new else parts name) hmem
    (by rw [Store.size_insert]; exact h.lt_size) ?_ ?_ ?_ ?_
  · rw [Store.table_insert_self h.lt_size, Entries.keys_insert, Entries.keys_insert, h.keys_eq]
  · intro name
    by_cases hname : name = key
    · rw [if_pos hname]
      exact hnew
    · rw [if_neg hname]
      exact hothers name hname
  · intro a b hne
    by_cases ha : a = key
    · have hb : b ≠ key := fun heq => hne (ha.trans heq.symm)
      rw [if_pos ha, if_neg hb]
      exact (hapart b hb).symm
    · by_cases hb : b = key
      · rw [if_neg ha, if_pos hb]
        exact hapart a ha
      · rw [if_neg ha, if_neg hb]
        exact h.disjoint a b ha hb hne
  · intro name inner found hinner hfound
    rw [Store.table_insert_self h.lt_size, Entries.lookup_insert] at hinner
    rw [Entries.lookup_insert] at hfound
    by_cases hname : name = key
    · rw [if_pos hname] at hinner hfound ⊢
      obtain rfl := Option.some.inj hinner
      obtain rfl := Option.some.inj hfound
      exact hkeep hslot hid
    · rw [if_neg hname] at hinner hfound ⊢
      refine hkeep (h.entries name hname inner found hinner hfound) fun hin => ?_
      exact Finset.notMem_erase id share (h.parts_subset name hname hin)

end

/-- After a merge the slot holds the value, and only tables in the share have changed. -/
structure MergedTo (before after : Store) (slot : Slot) (value : Value) (share : Finset Nat) :
    Prop where
  holds : Holds after slot value share
  size_eq : after.size = before.size
  table_eq : ∀ other, other ∉ share → after.table other = before.table other

namespace MergedTo

variable {before after last : Store} {slot : Slot} {value result : Value}
  {share larger : Finset Nat}

theorem mono (h : MergedTo before after slot value share) (hle : share ⊆ larger) :
    MergedTo before after slot value larger :=
  ⟨h.holds.mono hle, h.size_eq, fun other hother => h.table_eq other fun hin => hother (hle hin)⟩

theorem trans (h : MergedTo before after slot value share)
    (hnext : MergedTo after last slot result larger) (hle : share ⊆ larger) :
    MergedTo before last slot result larger := by
  refine ⟨hnext.holds, hnext.size_eq.trans h.size_eq, fun other hother => ?_⟩
  rw [hnext.table_eq other hother, h.table_eq other fun hin => hother (hle hin)]

end MergedTo

/-- Either the slot is merged to the result and this is returned, or there is no result and merging
ends in an error. -/
def MergesOrFails {α : Type} (outcome : Merged α) (returned : α) (before : Store) (slot : Slot)
    (result? : Option Value) (share : Finset Nat) : Prop :=
  match result? with
  | some result =>
    ∃ after, outcome = (.ok returned, after) ∧ MergedTo before after slot result share
  | none => ∃ e after, outcome = (.error e, after)

/-- What is asked of merging these fields of a branch into a slot, one table further in. -/
def MergesFields (descend : Nat → Slot → Store → Merged Slot) (fields : Entries Value)
    (part : Finset Nat) : Prop :=
  ∀ store branch slot target share, Holds store (.table branch) (.record fields) part →
    Holds store slot target share → Disjoint share part →
    ¬ (Value.record fields).LandsOnNull target →
    MergesOrFails (descend branch slot store) slot store slot
      ((Value.record fields).merged? (some target)) (share ∪ part)

section

variable {descend : Nat → Slot → Store → Merged Slot} {store : Store} {branch id : Nat}
  {name : String}

theorem entry_of_not_table {slot : Slot} (h : (store.table branch).lookup name = some slot)
    (hslot : ∀ inner, slot ≠ .table inner) :
    Merged.entry descend branch (.table id) name store = (.ok (), store.insert id name slot) := by
  cases slot with
  | plain value => simp only [Merged.entry, h, Merged.assign]
  | list number items => simp only [Merged.entry, h, Merged.assign]
  | table inner => exact absurd rfl (hslot inner)

theorem entry_of_absent {inner : Nat} (h : (store.table branch).lookup name = some (.table inner))
    (hnone : (store.table id).lookup name = none) :
    Merged.entry descend branch (.table id) name store =
      (.ok (), store.insert id name (.table inner)) := by
  simp only [Merged.entry, h, hnone, Merged.assign]

theorem entry_of_descend {inner : Nat} {slot : Slot}
    (h : (store.table branch).lookup name = some (.table inner))
    (hslot : (store.table id).lookup name = some slot) :
    Merged.entry descend branch (.table id) name store =
      match descend inner slot store with
      | (.ok result, after) => (.ok (), after.insert id name result)
      | (.error e, after) => (.error e, after) := by
  rcases hdescend : descend inner slot store with ⟨e | result, after⟩ <;>
    simp only [Merged.entry, h, hslot, hdescend]

/-- Nothing is written into what is no table. -/
theorem exists_error_of_entry {master slot : Slot} (hmaster : ∀ id, master ≠ .table id)
    (h : (store.table branch).lookup name = some slot) :
    ∃ e, Merged.entry descend branch master name store = (.error e, store) ∧
      (e = .noTable ∨ e = .notAssignable) := by
  cases master with
  | table id => exact absurd rfl (hmaster id)
  | _ =>
    cases slot with
    | table inner => exact ⟨.noTable, by simp only [Merged.entry, h], .inl rfl⟩
    | _ => exact ⟨.notAssignable, by simp only [Merged.entry, h, Merged.assign], .inr rfl⟩

variable {target : Entries Value} {share part : Finset Nat} {slot : Slot} {value : Value}

/-- One step of a merge merges one field of the branch into the target. -/
theorem entry_of_holds (htarget : Holds store (.table id) (.record target) share)
    (hslot : (store.table branch).lookup name = some slot) (hvalue : Holds store slot value part)
    (hdisjoint : Disjoint share part)
    (hnull : ∀ found, target.lookup name = some found → ¬ value.LandsOnNull found)
    (hdescend : ∀ fields, value = .record fields → MergesFields descend fields part) :
    MergesOrFails (Merged.entry descend branch (.table id) name store) () store (.table id)
      ((value.merged? (target.lookup name)).map fun inner =>
        .record (Entries.insert name inner target)) (share ∪ part) := by
  obtain ⟨parts, hbut, hkey, hothers, hheld⟩ := htarget.exists_but name
  have hfree : id ∉ part := Finset.disjoint_left.mp hdisjoint hbut.mem
  have hapart : ∀ other, other ≠ name → Disjoint (parts other) part := fun other hother =>
    hdisjoint.mono_left ((hbut.parts_subset other hother).trans (Finset.erase_subset id share))
  have hassign : MergedTo store (store.insert id name slot) (.table id)
      (.record (Entries.insert name value target)) (share ∪ part) := by
    refine ⟨hbut.insert hvalue hfree hapart, Store.size_insert _ _ _ _, fun other hother => ?_⟩
    refine Store.table_insert_of_ne hbut.lt_size name slot fun heq => hother ?_
    rw [heq]
    exact Finset.mem_union_left part hbut.mem
  by_cases hrecord : ∃ fields, value = .record fields
  · obtain ⟨fields, rfl⟩ := hrecord
    obtain ⟨inner, rfl, -⟩ := hvalue.exists_table
    cases hfound : target.lookup name with
    | none =>
      rw [merged?_none]
      exact ⟨_, entry_of_absent hslot (htarget.lookup_eq_none hfound), hassign⟩
    | some found =>
      obtain ⟨held, hheldslot, -⟩ := htarget.lookup hfound
      have hkeyShare : parts name ⊆ share := hkey.trans (Finset.erase_subset id share)
      have hdeep := hdescend fields rfl store inner held found (parts name) hvalue
        (hheld held _ hheldslot hfound) (hdisjoint.mono_left hkeyShare) (hnull found hfound)
      rw [entry_of_descend hslot hheldslot]
      cases hresult : (Value.record fields).merged? (some found) with
      | none =>
        rw [hresult] at hdeep
        obtain ⟨e, after, hmerge⟩ := hdeep
        exact ⟨e, after, by rw [hmerge]⟩
      | some result =>
        rw [hresult] at hdeep
        obtain ⟨middle, hmerge, hmerged⟩ := hdeep
        have hid : id ∉ parts name ∪ part := by
          rw [Finset.mem_union, not_or]
          exact ⟨fun hin => Finset.notMem_erase id share (hkey hin), hfree⟩
        have houtside : ∀ other, other ≠ name → Disjoint (parts other) (parts name ∪ part) :=
          fun other hother => Finset.disjoint_union_right.mpr
            ⟨hothers other hother, hapart other hother⟩
        have hrest := hbut.frame hmerged.size_eq hmerged.table_eq hid houtside
        have hshare : share ∪ (parts name ∪ part) = share ∪ part := by
          rw [← Finset.union_assoc, Finset.union_eq_left.mpr hkeyShare]
        refine ⟨middle.insert id name held, by rw [hmerge], ?_, ?_, ?_⟩
        · rw [← hshare]
          exact hrest.insert hmerged.holds hid houtside
        · rw [Store.size_insert, hmerged.size_eq]
        · intro other hother
          rw [← hshare, Finset.mem_union, not_or] at hother
          rw [Store.table_insert_of_ne hrest.lt_size, hmerged.table_eq other hother.2]
          exact fun heq => hother.1 (heq ▸ hbut.mem)
  · have hno : ∀ inner, slot ≠ .table inner := by
      intro inner heq
      subst heq
      exact hrecord hvalue.exists_record
    rw [merged?_of_not_record fun fields heq => hrecord ⟨fields, heq⟩]
    exact ⟨_, entry_of_not_table hslot hno, hassign⟩

end

/-- The fields of a branch that are still to come. Each is held by tables of its own, and these keep
apart from the tables that may change before. -/
structure Pending (store : Store) (branch size : Nat) (fields : List (String × Value))
    (parts : String → Finset Nat) (Apart : Finset Nat → Prop) : Prop where
  length_eq : (store.table branch).length = size
  exists_slot : ∀ name value, (name, value) ∈ fields → ∃ slot,
    (store.table branch).lookup name = some slot ∧ Holds store slot value (parts name) ∧
      Apart (parts name)

/-- A step leaves the fields as they are that come after it, if it leaves the branch as it is and
the tables that keep apart. -/
theorem Pending.next {before after : Store} {branch size : Nat} {field : String × Value}
    {fields : List (String × Value)} {parts : String → Finset Nat}
    {Apart Further : Finset Nat → Prop}
    (h : Pending before branch size (field :: fields) parts Apart)
    (hsize : after.size = before.size) (hsame : after.table branch = before.table branch)
    (hkept : ∀ name ∈ Entries.keys fields, Apart (parts name) →
      Further (parts name) ∧ ∀ id ∈ parts name, after.table id = before.table id) :
    Pending after branch size fields parts Further := by
  refine ⟨by rw [hsame, h.length_eq], fun name value hmem => ?_⟩
  obtain ⟨slot, hslot, hholds, hapart⟩ := h.exists_slot name value (List.mem_cons_of_mem field hmem)
  obtain ⟨hfurther, htables⟩ := hkept name (List.mem_map_of_mem (f := (·.1)) hmem) hapart
  exact ⟨slot, hsame ▸ hslot, hholds.frame (Nat.le_of_eq hsize.symm) htables, hfurther⟩

/-- The loop over fields of a branch that are still to come. -/
theorem entries_of_holds {descend : Nat → Slot → Store → Merged Slot} {branch id size : Nat}
    {fields : List (String × Value)} {parts : String → Finset Nat} {whole : Finset Nat}
    (hdistinct : (Entries.keys fields).Nodup)
    (hwhole : ∀ name, parts name ⊆ whole) (hbranch : branch ∉ whole)
    (hdisjoint : ∀ a b, a ≠ b → Disjoint (parts a) (parts b))
    (hdescend : ∀ name inner, (name, Value.record inner) ∈ fields →
      MergesFields descend inner (parts name))
    {store : Store} {target : Entries Value} {share : Finset Nat}
    (htarget : Holds store (.table id) (.record target) share) (hfree : branch ∉ share)
    (hpending : Pending store branch size fields parts (Disjoint share))
    (hnull : ∀ name value found, (name, value) ∈ fields → target.lookup name = some found →
      ¬ value.LandsOnNull found) :
    MergesOrFails (Merged.entries (Merged.entry descend branch (.table id)) branch size
        (Entries.keys fields) store) () store (.table id)
      ((mergedFields? fields target).map .record) (share ∪ whole) := by
  induction fields generalizing store target share with
  | nil =>
    rw [mergedFields?, Option.map_some]
    exact ⟨store, rfl, htarget.mono Finset.subset_union_left, rfl, fun _ _ => rfl⟩
  | cons field fields ih =>
    obtain ⟨name, value⟩ := field
    obtain ⟨hname, hothers⟩ := List.nodup_cons.mp hdistinct
    have hne : ∀ other ∈ Entries.keys fields, other ≠ name :=
      fun other hkey heq => hname (heq ▸ hkey)
    obtain ⟨slot, hslot, hvalue, hapart⟩ := hpending.exists_slot name value List.mem_cons_self
    have hstep := entry_of_holds htarget hslot hvalue hapart
      (fun found hfound => hnull name value found List.mem_cons_self hfound) (by
        intro inner hinner
        subst hinner
        exact hdescend name inner List.mem_cons_self)
    rw [mergedFields?]
    cases hresult : value.merged? (target.lookup name) with
    | none =>
      rw [hresult] at hstep
      obtain ⟨e, after, hstep⟩ := hstep
      refine ⟨e, after, ?_⟩
      simp only [Entries.keys, List.map_cons, Merged.entries, hstep]
    | some inner =>
      rw [hresult] at hstep
      obtain ⟨middle, hstep, hmerged⟩ := hstep
      rw [Option.bind_some]
      have hstays : branch ∉ share ∪ parts name := by
        rw [Finset.mem_union, not_or]
        exact ⟨hfree, fun hin => hbranch (hwhole name hin)⟩
      have hsame : middle.table branch = store.table branch := hmerged.table_eq branch hstays
      have hlater : Pending middle branch size fields parts (Disjoint (share ∪ parts name)) := by
        refine hpending.next hmerged.size_eq hsame fun other hother hshare => ?_
        have hunion : Disjoint (share ∪ parts name) (parts other) :=
          Finset.disjoint_union_left.mpr ⟨hshare, hdisjoint name other (hne other hother).symm⟩
        exact ⟨hunion, fun deep hdeep =>
          hmerged.table_eq deep (Finset.disjoint_right.mp hunion hdeep)⟩
      have hnullLater : ∀ other value found, (other, value) ∈ fields →
          (Entries.insert name inner target).lookup other = some found →
          ¬ value.LandsOnNull found := by
        intro other value found hmem hfound
        rw [Entries.lookup_insert,
          if_neg (hne other (List.mem_map_of_mem (f := (·.1)) hmem))] at hfound
        exact hnull other value found (List.mem_cons_of_mem _ hmem) hfound
      have hloop := ih hothers
        (fun other inner hmem => hdescend other inner (List.mem_cons_of_mem _ hmem))
        hmerged.holds hstays hlater hnullLater
      have hentries : Merged.entries (Merged.entry descend branch (.table id)) branch size
          (Entries.keys ((name, value) :: fields)) store =
          Merged.entries (Merged.entry descend branch (.table id)) branch size
            (Entries.keys fields) middle := by
        simp only [Entries.keys, List.map_cons, Merged.entries, hstep, hlater.length_eq, if_true]
      rw [hentries]
      have hle : share ∪ parts name ∪ whole ⊆ share ∪ whole := by
        rw [Finset.union_assoc, Finset.union_eq_right.mpr (hwhole name)]
      cases hrest : mergedFields? fields (Entries.insert name inner target) with
      | none =>
        rw [hrest] at hloop
        exact hloop
      | some result =>
        rw [hrest] at hloop
        obtain ⟨after, hloop, hafter⟩ := hloop
        exact ⟨after, hloop, (hmerged.mono (Finset.union_subset_union_right (hwhole name))).trans
          (hafter.mono hle) (Finset.Subset.refl _)⟩

section

variable {root limit branch : Nat} {store : Store} {fields target : Entries Value}
  {slot : Slot} {found : Value} {share part : Finset Nat}

/-- Null stands for the root. -/
theorem mergeTable_null (root limit branch : Nat) (store : Store) :
    mergeTable root limit branch (.plain .null) store =
      mergeTable root limit branch (.table root) store := by
  cases limit <;> rfl

theorem masterOf_of_ne_null (h : slot ≠ .plain .null) : masterOf root slot = slot := by
  rw [masterOf]
  exact h

/-- Only an empty table is merged into something that is neither a table nor null. -/
theorem mergeTable_of_not_table (hslot : ∀ id, slot ≠ .table id) (hnull : slot ≠ .plain .null)
    (root limit branch : Nat) (store : Store) :
    match Entries.keys (store.table branch) with
    | [] => mergeTable root (limit + 1) branch slot store = (.ok slot, store)
    | _ :: _ => ∃ e, mergeTable root (limit + 1) branch slot store = (.error e, store) ∧
        (e = .noTable ∨ e = .notAssignable) := by
  rw [mergeTable, masterOf_of_ne_null hnull]
  cases hkeys : Entries.keys (store.table branch) with
  | nil => rfl
  | cons name names =>
    obtain ⟨inner, hinner⟩ := Option.isSome_iff_exists.mp
      ((Entries.isSome_lookup_iff name (store.table branch)).mpr (hkeys ▸ List.mem_cons_self))
    have hentry : ∃ e, Merged.entry (mergeTable root limit) branch slot name store =
        (.error e, store) ∧ (e = .noTable ∨ e = .notAssignable) :=
      exists_error_of_entry hslot hinner
    obtain ⟨e, he, hkind⟩ := hentry
    exact ⟨e, by simp only [Merged.entries, he], hkind⟩

/-- Only an empty record is merged into something that is neither a record nor null. -/
theorem mergeTable_over (hbranch : Holds store (.table branch) (.record fields) part)
    (htarget : Holds store slot found share) (hfound : ∀ below, found ≠ .record below)
    (hnull : found ≠ .null) :
    MergesOrFails (mergeTable root (limit + 1) branch slot store) slot store slot
      (leftAlone? fields found) share := by
  have hslot : ∀ id, slot ≠ .table id := by
    intro id heq
    subst heq
    obtain ⟨below, hbelow⟩ := htarget.exists_record
    exact hfound below hbelow
  have hne : slot ≠ .plain .null := by
    intro heq
    subst heq
    exact hnull htarget.eq_of_plain
  have hmerge := mergeTable_of_not_table hslot hne root limit branch store
  rw [hbranch.keys_eq] at hmerge
  cases fields with
  | nil =>
    rw [leftAlone?]
    · exact ⟨store, hmerge, htarget, rfl, fun _ _ => rfl⟩
    · exact hnull
  | cons field fields =>
    obtain ⟨e, he, -⟩ := hmerge
    rw [leftAlone?]
    · exact ⟨e, store, he⟩
    · exact hnull

/-- Each field of a branch is held by tables of its own, fewer than those of the whole branch. -/
theorem Holds.exists_parts (h : Holds store (.table branch) (.record fields) part)
    (hdistinct : (Entries.keys fields).Nodup) (hlimit : part.card ≤ limit + 1) :
    ∃ parts : String → Finset Nat, branch ∈ part ∧ (∀ name, parts name ⊆ part.erase branch) ∧
      (∀ a b, a ≠ b → Disjoint (parts a) (parts b)) ∧ (∀ name, (parts name).card ≤ limit) ∧
      ∀ name value, (name, value) ∈ fields → ∃ slot,
        (store.table branch).lookup name = some slot ∧ Holds store slot value (parts name) := by
  have hbranch := h
  cases h with
  | table parts hmem hsize hkeys hparts hdisjoint hentries =>
    refine ⟨parts, hmem, hparts, hdisjoint, fun name => ?_, fun name value hin => ?_⟩
    · have hle := Finset.card_le_card (hparts name)
      rw [Finset.card_erase_of_mem hmem] at hle
      omega
    · have hvalue := (Entries.lookup_eq_some_iff hdistinct).mpr hin
      obtain ⟨slot, hslot, -⟩ := hbranch.lookup hvalue
      exact ⟨slot, hslot, hentries name slot value hslot hvalue⟩

/-- A tree that is merged into another one is merged as values are, and no other table changes. -/
theorem mergeTable_of_holds (root : Nat) {limit : Nat} (hlimit : part.card ≤ limit)
    (hkeyed : (Value.record fields).wellKeyed = true) :
    MergesFields (mergeTable root limit) fields part := by
  intro store branch slot found share hbranch htarget hdisjoint hnull
  induction limit generalizing store branch slot found fields share part with
  | zero =>
    obtain ⟨inner, hinner, hmem⟩ := hbranch.exists_table
    exact absurd hmem (by rw [Finset.card_eq_zero.mp (Nat.le_zero.mp hlimit)]; simp)
  | succ limit ih =>
    by_cases hrecord : ∃ target, found = .record target
    · obtain ⟨target, rfl⟩ := hrecord
      obtain ⟨id, rfl, -⟩ := htarget.exists_table
      obtain ⟨hdistinct, hinnerKeyed⟩ := wellKeyed_record_iff.mp hkeyed
      obtain ⟨parts, hmem, hparts, hapart, hcard, hentries⟩ := hbranch.exists_parts hdistinct hlimit
      have hvalue : ∀ name value, (name, value) ∈ fields → fields.lookup name = some value :=
        fun name value hin => (Entries.lookup_eq_some_iff hdistinct).mpr hin
      have hdescend : ∀ name inner, (name, Value.record inner) ∈ fields →
          MergesFields (mergeTable root limit) inner (parts name) := by
        intro name inner hin store' branch' slot' found' share' hholds htarget' hdisjoint' hnull'
        have hkeyed : (Value.record inner).wellKeyed = true :=
          hinnerKeyed name _ (hvalue name _ hin)
        exact ih (hcard name) hkeyed store' branch' slot' found' share' hholds htarget'
          hdisjoint' hnull'
      have hpending : Pending store branch (store.table branch).length fields parts
          (Disjoint share) := by
        refine ⟨rfl, fun name value hin => ?_⟩
        obtain ⟨slot, hslot, hholds⟩ := hentries name value hin
        refine ⟨slot, hslot, hholds, ?_⟩
        exact hdisjoint.mono_right ((hparts name).trans (Finset.erase_subset branch part))
      have hnulls : ∀ name value below, (name, value) ∈ fields →
          target.lookup name = some below → ¬ value.LandsOnNull below :=
        fun name value below hin hbelow hlands =>
          hnull (hlands.of_lookup (hvalue name value hin) hbelow)
      have hloop := entries_of_holds hdistinct hparts (Finset.notMem_erase branch part) hapart
        hdescend htarget (Finset.disjoint_right.mp hdisjoint hmem) hpending hnulls
      rw [merged?_record, mergeTable, masterOf_of_ne_null (by simp), hbranch.keys_eq]
      cases hresult : mergedFields? fields target with
      | none =>
        rw [hresult] at hloop
        obtain ⟨e, after, hloop⟩ := hloop
        exact ⟨e, after, by rw [hloop]⟩
      | some result =>
        rw [hresult] at hloop
        obtain ⟨after, hloop, hafter⟩ := hloop
        refine ⟨after, by rw [hloop], hafter.mono ?_⟩
        exact Finset.union_subset_union_right (Finset.erase_subset branch part)
    · have hother : ∀ below, found ≠ .record below := fun below heq => hrecord ⟨below, heq⟩
      have hsome : found ≠ .null := fun heq => hnull (heq ▸ landsOnNull_null fields)
      have hover : MergesOrFails (mergeTable root (limit + 1) branch slot store) slot store slot
          (leftAlone? fields found) share := mergeTable_over hbranch htarget hother hsome
      rw [merged?_over hother]
      cases hresult : leftAlone? fields found with
      | none =>
        rw [hresult] at hover
        exact hover
      | some result =>
        rw [hresult] at hover
        obtain ⟨after, hmerge, hafter⟩ := hover
        exact ⟨after, hmerge, hafter.mono Finset.subset_union_left⟩

end

end HelloExtensions.Settings
