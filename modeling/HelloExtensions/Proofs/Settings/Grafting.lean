import HelloExtensions.Proofs.Settings.Places

/-!
Merging a new tree into settings that may lead back to their root. Such a merge always comes to an
end, and only for want of a table to merge into or to write to does it fail. The tables of the
branch find places in the settings on the way, but no table whose keys are still gone through does.
If merging comes upon null, or upon the root again, then the table that is merged into leads back
to the root afterwards: what is written later, under other names and further in, does not cut that
path. If it does not, then only what stands further in has changed.
-/
namespace HelloExtensions.Settings

open Value

/-- What merging may do to the store, whatever its outcome: tables in `part` find their places, and
only tables with a place change. -/
structure Grafted (before after : Store) (root : Nat) (stands wider : Nat → List String → Prop)
    (part : Finset Nat) : Prop where
  size_eq : after.size = before.size
  placed : Placed after root wider
  kept : ∀ {id place}, stands id place → wider id place
  placed_of_new : ∀ {id place}, wider id place → stands id place ∨ id ∈ part
  table_eq : ∀ {id}, (∀ place, ¬ wider id place) → after.table id = before.table id

/-- None of these tables stands anywhere. -/
def Fresh (stands : Nat → List String → Prop) (part : Finset Nat) : Prop :=
  ∀ id ∈ part, ∀ place, ¬ stands id place

/-- Only what stands further in has changed. -/
def ChangedOnlyInside (before after : Store) (stands : Nat → List String → Prop)
    (place : List String) : Prop :=
  ∀ id other, stands id other → ¬ place <+: other → after.table id = before.table id

/-- In the table only these names have changed, and otherwise only what stands further in under
them. -/
structure ChangedOnlyUnder (before after : Store) (stands : Nat → List String → Prop) (id : Nat)
    (place : List String) (names : List String) : Prop where
  table_eq : ∀ other inner, stands other inner → other ≠ id →
    (∀ name ∈ names, ¬ place ++ [name] <+: inner) → after.table other = before.table other
  lookup_eq : ∀ name, name ∉ names →
    (after.table id).lookup name = (before.table id).lookup name

/-- Merging returns this, or fails for want of a table. -/
def SucceedsOrLacksTable {α : Type} (outcome : Except MergeError α) (returned : α)
    (achieved : Prop) : Prop :=
  match outcome with
  | .ok result => result = returned ∧ achieved
  | .error e => e = .noTable ∨ e = .notAssignable

/-- What is asked of merging these fields into a table that stands somewhere. -/
def Grafts (root limit : Nat) (fields : Entries Value) (part : Finset Nat) : Prop :=
  ∀ store branch id place stands, Holds store (.table branch) (.record fields) part →
    Placed store root stands → stands id place → Fresh stands part →
    ∃ outcome after wider, mergeTable root limit branch (.table id) store = (outcome, after) ∧
      Grafted store after root stands wider part ∧
      SucceedsOrLacksTable outcome (.table id) (LeadsToRoot after root id ∨
        ChangedOnlyInside store after stands place ∧
          ∀ name, ¬ MeetsRootUnder store root fields id name)

section

variable {store middle after : Store} {root id branch : Nat} {name : String} {slot : Slot}
  {value : Value} {fields : Entries Value} {place : List String} {names : List String}
  {part other : Finset Nat} {stands wider widest : Nat → List String → Prop}

namespace Grafted

theorem refl (h : Placed store root stands) (part : Finset Nat) :
    Grafted store store root stands stands part :=
  ⟨rfl, h, id, .inl, fun _ => rfl⟩

theorem mono (h : Grafted store after root stands wider part) (hle : part ⊆ other) :
    Grafted store after root stands wider other :=
  ⟨h.size_eq, h.placed, h.kept, fun hnew => (h.placed_of_new hnew).imp_right fun hin => hle hin,
    h.table_eq⟩

theorem trans (h : Grafted store middle root stands wider part)
    (hnext : Grafted middle after root wider widest part) :
    Grafted store after root stands widest part := by
  refine ⟨hnext.size_eq.trans h.size_eq, hnext.placed, fun hold => hnext.kept (h.kept hold), ?_, ?_⟩
  · intro id place hnew
    rcases hnext.placed_of_new hnew with hmiddle | hin
    · exact h.placed_of_new hmiddle
    · exact .inr hin
  · intro id hnone
    rw [hnext.table_eq hnone, h.table_eq fun place hwider => hnone place (hnext.kept hwider)]

theorem fresh (h : Grafted store after root stands wider part) (hfresh : Fresh stands other)
    (hdisjoint : Disjoint part other) : Fresh wider other := by
  intro id hid place hwider
  rcases h.placed_of_new hwider with hold | hin
  · exact hfresh id hid place hold
  · exact Finset.disjoint_left.mp hdisjoint hin hid

theorem holds (h : Grafted store after root stands wider part)
    (hholds : Holds store slot value other) (hfresh : Fresh wider other) :
    Holds after slot value other :=
  hholds.frame (Nat.le_of_eq h.size_eq.symm) fun id hid => h.table_eq (hfresh id hid)

/-- Writing into a table that stands somewhere. -/
theorem insert (h : Grafted store after root stands wider part) (hid : wider id place)
    (hslot : ∀ below, slot = .table below → below = root ∨ wider below (place ++ [name])) :
    Grafted store (after.insert id name slot) root stands wider part := by
  refine ⟨by rw [Store.size_insert, h.size_eq], h.placed.insert hid hslot, h.kept, h.placed_of_new,
    fun hnone => ?_⟩
  rw [Store.table_insert_of_ne (h.placed.lt_size hid), h.table_eq hnone]
  exact fun heq => hnone place (heq ▸ hid)

end Grafted

theorem not_cons_prefix_self (place : List String) (name : String) :
    ¬ place ++ [name] <+: place := by
  intro h
  have hlength := h.length_le
  rw [List.length_append, List.length_singleton] at hlength
  omega

theorem eq_of_prefixes {key : String} {inner : List String} (h : place ++ [name] <+: inner)
    (hkey : place ++ [key] <+: inner) : name = key := by
  have hle := List.prefix_of_prefix_length_le h hkey (by simp)
  have heq := hle.eq_of_length (by simp)
  exact List.singleton_inj.mp (List.append_cancel_left heq)

namespace ChangedOnlyUnder

/-- Under any other name nothing has changed further in. -/
theorem table_eq_of_prefix (h : ChangedOnlyUnder store after stands id place names)
    (hplaced : Placed store root stands) (hid : stands id place) (hname : name ∉ names)
    {found : Nat} {inner : List String} (hfound : stands found inner)
    (hinner : place ++ [name] <+: inner) : after.table found = store.table found := by
  refine h.table_eq found inner hfound ?_ fun key hkey hprefix => ?_
  · rintro rfl
    obtain rfl := hplaced.unique hid hfound
    exact not_cons_prefix_self _ name hinner
  · exact hname (eq_of_prefixes hinner hprefix ▸ hkey)

theorem trans {more : List String} (h : ChangedOnlyUnder store middle stands id place names)
    (hkept : ∀ other inner, stands other inner → wider other inner)
    (hnext : ChangedOnlyUnder middle after wider id place more) :
    ChangedOnlyUnder store after stands id place (names ++ more) := by
  refine ⟨fun other inner hother hne hnames => ?_, fun name hname => ?_⟩
  · rw [hnext.table_eq other inner (hkept other inner hother) hne fun name hname =>
        hnames name (List.mem_append_right names hname),
      h.table_eq other inner hother hne fun name hname =>
        hnames name (List.mem_append_left more hname)]
  · rw [List.mem_append, not_or] at hname
    rw [hnext.lookup_eq name hname.2, h.lookup_eq name hname.1]

theorem changedOnlyInside (h : ChangedOnlyUnder store after stands id place names)
    (hplaced : Placed store root stands) (hid : stands id place) :
    ChangedOnlyInside store after stands place := by
  intro other inner hother hinner
  refine h.table_eq other inner hother ?_ fun name _ hprefix => ?_
  · rintro rfl
    obtain rfl := hplaced.unique hid hother
    exact hinner (List.prefix_refl _)
  · exact hinner ((List.prefix_append _ _).trans hprefix)

theorem insert (hlt : id < store.size) (stands : Nat → List String → Prop) (place : List String)
    (name : String) (slot : Slot) :
    ChangedOnlyUnder store (store.insert id name slot) stands id place [name] := by
  refine ⟨fun other inner _ hne _ => Store.table_insert_of_ne hlt name slot hne, fun key hkey => ?_⟩
  rw [Store.lookup_insert hlt, if_neg fun h => hkey (List.mem_singleton.mpr h.2)]

/-- What led back to the root by an unchanged name still does. -/
theorem leadsToRootUnder (h : ChangedOnlyUnder store after stands id place names)
    (hplaced : Placed store root stands) (hid : stands id place) (hname : name ∉ names)
    (hleads : LeadsToRootUnder store root id name) : LeadsToRootUnder after root id name := by
  obtain ⟨below, hslot, hbelow⟩ := hleads
  refine ⟨below, (h.lookup_eq name hname).trans hslot, ?_⟩
  rcases hplaced.inner hid hslot with hroot | hinner
  · exact .inl hroot
  · refine hbelow.imp_right fun hleads => ?_
    exact hplaced.leadsToRoot_frame hleads hinner (List.prefix_refl _) fun found inner hfound =>
      h.table_eq_of_prefix hplaced hid hname hfound

/-- Nor has it changed whether merging comes upon the root by such a name. -/
theorem meetsRootUnder (h : ChangedOnlyUnder store after stands id place names)
    (hplaced : Placed store root stands) (hid : stands id place) (hname : name ∉ names)
    (hmeets : MeetsRootUnder store root fields id name) :
    MeetsRootUnder after root fields id name := by
  obtain ⟨value, slot, hvalue, hslot, hmeets⟩ := hmeets
  refine ⟨value, slot, hvalue, (h.lookup_eq name hname).trans hslot, ?_⟩
  refine hplaced.meetsRoot_frame hmeets (fun below hbelow => ?_) fun found inner hfound =>
    h.table_eq_of_prefix hplaced hid hname hfound
  subst hbelow
  exact (hplaced.inner hid hslot).imp_right fun hinner => ⟨_, hinner, List.prefix_refl _⟩

end ChangedOnlyUnder

section

variable {inner limit : Nat} {own : Entries Value}

/-- What stands under the name after one step, if the step comes to an end. -/
def StepEffect (store after : Store) (root id : Nat) (fields : Entries Value) (place : List String)
    (stands : Nat → List String → Prop) (name : String) : Prop :=
  LeadsToRootUnder after root id name ∨
    ChangedOnlyUnder store after stands id place [name] ∧ ¬ MeetsRootUnder store root fields id name

theorem not_meetsRootUnder_of_lookup (hvalue : fields.lookup name = some value)
    (hslot : (store.table id).lookup name = some slot) (h : ¬ MeetsRoot store root value slot) :
    ¬ MeetsRootUnder store root fields id name := by
  rintro ⟨found, held, hfound, hheld, hmeets⟩
  obtain rfl := Option.some.inj (hvalue.symm.trans hfound)
  obtain rfl := Option.some.inj (hslot.symm.trans hheld)
  exact h hmeets

/-- Merging a table into null or into the root writes the root under the name. -/
theorem entry_into_root (hplaced : Placed store root stands) (hid : stands id place)
    (hslot : (store.table branch).lookup name = some (.table inner))
    (hheld : (store.table id).lookup name = some slot)
    (hroot : slot = .plain .null ∨ slot = .table root)
    (hholds : Holds store (.table inner) (.record own) part) (hfresh : Fresh stands part)
    (hdescend : Grafts root limit own part) :
    ∃ outcome after wider,
      Merged.entry (mergeTable root limit) branch (.table id) name store = (outcome, after) ∧
      Grafted store after root stands wider part ∧
      SucceedsOrLacksTable outcome () (LeadsToRootUnder after root id name) := by
  obtain ⟨outcome, after, wider, hmerge, hgrafted, houtcome⟩ :=
    hdescend store inner root [] stands hholds hplaced hplaced.root_stands hfresh
  have hsame : mergeTable root limit inner slot store = (outcome, after) := by
    rcases hroot with rfl | rfl
    · rw [mergeTable_null, hmerge]
    · exact hmerge
  rw [entry_of_descend hslot hheld, hsame]
  cases outcome with
  | error e => exact ⟨_, after, wider, rfl, hgrafted, houtcome⟩
  | ok result =>
    obtain ⟨rfl, -⟩ := houtcome
    have hstands := hgrafted.kept hid
    refine ⟨_, _, wider, rfl, hgrafted.insert hstands fun below hbelow => ?_, rfl, root, ?_,
      .inl rfl⟩
    · exact .inl (Slot.table.inj hbelow).symm
    · rw [Store.lookup_insert (hgrafted.placed.lt_size hstands), if_pos ⟨rfl, rfl⟩]

/-- Merging a table into another one that stands under the name. -/
theorem entry_into_table {below : Nat} (hplaced : Placed store root stands) (hid : stands id place)
    (hfield : fields.lookup name = some (.record own))
    (hslot : (store.table branch).lookup name = some (.table inner))
    (hheld : (store.table id).lookup name = some (.table below)) (hne : below ≠ root)
    (hholds : Holds store (.table inner) (.record own) part) (hfresh : Fresh stands part)
    (hdescend : Grafts root limit own part) :
    ∃ outcome after wider,
      Merged.entry (mergeTable root limit) branch (.table id) name store = (outcome, after) ∧
      Grafted store after root stands wider part ∧
      SucceedsOrLacksTable outcome ()
        (StepEffect store after root id fields place stands name) := by
  have hbelow : stands below (place ++ [name]) := (hplaced.inner hid hheld).resolve_left hne
  obtain ⟨outcome, middle, wider, hmerge, hgrafted, houtcome⟩ :=
    hdescend store inner below _ stands hholds hplaced hbelow hfresh
  rw [entry_of_descend hslot hheld, hmerge]
  cases outcome with
  | error e => exact ⟨_, middle, wider, rfl, hgrafted, houtcome⟩
  | ok result =>
    obtain ⟨rfl, heffect⟩ := houtcome
    have hstands := hgrafted.kept hid
    have hlt := hgrafted.placed.lt_size hstands
    refine ⟨_, middle.insert id name (.table below), wider, rfl,
      hgrafted.insert hstands fun found hfound => ?_, rfl, ?_⟩
    · obtain rfl := Slot.table.inj hfound
      exact .inr (hgrafted.kept hbelow)
    rcases heffect with hleads | ⟨hinside, hmeets⟩
    · refine .inl ⟨below, ?_, .inr ?_⟩
      · rw [Store.lookup_insert hlt, if_pos ⟨rfl, rfl⟩]
      · refine hgrafted.placed.leadsToRoot_frame hleads (hgrafted.kept hbelow) (List.prefix_refl _)
          fun other start hother hprefix => Store.table_insert_of_ne hlt name _ ?_
        rintro rfl
        obtain rfl := hgrafted.placed.unique hstands hother
        exact not_cons_prefix_self _ name hprefix
    · have hkept : middle.table id = store.table id :=
        hinside id place hid (not_cons_prefix_self place name)
      refine .inr ⟨⟨fun other start hother hother' hnames => ?_, fun key hkey => ?_⟩, ?_⟩
      · rw [Store.table_insert_of_ne hlt name _ hother',
          hinside other start hother (hnames name (List.mem_singleton.mpr rfl))]
      · rw [Store.lookup_insert hlt, if_neg fun h => hkey (List.mem_singleton.mpr h.2), hkept]
      · refine not_meetsRootUnder_of_lookup hfield hheld fun hinner => ?_
        obtain ⟨key, hkey⟩ := hinner.exists_name hne
        exact hmeets key hkey

/-- One step of a merge into settings that may lead back to their root. -/
theorem entry_grafts (hplaced : Placed store root stands) (hid : stands id place)
    (hfield : fields.lookup name = some value)
    (hslot : (store.table branch).lookup name = some slot) (hholds : Holds store slot value part)
    (hfresh : Fresh stands part)
    (hdescend : ∀ inner, value = .record inner → 0 < limit ∧ Grafts root limit inner part) :
    ∃ outcome after wider,
      Merged.entry (mergeTable root limit) branch (.table id) name store = (outcome, after) ∧
      Grafted store after root stands wider part ∧
      SucceedsOrLacksTable outcome ()
        (StepEffect store after root id fields place stands name) := by
  have hlt := hplaced.lt_size hid
  by_cases hrecord : ∃ own, value = .record own
  · obtain ⟨own, rfl⟩ := hrecord
    obtain ⟨inner, rfl, -⟩ := hholds.exists_table
    obtain ⟨hpositive, hgrafts⟩ := hdescend own rfl
    cases hheld : (store.table id).lookup name with
    | none =>
      obtain ⟨wider, hwider, hinner, hkept, hnew⟩ :=
        hplaced.exists_graft hholds hfresh (place ++ [name])
      have hgrafted : Grafted store store root stands wider part :=
        ⟨rfl, hwider, hkept _ _, hnew _ _, fun _ => rfl⟩
      refine ⟨_, _, wider, entry_of_absent hslot hheld, hgrafted.insert (hkept _ _ hid) ?_, rfl,
        .inr ⟨ChangedOnlyUnder.insert hlt stands place name _, ?_⟩⟩
      · intro below hbelow
        obtain rfl := Slot.table.inj hbelow
        exact .inr hinner
      · rintro ⟨found, held, -, hfound, -⟩
        rw [hheld] at hfound
        cases hfound
    | some held =>
      by_cases hroot : held = .plain .null ∨ held = .table root
      · obtain ⟨outcome, after, wider, hentry, hgrafted, houtcome⟩ :=
          entry_into_root hplaced hid hslot hheld hroot hholds hfresh hgrafts
        refine ⟨outcome, after, wider, hentry, hgrafted, ?_⟩
        cases outcome with
        | error e => exact houtcome
        | ok result => exact ⟨houtcome.1, .inl houtcome.2⟩
      · rw [not_or] at hroot
        by_cases htable : ∃ below, held = .table below
        · obtain ⟨below, rfl⟩ := htable
          exact entry_into_table hplaced hid hfield hslot hheld (fun heq => hroot.2 (heq ▸ rfl))
            hholds hfresh hgrafts
        · have hother : ∀ below, held ≠ .table below := fun below heq => htable ⟨below, heq⟩
          obtain ⟨less, rfl⟩ : ∃ less, limit = less + 1 := ⟨limit - 1, by omega⟩
          have hmerge := mergeTable_of_not_table hother hroot.1 root less inner store
          rw [entry_of_descend hslot hheld]
          cases hkeys : Entries.keys (store.table inner) with
          | cons key keys =>
            rw [hkeys] at hmerge
            obtain ⟨e, he, hkind⟩ := hmerge
            rw [he]
            exact ⟨_, store, stands, rfl, .refl hplaced part, hkind⟩
          | nil =>
            rw [hkeys] at hmerge
            rw [show mergeTable root (less + 1) inner held store = _ from hmerge]
            refine ⟨_, _, stands, rfl, (Grafted.refl hplaced part).insert hid ?_, rfl,
              .inr ⟨ChangedOnlyUnder.insert hlt stands place name held, ?_⟩⟩
            · exact fun below heq => absurd heq (hother below)
            · refine not_meetsRootUnder_of_lookup hfield hheld fun hmeets => ?_
              cases hmeets with
              | null => exact hroot.1 rfl
              | root => exact hroot.2 rfl
              | inner => exact hother _ rfl
  · have hnot : ∀ below, slot ≠ .table below := by
      intro below heq
      subst heq
      exact hrecord hholds.exists_record
    refine ⟨_, _, stands, entry_of_not_table hslot hnot, (Grafted.refl hplaced part).insert hid ?_,
      rfl, .inr ⟨ChangedOnlyUnder.insert hlt stands place name slot, ?_⟩⟩
    · exact fun below heq => absurd heq (hnot below)
    · rintro ⟨found, held, hfound, -, hmeets⟩
      obtain rfl := Option.some.inj (hfield.symm.trans hfound)
      exact hrecord hmeets.exists_record

end

end

/-- The loop over the fields of a branch that are still to come. -/
theorem entries_graft {root limit branch id size : Nat} {fields : List (String × Value)}
    {parts : String → Finset Nat} {whole : Finset Nat} {place : List String}
    (hdistinct : (Entries.keys fields).Nodup) (hwhole : ∀ name, parts name ⊆ whole)
    (hout : branch ∉ whole) (hdisjoint : ∀ a b, a ≠ b → Disjoint (parts a) (parts b))
    (hdescend : ∀ name inner, (name, Value.record inner) ∈ fields →
      0 < limit ∧ Grafts root limit inner (parts name))
    {store : Store} {stands : Nat → List String → Prop} (hplaced : Placed store root stands)
    (hid : stands id place) (hbranch : ∀ place, ¬ stands branch place)
    (hpending : Pending store branch size fields parts (Fresh stands)) :
    ∃ outcome after wider,
      Merged.entries (Merged.entry (mergeTable root limit) branch (.table id)) branch size
        (Entries.keys fields) store = (outcome, after) ∧
      Grafted store after root stands wider whole ∧
      SucceedsOrLacksTable outcome ()
        ((∃ name ∈ Entries.keys fields, LeadsToRootUnder after root id name) ∨
        ChangedOnlyUnder store after stands id place (Entries.keys fields) ∧
          ∀ name, ¬ MeetsRootUnder store root fields id name) := by
  induction fields generalizing store stands with
  | nil =>
    refine ⟨_, store, stands, rfl, .refl hplaced whole, rfl, .inr ⟨⟨?_, ?_⟩, ?_⟩⟩
    · exact fun _ _ _ _ _ => rfl
    · exact fun _ _ => rfl
    · rintro name ⟨value, slot, hvalue, -, -⟩
      cases hvalue
  | cons field fields ih =>
    obtain ⟨name, value⟩ := field
    obtain ⟨hname, hothers⟩ := List.nodup_cons.mp hdistinct
    have hne : ∀ other ∈ Entries.keys fields, name ≠ other :=
      fun other hother heq => hname (heq ▸ hother)
    obtain ⟨slot, hslot, hholds, hfresh⟩ := hpending.exists_slot name value List.mem_cons_self
    have hlookup : ((name, value) :: fields : Entries Value).lookup name = some value := by
      rw [Entries.lookup_cons, if_pos rfl]
    obtain ⟨outcome, middle, wider, hstep, hgrafted, houtcome⟩ :=
      entry_grafts hplaced hid hlookup hslot hholds hfresh (by
        rintro inner rfl
        exact hdescend name inner List.mem_cons_self)
    cases outcome with
    | error e =>
      refine ⟨.error e, middle, wider, ?_, hgrafted.mono (hwhole name), houtcome⟩
      simp only [Entries.keys, List.map_cons, Merged.entries, hstep]
    | ok result =>
      obtain ⟨rfl, heffect⟩ := houtcome
      have hstays : ∀ place, ¬ wider branch place := by
        intro other hwider
        rcases hgrafted.placed_of_new hwider with hold | hin
        · exact hbranch other hold
        · exact hout (hwhole name hin)
      have hsame : middle.table branch = store.table branch := hgrafted.table_eq hstays
      have hlater : Pending middle branch size fields parts (Fresh wider) := by
        refine hpending.next hgrafted.size_eq hsame fun other hother hold => ?_
        have hnew := hgrafted.fresh hold (hdisjoint name other (hne other hother))
        exact ⟨hnew, fun deep hdeep => hgrafted.table_eq (hnew deep hdeep)⟩
      obtain ⟨outcome, after, widest, hloop, hrest, hrestOutcome⟩ := ih hothers
        (fun other inner hmem => hdescend other inner (List.mem_cons_of_mem _ hmem))
        hgrafted.placed (hgrafted.kept hid) hstays hlater
      refine ⟨outcome, after, widest, ?_, (hgrafted.mono (hwhole name)).trans hrest, ?_⟩
      · simpa only [Entries.keys, List.map_cons, Merged.entries, hstep, hlater.length_eq,
          if_true] using hloop
      cases outcome with
      | error e => exact hrestOutcome
      | ok result =>
        refine ⟨hrestOutcome.1, ?_⟩
        rcases hrestOutcome.2 with ⟨other, hother, hleads⟩ | ⟨hinside, hmeets⟩
        · exact .inl ⟨other, List.mem_cons_of_mem _ hother, hleads⟩
        rcases heffect with hleads | ⟨hfirst, hmeet⟩
        · exact .inl ⟨name, List.mem_cons_self,
            hinside.leadsToRootUnder hgrafted.placed (hgrafted.kept hid) hname hleads⟩
        · refine .inr ⟨hfirst.trans (fun _ _ => hgrafted.kept) hinside, fun key hkeyMeets => ?_⟩
          by_cases hkeyName : key = name
          · subst hkeyName
            exact hmeet hkeyMeets
          · have hother : key ∉ [name] := fun hin => hkeyName (List.mem_singleton.mp hin)
            obtain ⟨found, held, hfound, hheld⟩ :=
              hfirst.meetsRootUnder hplaced hid hother hkeyMeets
            rw [Entries.lookup_cons, if_neg hkeyName] at hfound
            exact hmeets key ⟨found, held, hfound, hheld⟩

/-- A new tree is merged into whatever stands somewhere in the settings. -/
theorem mergeTable_grafts (root : Nat) {limit : Nat} {fields : Entries Value} {part : Finset Nat}
    (hlimit : part.card ≤ limit) (hkeyed : (Value.record fields).wellKeyed = true) :
    Grafts root limit fields part := by
  intro store branch id place stands hbranch hplaced hid hfresh
  induction limit generalizing store branch id place stands fields part with
  | zero =>
    obtain ⟨inner, hinner, hmem⟩ := hbranch.exists_table
    exact absurd hmem (by rw [Finset.card_eq_zero.mp (Nat.le_zero.mp hlimit)]; simp)
  | succ limit ih =>
    obtain ⟨hdistinct, hinnerKeyed⟩ := wellKeyed_record_iff.mp hkeyed
    obtain ⟨parts, hmem, hparts, hapart, hcard, hheld⟩ := hbranch.exists_parts hdistinct hlimit
    have hpending : Pending store branch (store.table branch).length fields parts
        (Fresh stands) := by
      refine ⟨rfl, fun name value hin => ?_⟩
      obtain ⟨slot, hslot, hholds⟩ := hheld name value hin
      exact ⟨slot, hslot, hholds, fun inner hinner =>
        hfresh inner (Finset.mem_of_mem_erase (hparts name hinner))⟩
    have hdescend : ∀ name inner, (name, Value.record inner) ∈ fields →
        0 < limit ∧ Grafts root limit inner (parts name) := by
      intro name inner hin
      obtain ⟨slot, -, hholds⟩ := hheld name _ hin
      obtain ⟨below, -, hbelow⟩ := hholds.exists_table
      refine ⟨(Finset.card_pos.mpr ⟨below, hbelow⟩).trans_le (hcard name), ?_⟩
      have hkeyed : (Value.record inner).wellKeyed = true :=
        hinnerKeyed name _ ((Entries.lookup_eq_some_iff hdistinct).mpr hin)
      intro store' branch' id' place' stands' hholds' hplaced' hid' hfresh'
      exact ih (hcard name) hkeyed store' branch' id' place' stands' hholds' hplaced' hid' hfresh'
    obtain ⟨outcome, after, wider, hloop, hgrafted, houtcome⟩ :=
      entries_graft hdistinct hparts (Finset.notMem_erase branch part) hapart hdescend hplaced hid
        (hfresh branch hmem) hpending
    have hmerge : mergeTable root (limit + 1) branch (.table id) store =
        (outcome.map fun _ => Slot.table id, after) := by
      rw [mergeTable, masterOf_of_ne_null (by simp), hbranch.keys_eq, hloop]
      cases outcome <;> rfl
    refine ⟨_, after, wider, hmerge, hgrafted.mono (Finset.erase_subset branch part), ?_⟩
    cases outcome with
    | error e => exact houtcome
    | ok result =>
      refine ⟨rfl, ?_⟩
      rcases houtcome.2 with ⟨name, -, hleads⟩ | ⟨hinside, hmeets⟩
      · exact .inl hleads.leadsToRoot
      · exact .inr ⟨hinside.changedOnlyInside hplaced hid, hmeets⟩

end HelloExtensions.Settings
