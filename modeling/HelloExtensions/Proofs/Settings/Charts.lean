import HelloExtensions.Proofs.Settings.Merging
import HelloExtensions.Proofs.Settings.Paths

/-!
Merging tables that may be shared. A chart gives every table one place, whether it is reached from
the settings or from a branch; merging the branch at a place into the settings at this place keeps
to the chart, since what is taken over goes where it was. So only tables that the settings have
where the branch has another table change, and those of the branch itself do not. Nothing is said
here of merges that come upon null.
-/
namespace HelloExtensions.Settings

open Value

/-- The chart knows one place for each table, and all tables that these lead to. Tables that are
reached by names alone have no name twice. -/
structure Charted (store : Store) (chart : Nat → List Step → Prop) : Prop where
  unique : ∀ {id a b}, chart id a → chart id b → a = b
  lt_size : ∀ {id place}, chart id place → id < store.size
  distinct : ∀ {id : Nat} {names : List String}, chart id (names.map .name) →
    (Entries.keys (store.table id)).Nodup
  leads : ∀ {id place steps inner}, chart id place → store.Leads (.table id) steps inner →
    chart inner (place ++ steps)

namespace Store

/-- Some names lead to a table in the branch and to null in the target. -/
def LandsOnNull (store : Store) (branch target : Slot) : Prop :=
  ∃ names inner, store.at? branch names = some (.table inner) ∧
    store.at? target names = some (.plain .null)

/-- Some names lead to the table in the target and to another one in the branch. -/
def Overlays (store : Store) (branch target : Slot) (id : Nat) : Prop :=
  ∃ names other, store.at? target names = some (.table id) ∧
    store.at? branch names = some (.table other) ∧ other ≠ id

/-- The same below one name. -/
def OverlaysBy (store : Store) (branch target : Nat) (key : String) (id : Nat) : Prop :=
  ∃ inner slot, (store.table branch).lookup key = some (.table inner) ∧
    (store.table target).lookup key = some slot ∧ store.Overlays (.table inner) slot id

end Store

section

variable {store middle after : Store} {chart : Nat → List Step → Prop} {id branch other : Nat}
  {key : String} {keys : List String} {slot target : Slot} {place start : List Step}
  {names : List String}

theorem Store.OverlaysBy.overlays (h : store.OverlaysBy branch id key other) :
    store.Overlays (.table branch) (.table id) other := by
  obtain ⟨inner, slot, hinner, hslot, names, found, hat, hfound, hne⟩ := h
  refine ⟨key :: names, found, ?_, ?_, hne⟩
  · rw [Store.at?_cons_of_lookup hslot, hat]
  · rw [Store.at?_cons_of_lookup hinner, hfound]

theorem Store.LandsOnNull.of_lookup {inner : Nat}
    (hinner : (store.table branch).lookup key = some (.table inner))
    (hslot : (store.table id).lookup key = some slot) (h : store.LandsOnNull (.table inner) slot) :
    store.LandsOnNull (.table branch) (.table id) := by
  obtain ⟨names, found, hfound, hnull⟩ := h
  refine ⟨key :: names, found, ?_, ?_⟩
  · rw [Store.at?_cons_of_lookup hinner, hfound]
  · rw [Store.at?_cons_of_lookup hslot, hnull]

namespace Charted

theorem leads_of_lookup (h : Charted store chart) (hid : chart id place)
    (hslot : (store.table id).lookup key = some slot) {steps : List Step} {inner : Nat}
    (hleads : store.Leads slot steps inner) : chart inner (place ++ .name key :: steps) :=
  h.leads hid (.name hslot hleads)

theorem chart_of_lookup (h : Charted store chart) (hid : chart id place) {inner : Nat}
    (hslot : (store.table id).lookup key = some (.table inner)) :
    chart inner (place ++ [.name key]) := h.leads_of_lookup hid hslot (.here inner)

/-- Trees that share no table are charted by the steps that lead to their tables. -/
theorem of_holdsItems {before : Store} {slots : List Slot} {values : List Value}
    (h : HoldsItems before store slots values)
    (hkeyed : ∀ value ∈ values, value.wellKeyed = true) :
    Charted store fun id place => ∃ slot ∈ slots, store.Leads slot place id := by
  obtain ⟨hlength, parts, -, hdisjoint, hitems⟩ := h
  have hheld : ∀ slot ∈ slots, ∃ (position : Nat) (value : Value), slots[position]? = some slot ∧
      value ∈ values ∧ Holds store slot value (parts position) := by
    intro slot hslot
    obtain ⟨position, hposition⟩ := List.mem_iff_getElem?.mp hslot
    obtain ⟨value, hvalue⟩ := exists_of_length_eq hlength hposition
    exact ⟨position, value, hposition, List.mem_of_getElem? hvalue,
      hitems position slot value hposition hvalue⟩
  refine ⟨?_, ?_, ?_, ?_⟩
  · rintro id a b ⟨slot, hslot, ha⟩ ⟨other, hother, hb⟩
    obtain ⟨i, value, hi, -, hholds⟩ := hheld slot hslot
    obtain ⟨j, otherValue, hj, -, hotherHolds⟩ := hheld other hother
    by_cases hij : i = j
    · subst hij
      obtain rfl := Option.some.inj (hi.symm.trans hj)
      exact hholds.eq_of_leads ha hb
    · exact absurd (hotherHolds.mem_of_leads hb).1
        (Finset.disjoint_left.mp (hdisjoint i j hij) (hholds.mem_of_leads ha).1)
  · rintro id place ⟨slot, hslot, hleads⟩
    obtain ⟨_, value, -, -, hholds⟩ := hheld slot hslot
    exact (hholds.mem_of_leads hleads).2
  · rintro id names ⟨slot, hslot, hleads⟩
    obtain ⟨_, value, -, hvalue, hholds⟩ := hheld slot hslot
    exact hholds.nodup_keys (hkeyed value hvalue) (Store.leads_map_name_iff.mp hleads)
  · rintro id place steps inner ⟨slot, hslot, hleads⟩ hinner
    exact ⟨slot, hslot, hleads.append hinner⟩

/-- What is written has its places in the chart already. A slot whose tables have their places
before the write leads nowhere else after it. -/
theorem insert (h : Charted store chart) (hid : chart id place)
    (hslot : ∀ steps inner, store.Leads slot steps inner →
      chart inner (place ++ .name key :: steps)) :
    Charted (store.insert id key slot) chart := by
  have hlt := h.lt_size hid
  refine ⟨h.unique, fun hother => by rw [Store.size_insert]; exact h.lt_size hother, ?_, ?_⟩
  · intro other names hother
    by_cases heq : other = id
    · subst heq
      have hold := h.distinct hother
      rw [Store.table_insert_self hlt, Entries.keys_insert]
      split
      · exact hold
      · next hnew => exact List.concat_eq_append ▸ hold.concat hnew
    · rw [Store.table_insert_of_ne hlt key slot heq]
      exact h.distinct hother
  · have hkeeps : ∀ {found : Slot} {steps : List Step} {inner : Nat},
        (store.insert id key slot).Leads found steps inner → ∀ {start : List Step},
          (∀ steps inner, store.Leads found steps inner → chart inner (start ++ steps)) →
          chart inner (start ++ steps) := by
      intro found steps inner hleads
      induction hleads with
      | here id => exact fun hfound => hfound [] id (.here id)
      | @item number position inner slots found steps hitem hleads ih =>
        intro start hfound
        have hdeep : chart inner (start ++ [.item position] ++ steps) :=
          ih fun steps inner hinner => by
            rw [List.append_assoc]
            exact hfound _ inner (.item hitem hinner)
        rwa [List.append_assoc] at hdeep
      | @name outer inner name found steps hlookup hleads ih =>
        intro start hfound
        have houter := hfound [] outer (.here outer)
        rw [List.append_nil] at houter
        have hdeep : chart inner (start ++ [.name name] ++ steps) :=
          ih fun steps inner hinner => by
            rw [List.append_assoc]
            rw [Store.lookup_insert hlt] at hlookup
            by_cases hwritten : outer = id ∧ name = key
            · rw [if_pos hwritten] at hlookup
              obtain ⟨rfl, rfl⟩ := hwritten
              obtain rfl := Option.some.inj hlookup
              obtain rfl := h.unique hid houter
              exact hslot steps inner hinner
            · rw [if_neg hwritten] at hlookup
              exact h.leads_of_lookup houter hlookup hinner
        rwa [List.append_assoc] at hdeep
    intro other start steps inner hother hleads
    exact hkeeps hleads fun steps inner hinner => h.leads hother hinner

/-- What names lead to depends on tables further in alone. -/
theorem at?_frame (h : Charted store chart) (hslot : ∀ id, slot = .table id → chart id start)
    (hsame : ∀ other steps, chart other (start ++ steps) → after.table other = store.table other)
    (names : List String) : after.at? slot names = store.at? slot names := by
  induction names generalizing slot start with
  | nil => rw [Store.at?_nil, Store.at?_nil]
  | cons name names ih =>
    by_cases htable : ∃ id, slot = .table id
    · obtain ⟨id, rfl⟩ := htable
      have hid := hslot id rfl
      rw [Store.at?_cons, Store.at?_cons, hsame id [] (by rwa [List.append_nil])]
      cases hlookup : (store.table id).lookup name with
      | none => rfl
      | some found =>
        rw [Option.bind_some, Option.bind_some]
        have hfound : ∀ inner, found = .table inner → chart inner (start ++ [.name name]) := by
          rintro inner rfl
          exact h.chart_of_lookup hid hlookup
        refine ih hfound fun other steps hother => ?_
        rw [List.append_assoc] at hother
        exact hsame other _ hother
    · have hnot : ∀ id, slot ≠ .table id := fun id heq => htable ⟨id, heq⟩
      rw [Store.at?_of_not_table hnot, Store.at?_of_not_table hnot]

theorem chart_of_at? (h : Charted store chart) (hid : chart id place)
    (hat : store.at? (.table id) names = some (.table other)) :
    chart other (place ++ names.map .name) := h.leads hid (Store.leads_map_name_iff.mpr hat)

/-- What is overlaid below a name stands further in. -/
theorem chart_of_overlaysBy (h : Charted store chart) (hid : chart id place)
    (hover : store.OverlaysBy branch id key other) :
    ∃ names : List String, chart other (place ++ .name key :: names.map .name) := by
  obtain ⟨inner, slot, -, hslot, names, found, hat, -, -⟩ := hover
  exact ⟨names, h.leads_of_lookup hid hslot (Store.leads_map_name_iff.mpr hat)⟩

end Charted

theorem map_name_concat (names : List String) (key : String) :
    (names ++ [key]).map Step.name = names.map .name ++ [.name key] := by
  rw [List.map_append, List.map_singleton]

/-- After going through these keys, only the table itself has changed, under them, and what is
overlaid below them. -/
structure KeptUnder (before after : Store) (chart : Nat → List Step → Prop) (branch id : Nat)
    (keys : List String) : Prop where
  size_eq : after.size = before.size
  charted : Charted after chart
  lookup_eq : ∀ key, key ∉ keys → (after.table id).lookup key = (before.table id).lookup key
  table_eq : ∀ other, other ≠ id → (∀ key ∈ keys, ¬ before.OverlaysBy branch id key other) →
    after.table other = before.table other

namespace KeptUnder

theorem refl (h : Charted store chart) (branch id : Nat) (keys : List String) :
    KeptUnder store store chart branch id keys :=
  ⟨rfl, h, fun _ _ => rfl, fun _ _ _ => rfl⟩

theorem insert (h : Charted store chart) (hbranch : chart branch place) (hid : chart id place)
    (hslot : (store.table branch).lookup key = some slot) :
    KeptUnder store (store.insert id key slot) chart branch id [key] := by
  have hlt := h.lt_size hid
  refine ⟨Store.size_insert _ _ _ _, ?_, fun name hname => ?_, fun other hne _ => ?_⟩
  · exact h.insert hid fun steps inner hleads => h.leads_of_lookup hbranch hslot hleads
  · rw [Store.lookup_insert hlt, if_neg fun h => hname (List.mem_singleton.mpr h.2)]
  · exact Store.table_insert_of_ne hlt key slot hne

/-- Below any other key nothing has changed. -/
theorem table_eq_of_chart (h : KeptUnder store after chart branch id keys)
    (hstore : Charted store chart) (hid : chart id place) (hkey : key ∉ keys) {steps : List Step}
    (hother : chart other (place ++ .name key :: steps)) :
    after.table other = store.table other := by
  refine h.table_eq other ?_ fun name hname hover => ?_
  · rintro rfl
    exact List.cons_ne_nil _ _ (List.append_right_eq_self.mp (hstore.unique hother hid))
  · obtain ⟨names, hnames⟩ := hstore.chart_of_overlaysBy hid hover
    have heq := List.append_cancel_left (hstore.unique hother hnames)
    obtain rfl := Step.name.inj (List.cons.inj heq).1
    exact hkey hname

/-- Nor has another branch at the same place changed. -/
theorem branch_eq (h : KeptUnder store after chart branch id keys) (hstore : Charted store chart)
    (hid : chart id place) (hbranch : chart branch place) (hne : branch ≠ id) :
    after.table branch = store.table branch := by
  refine h.table_eq branch hne fun key _ hover => ?_
  obtain ⟨names, hnames⟩ := hstore.chart_of_overlaysBy hid hover
  exact List.cons_ne_nil _ _ (List.append_right_eq_self.mp (hstore.unique hnames hbranch))

theorem at?_eq (h : KeptUnder store after chart branch id keys) (hstore : Charted store chart)
    (hid : chart id place) (hkey : key ∉ keys) (hslot : ∀ inner, slot = .table inner →
      chart inner (place ++ [.name key])) (names : List String) :
    after.at? slot names = store.at? slot names := by
  refine hstore.at?_frame hslot (fun other steps hother => ?_) names
  rw [List.append_assoc] at hother
  exact h.table_eq_of_chart hstore hid hkey hother

/-- The two tables below another key are what they were, and so is what names lead to in them. -/
theorem lookups_eq (h : KeptUnder store after chart branch id keys) (hstore : Charted store chart)
    (hid : chart id place) (hbranch : chart branch place) (hne : branch ≠ id) (hkey : key ∉ keys)
    {inner : Nat} (hinner : (after.table branch).lookup key = some (.table inner))
    (hslot : (after.table id).lookup key = some slot) :
    (store.table branch).lookup key = some (.table inner) ∧
      (store.table id).lookup key = some slot ∧
      (∀ names, after.at? (.table inner) names = store.at? (.table inner) names) ∧
      ∀ names, after.at? slot names = store.at? slot names := by
  rw [h.branch_eq hstore hid hbranch hne] at hinner
  rw [h.lookup_eq key hkey] at hslot
  refine ⟨hinner, hslot, fun names => ?_, fun names => ?_⟩
  · refine h.at?_eq hstore hid hkey (fun found hfound => ?_) names
    obtain rfl := Slot.table.inj hfound
    exact hstore.chart_of_lookup hbranch hinner
  · refine h.at?_eq hstore hid hkey (fun found hfound => ?_) names
    subst hfound
    exact hstore.chart_of_lookup hid hslot

theorem overlaysBy (h : KeptUnder store after chart branch id keys) (hstore : Charted store chart)
    (hid : chart id place) (hbranch : chart branch place) (hne : branch ≠ id) (hkey : key ∉ keys)
    (hover : after.OverlaysBy branch id key other) : store.OverlaysBy branch id key other := by
  obtain ⟨inner, slot, hinner, hslot, names, found, hat, hfound, hdiffers⟩ := hover
  obtain ⟨hinner, hslot, hinnerAt, hslotAt⟩ :=
    h.lookups_eq hstore hid hbranch hne hkey hinner hslot
  exact ⟨inner, slot, hinner, hslot, names, found, hslotAt names ▸ hat,
    hinnerAt names ▸ hfound, hdiffers⟩

theorem trans (h : KeptUnder store middle chart branch id [key]) (hstore : Charted store chart)
    (hid : chart id place) (hbranch : chart branch place) (hne : branch ≠ id) (hkey : key ∉ keys)
    (hnext : KeptUnder middle after chart branch id keys) :
    KeptUnder store after chart branch id (key :: keys) := by
  have hapart : ∀ name ∈ keys, name ∉ [key] := fun name hname hin =>
    hkey (List.mem_singleton.mp hin ▸ hname)
  refine ⟨hnext.size_eq.trans h.size_eq, hnext.charted, fun name hname => ?_,
    fun other hother hnot => ?_⟩
  · rw [List.mem_cons, not_or] at hname
    rw [hnext.lookup_eq name hname.2,
      h.lookup_eq name fun hin => hname.1 (List.mem_singleton.mp hin)]
  · rw [hnext.table_eq other hother fun name hname hover => hnot name
        (List.mem_cons_of_mem key hname)
        (h.overlaysBy hstore hid hbranch hne (hapart name hname) hover),
      h.table_eq other hother fun name hname => hnot name
        (List.mem_singleton.mp hname ▸ List.mem_cons_self)]

end KeptUnder

/-- After a merge only tables that are overlaid have changed. -/
structure Kept (before after : Store) (chart : Nat → List Step → Prop) (branch target : Slot) :
    Prop where
  size_eq : after.size = before.size
  charted : Charted after chart
  table_eq : ∀ other, ¬ before.Overlays branch target other → after.table other = before.table other

theorem Kept.refl (h : Charted store chart) (branch target : Slot) :
    Kept store store chart branch target := ⟨rfl, h, fun _ _ => rfl⟩

/-- What is asked of merging at most `limit` tables deep. -/
def KeepsChart (root limit : Nat) (chart : Nat → List Step → Prop) : Prop :=
  ∀ store branch target (names : List String), Charted store chart →
    chart branch (names.map .name) → (∀ id, target = .table id → chart id (names.map .name)) →
    ¬ store.LandsOnNull (.table branch) target →
    ∃ outcome after, mergeTable root limit branch target store = (outcome, after) ∧
      Kept store after chart (.table branch) target ∧
      ∀ result, outcome = .ok result → result = target

theorem Store.insert_of_lookup (h : (store.table id).lookup key = some slot) :
    store.insert id key slot = store := by
  have htables : store.tables.modify id (Entries.insert key slot) = store.tables := by
    apply List.ext_getElem?
    intro position
    rw [List.getElem?_modify]
    cases hfound : store.tables[position]? with
    | none => rfl
    | some found =>
      rw [Option.map_eq_map, Option.map_some]
      split
      · next heq =>
        subst heq
        rw [Store.table, List.getD_eq_getElem?_getD, hfound, Option.getD_some] at h
        rw [Entries.insert_of_lookup h]
      · rfl
  rw [Store.insert, Store.modify, htables]

/-- One step of a merge into another table at the same place. The table that is written to stands
further out than all that the descent changes. -/
theorem entry_keeps {root limit : Nat} (hdescend : KeepsChart root limit chart)
    (hstore : Charted store chart) (hbranch : chart branch (names.map .name))
    (hid : chart id (names.map .name))
    (hspares : ∀ inner slot, (store.table branch).lookup key = some (.table inner) →
      (store.table id).lookup key = some slot → ¬ store.LandsOnNull (.table inner) slot) :
    ∃ outcome after,
      Merged.entry (mergeTable root limit) branch (.table id) key store = (outcome, after) ∧
      KeptUnder store after chart branch id [key] := by
  cases hslot : (store.table branch).lookup key with
  | none => exact ⟨.ok (), store, by simp only [Merged.entry, hslot], .refl hstore branch id [key]⟩
  | some slot =>
    by_cases htable : ∃ inner, slot = .table inner
    · obtain ⟨inner, rfl⟩ := htable
      cases hheld : (store.table id).lookup key with
      | none => exact ⟨_, _, entry_of_absent hslot hheld, .insert hstore hbranch hid hslot⟩
      | some held =>
        have hinner := hstore.chart_of_lookup hbranch hslot
        rw [← map_name_concat] at hinner
        obtain ⟨outcome, after, hmerge, hkept, hresult⟩ := hdescend store inner held _ hstore hinner
          (fun found hfound => by
            subst hfound
            rw [map_name_concat]
            exact hstore.chart_of_lookup hid hheld)
          (hspares inner held hslot hheld)
        have hsame : after.table id = store.table id := by
          refine hkept.table_eq id fun hover => ?_
          obtain ⟨more, hmore⟩ :=
            hstore.chart_of_overlaysBy hid ⟨inner, held, hslot, hheld, hover⟩
          exact List.cons_ne_nil _ _ (List.append_right_eq_self.mp (hstore.unique hmore hid))
        have hunder : KeptUnder store after chart branch id [key] := by
          refine ⟨hkept.size_eq, hkept.charted, fun _ _ => by rw [hsame], fun other _ hnot => ?_⟩
          exact hkept.table_eq other fun hover =>
            hnot key (List.mem_singleton.mpr rfl) ⟨inner, held, hslot, hheld, hover⟩
        rw [entry_of_descend hslot hheld, hmerge]
        cases outcome with
        | error e => exact ⟨_, after, rfl, hunder⟩
        | ok result =>
          obtain rfl := hresult result rfl
          rw [← hsame] at hheld
          exact ⟨_, _, rfl, (Store.insert_of_lookup hheld).symm ▸ hunder⟩
    · have hnot : ∀ inner, slot ≠ .table inner := fun inner heq => htable ⟨inner, heq⟩
      exact ⟨_, _, entry_of_not_table hslot hnot, .insert hstore hbranch hid hslot⟩

theorem entries_keep {root limit : Nat} (size : Nat) (hdescend : KeepsChart root limit chart)
    (hdistinct : keys.Nodup) (hstore : Charted store chart)
    (hbranch : chart branch (names.map .name)) (hid : chart id (names.map .name))
    (hne : branch ≠ id)
    (hspares : ∀ key ∈ keys, ∀ inner slot, (store.table branch).lookup key = some (.table inner) →
      (store.table id).lookup key = some slot → ¬ store.LandsOnNull (.table inner) slot) :
    ∃ outcome after, Merged.entries (Merged.entry (mergeTable root limit) branch (.table id)) branch
        size keys store = (outcome, after) ∧ KeptUnder store after chart branch id keys := by
  induction keys generalizing store with
  | nil => exact ⟨_, store, rfl, .refl hstore branch id []⟩
  | cons key keys ih =>
    obtain ⟨hkey, hothers⟩ := List.nodup_cons.mp hdistinct
    obtain ⟨outcome, middle, hstep, hkept⟩ :=
      entry_keeps hdescend hstore hbranch hid (hspares key List.mem_cons_self)
    have hstop : KeptUnder store middle chart branch id (key :: keys) :=
      hkept.trans hstore hid hbranch hne hkey (.refl hkept.charted branch id keys)
    rw [Merged.entries, hstep]
    cases outcome with
    | error e => exact ⟨.error e, middle, rfl, hstop⟩
    | ok result =>
      dsimp only
      split
      · have hlater : ∀ name ∈ keys, ∀ inner slot,
            (middle.table branch).lookup name = some (.table inner) →
            (middle.table id).lookup name = some slot →
            ¬ middle.LandsOnNull (.table inner) slot := by
          rintro name hname inner slot hinner hslot ⟨names, found, hfound, hnull⟩
          have hapart : name ∉ [key] := fun hin => hkey (List.mem_singleton.mp hin ▸ hname)
          obtain ⟨hinner, hslot, hinnerAt, hslotAt⟩ :=
            hkept.lookups_eq hstore hid hbranch hne hapart hinner hslot
          exact hspares name (List.mem_cons_of_mem key hname) inner slot hinner hslot
            ⟨names, found, hinnerAt names ▸ hfound, hslotAt names ▸ hnull⟩
        obtain ⟨outcome, after, hloop, hrest⟩ := ih hothers hkept.charted hlater
        exact ⟨outcome, after, hloop, hkept.trans hstore hid hbranch hne hkey hrest⟩
      · exact ⟨.error .resized, middle, rfl, hstop⟩

theorem entry_self {root limit : Nat} (id : Nat)
    (hdescend : ∀ inner, ∃ outcome, mergeTable root limit inner (.table inner) store =
      (outcome, store) ∧ ∀ result, outcome = .ok result → result = .table inner)
    (key : String) :
    ∃ outcome,
      Merged.entry (mergeTable root limit) id (.table id) key store = (outcome, store) := by
  cases hslot : (store.table id).lookup key with
  | none => exact ⟨.ok (), by simp only [Merged.entry, hslot]⟩
  | some slot =>
    by_cases htable : ∃ inner, slot = .table inner
    · obtain ⟨inner, rfl⟩ := htable
      obtain ⟨outcome, hmerge, hresult⟩ := hdescend inner
      rw [entry_of_descend hslot hslot, hmerge]
      cases outcome with
      | error e => exact ⟨_, rfl⟩
      | ok result =>
        obtain rfl := hresult result rfl
        exact ⟨.ok (), by dsimp only; rw [Store.insert_of_lookup hslot]⟩
    · refine ⟨.ok (), ?_⟩
      rw [entry_of_not_table hslot fun inner heq => htable ⟨inner, heq⟩,
        Store.insert_of_lookup hslot]

/-- Steps that change nothing make up a loop that changes nothing. -/
theorem entries_unchanged {step : String → Store → Merged Unit}
    (hstep : ∀ key, ∃ outcome, step key store = (outcome, store)) (branch size : Nat)
    (keys : List String) :
    ∃ outcome, Merged.entries step branch size keys store = (outcome, store) := by
  induction keys with
  | nil => exact ⟨_, rfl⟩
  | cons key keys ih =>
    obtain ⟨outcome, hstep⟩ := hstep key
    rw [Merged.entries, hstep]
    cases outcome with
    | error e => exact ⟨_, rfl⟩
    | ok result =>
      dsimp only
      split
      · exact ih
      · exact ⟨_, rfl⟩

/-- To merge a table into itself changes nothing. -/
theorem mergeTable_self (root limit id : Nat) (store : Store) :
    ∃ outcome, mergeTable root limit id (.table id) store = (outcome, store) ∧
      ∀ result, outcome = .ok result → result = .table id := by
  induction limit generalizing id with
  | zero => exact ⟨.error .endless, rfl, fun result h => by cases h⟩
  | succ limit ih =>
    obtain ⟨outcome, hentries⟩ := entries_unchanged (entry_self id ih) id
      (store.table id).length (Entries.keys (store.table id))
    rw [mergeTable, masterOf_of_ne_null (by simp), hentries]
    cases outcome with
    | error e => exact ⟨_, rfl, fun result h => by cases h⟩
    | ok result => exact ⟨_, rfl, fun result h => (Except.ok.inj h).symm⟩

/-- A merge that spares null keeps to the chart. -/
theorem mergeTable_keeps (root limit : Nat) (chart : Nat → List Step → Prop) :
    KeepsChart root limit chart := by
  induction limit with
  | zero =>
    intro store branch target names hstore _ _ _
    exact ⟨.error .endless, store, rfl, .refl hstore _ _, fun result h => by cases h⟩
  | succ limit ih =>
    intro store branch target names hstore hbranch htarget hspares
    have hnull : target ≠ .plain .null := by
      rintro rfl
      exact hspares ⟨[], branch, Store.at?_nil _ _, Store.at?_nil _ _⟩
    by_cases htable : ∃ id, target = .table id
    · obtain ⟨id, rfl⟩ := htable
      by_cases hne : branch = id
      · subst hne
        obtain ⟨outcome, hmerge, hresult⟩ := mergeTable_self root (limit + 1) branch store
        exact ⟨outcome, store, hmerge, .refl hstore _ _, hresult⟩
      · have hinnerSpares : ∀ key ∈ Entries.keys (store.table branch), ∀ inner slot,
            (store.table branch).lookup key = some (.table inner) →
            (store.table id).lookup key = some slot → ¬ store.LandsOnNull (.table inner) slot :=
          fun key _ inner slot hinner hslot hlands => hspares (.of_lookup hinner hslot hlands)
        obtain ⟨outcome, after, hloop, hkept⟩ := entries_keep (store.table branch).length ih
          (hstore.distinct hbranch) hstore hbranch (htarget id rfl) hne hinnerSpares
        refine ⟨outcome.map fun _ => .table id, after, ?_, ⟨hkept.size_eq, hkept.charted, ?_⟩, ?_⟩
        · rw [mergeTable, masterOf_of_ne_null hnull, hloop]
          cases outcome <;> rfl
        · intro other hnot
          refine hkept.table_eq other ?_ fun key _ hover => hnot hover.overlays
          rintro rfl
          exact hnot ⟨[], branch, Store.at?_nil _ _, Store.at?_nil _ _, hne⟩
        · intro result hresult
          cases outcome with
          | error e => cases hresult
          | ok found => exact (Except.ok.inj hresult).symm
    · have hmerge := mergeTable_of_not_table (fun id heq => htable ⟨id, heq⟩) hnull root limit
        branch store
      split at hmerge
      · exact ⟨_, store, hmerge, .refl hstore _ _, fun result h => (Except.ok.inj h).symm⟩
      · obtain ⟨e, he, -⟩ := hmerge
        exact ⟨_, store, he, .refl hstore _ _, fun result h => by cases h⟩

end

end HelloExtensions.Settings
