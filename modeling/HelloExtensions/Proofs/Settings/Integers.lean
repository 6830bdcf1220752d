import HelloExtensions.Proofs.Settings.OverlayPaths
import HelloExtensions.Proofs.Settings.Trees
import HelloExtensions.Settings.Snapshot

/-!
Integers in settings. An error that quotes settings quotes what can be seen of the slot that holds
them. If no record has a name twice, then these are the integers of the value that is held, so it
can be told from the value whether one of them is too long to be written. A merge leads to no record
that has a name twice.
-/
namespace HelloExtensions

namespace Value

mutual

/-- No record in the value has a name twice. -/
def distinctNames : Value → Bool
  | .list items => itemsDistinct items
  | .record fields => decide (Entries.keys fields).Nodup && fieldsDistinct fields
  | _ => true

def itemsDistinct : List Value → Bool
  | [] => true
  | value :: items => value.distinctNames && itemsDistinct items

def fieldsDistinct : List (String × Value) → Bool
  | [] => true
  | (_, value) :: fields => value.distinctNames && fieldsDistinct fields

end

theorem distinctNames_list_iff {items : List Value} :
    (Value.list items).distinctNames = true ↔ ∀ value ∈ items, value.distinctNames = true := by
  have hall : itemsDistinct items = items.all distinctNames := by
    induction items with
    | nil => rw [itemsDistinct, List.all_nil]
    | cons value items ih => rw [itemsDistinct, List.all_cons, ih]
  rw [distinctNames, hall, List.all_eq_true]

theorem distinctNames_record_iff {fields : Entries Value} :
    (Value.record fields).distinctNames = true ↔ (Entries.keys fields).Nodup ∧
      ∀ name value, fields.lookup name = some value → value.distinctNames = true := by
  have hall : fieldsDistinct fields = fields.all fun field => field.2.distinctNames := by
    induction fields with
    | nil => rw [fieldsDistinct, List.all_nil]
    | cons field fields ih => rw [fieldsDistinct, List.all_cons, ih]
  rw [distinctNames, Bool.and_eq_true, decide_eq_true_eq, hall]
  exact and_congr_right fun hdistinct => Entries.all_iff hdistinct

theorem wellKeyed_of_distinctNames {value : Value} (h : value.distinctNames = true) :
    value.wellKeyed = true := by
  induction value using induction_lookup with
  | plain value hvalue =>
    cases value with
    | record fields => exact absurd rfl (hvalue fields)
    | _ => rfl
  | record fields ih =>
    obtain ⟨hnames, hinner⟩ := distinctNames_record_iff.mp h
    exact wellKeyed_record_iff.mpr ⟨hnames, fun name inner hlookup =>
      ih name inner hlookup (hinner name inner hlookup)⟩

theorem nodup_keys_of_mergedFields? {fields target result : Entries Value}
    (htarget : (Entries.keys target).Nodup) (h : mergedFields? fields target = some result) :
    (Entries.keys result).Nodup := by
  induction fields generalizing target with
  | nil =>
    rw [mergedFields?] at h
    exact Option.some.inj h ▸ htarget
  | cons field fields ih =>
    obtain ⟨name, value⟩ := field
    rw [mergedFields?] at h
    obtain ⟨inner, -, hrest⟩ := Option.bind_eq_some_iff.mp h
    exact ih (Entries.nodup_keys_insert name inner htarget) hrest

theorem distinctNames_insert {fields : Entries Value} {value : Value}
    (hfields : (Value.record fields).distinctNames = true) (hvalue : value.distinctNames = true)
    (name : String) : (Value.record (Entries.insert name value fields)).distinctNames = true := by
  obtain ⟨hnames, hinner⟩ := distinctNames_record_iff.mp hfields
  refine distinctNames_record_iff.mpr ⟨Entries.nodup_keys_insert name value hnames, ?_⟩
  intro other inner hlookup
  rw [Entries.lookup_insert] at hlookup
  split at hlookup
  · exact Option.some.inj hlookup ▸ hvalue
  · exact hinner other inner hlookup

theorem distinctNames_of_merged? {value result : Value} {target? : Option Value}
    (hvalue : value.distinctNames = true)
    (htarget : ∀ found ∈ target?, found.distinctNames = true)
    (h : value.merged? target? = some result) : result.distinctNames = true := by
  induction value using induction_lookup generalizing target? result with
  | plain value hplain =>
    rw [merged?_of_not_record hplain] at h
    exact Option.some.inj h ▸ hvalue
  | record fields ih =>
    cases target? with
    | none =>
      rw [merged?_none] at h
      exact Option.some.inj h ▸ hvalue
    | some found =>
      by_cases hrecord : ∃ below, found = .record below
      · obtain ⟨below, rfl⟩ := hrecord
        obtain ⟨hnames, hinner⟩ := distinctNames_record_iff.mp hvalue
        obtain ⟨hbelow, hdeep⟩ := distinctNames_record_iff.mp (htarget _ rfl)
        rw [merged?_record] at h
        obtain ⟨joined, hjoined, rfl⟩ := Option.map_eq_some_iff.mp h
        refine distinctNames_record_iff.mpr
          ⟨nodup_keys_of_mergedFields? hbelow hjoined, fun name inner hlookup => ?_⟩
        have hmerged := lookup_mergedFields? hnames hjoined name
        cases hfield : fields.lookup name with
        | none =>
          rw [hfield] at hmerged
          exact hdeep name inner (hmerged ▸ hlookup)
        | some own =>
          rw [hfield] at hmerged
          obtain ⟨both, hboth, hfound⟩ := hmerged
          obtain rfl := Option.some.inj (hfound.symm.trans hlookup)
          exact ih name own hfield (hinner name own hfield) (fun old hold => hdeep name old hold)
            hboth
      · rw [merged?_over fun below heq => hrecord ⟨below, heq⟩] at h
        exact eq_of_leftAlone? h ▸ htarget found rfl

end Value

namespace Settings

/-- Items that are seen with the integers of the values are a list that is seen so. -/
theorem Snapshot.itemIntegers_expandItems (see : Nat → Snapshot) {slots : List Slot}
    {values : List Value} (hlength : slots.length = values.length)
    (h : ∀ (i : Nat) slot (value : Value), slots[i]? = some slot → values[i]? = some value →
      (expand see slot).literalIntegers = value.literalIntegers) :
    itemIntegers (expandItems see slots) = Value.itemIntegers values := by
  induction slots generalizing values with
  | nil =>
    obtain rfl := List.length_eq_zero_iff.mp hlength.symm
    rfl
  | cons slot slots ih =>
    cases values with
    | nil => cases hlength
    | cons value values =>
      have hfirst := h 0 slot value rfl rfl
      have hothers := ih (Nat.succ.inj hlength) fun i => h (i + 1)
      rw [expandItems, itemIntegers, Value.itemIntegers, hfirst, hothers]

/-- The same for entries and fields. -/
theorem Snapshot.entryIntegers_map (see : Nat → Snapshot) {table : Table}
    {fields : Entries Value} (hkeys : Entries.keys table = Entries.keys fields)
    (hdistinct : (Entries.keys fields).Nodup)
    (h : ∀ name slot (value : Value), table.lookup name = some slot →
      fields.lookup name = some value →
        (expand see slot).literalIntegers = value.literalIntegers) :
    entryIntegers (table.map fun entry => (entry.1, expand see entry.2)) =
      Value.fieldIntegers fields := by
  induction table generalizing fields with
  | nil =>
    obtain rfl : fields = [] := List.map_eq_nil_iff.mp hkeys.symm
    rfl
  | cons entry table ih =>
    obtain ⟨name, slot⟩ := entry
    cases fields with
    | nil => cases hkeys
    | cons field fields =>
      obtain ⟨key, value⟩ := field
      obtain ⟨rfl, hothers⟩ := List.cons.inj hkeys
      obtain ⟨hname, hdistinct⟩ := List.nodup_cons.mp hdistinct
      have hfirst := h name slot value (by rw [Entries.lookup_cons, if_pos rfl])
        (by rw [Entries.lookup_cons, if_pos rfl])
      have hrest := ih hothers hdistinct fun other found inner hfound hinner => by
        have hne : other ≠ name := by
          rintro rfl
          rw [Entries.lookup_eq_none_of_not_mem hname] at hinner
          cases hinner
        refine h other found inner ?_ ?_
        · rw [Entries.lookup_cons, if_neg hne, hfound]
        · rw [Entries.lookup_cons, if_neg hne, hinner]
      rw [List.map_cons, entryIntegers, Value.fieldIntegers, hfirst, hrest]

namespace Holds

variable {store : Store} {slot : Slot} {value : Value} {share : Finset Nat}

/-- A slot is seen with the integers of its value, if enough tables may be passed that have not been
passed before. -/
theorem literalIntegers_expand (h : Holds store slot value share)
    (hdistinct : value.distinctNames = true) {limit : Nat} {path : List Nat}
    (hlimit : (share ∩ Finset.range store.size).card < limit) (hpath : ∀ id ∈ share, id ∉ path) :
    (Snapshot.expand (Snapshot.unfold store limit path) slot).literalIntegers =
      value.literalIntegers := by
  induction h generalizing limit path with
  | plain hplain => rfl
  | @list id slots values share parts hlength hparts hdisjoint hitems ih =>
    rw [Snapshot.expand, Snapshot.literalIntegers, Value.literalIntegers]
    refine Snapshot.itemIntegers_expandItems _ hlength fun i slot value hslot hvalue => ?_
    refine ih i slot value hslot hvalue ?_ ?_ fun id hid => hpath id (hparts i hid)
    · exact Value.distinctNames_list_iff.mp hdistinct value (List.mem_of_getElem? hvalue)
    · exact Nat.lt_of_le_of_lt
        (Finset.card_le_card (Finset.inter_subset_inter_right (hparts i))) hlimit
  | @table id fields share parts hid hsize hkeys hparts hdisjoint hentries ih =>
    obtain ⟨hnames, hinner⟩ := Value.distinctNames_record_iff.mp hdistinct
    cases limit with
    | zero => exact absurd hlimit (Nat.not_lt_zero _)
    | succ limit =>
      have hnone : path.reverse.idxOf? id = none := by
        rw [List.idxOf?_eq_none_iff, List.mem_reverse]
        exact hpath id hid
      rw [Snapshot.expand, Snapshot.unfold, hnone]
      dsimp only
      rw [Snapshot.literalIntegers, Value.literalIntegers]
      refine Snapshot.entryIntegers_map _ hkeys hnames fun name slot value hslot hvalue => ?_
      refine ih name slot value hslot hvalue (hinner name value hvalue) ?_ fun other hother => ?_
      · have hmem : id ∈ share ∩ Finset.range store.size :=
          Finset.mem_inter.mpr ⟨hid, Finset.mem_range.mpr hsize⟩
        have hsubset : parts name ∩ Finset.range store.size ⊆
            (share ∩ Finset.range store.size).erase id := by
          rw [← Finset.erase_inter]
          exact Finset.inter_subset_inter_right (hparts name)
        have hcard := Nat.lt_of_le_of_lt (Finset.card_le_card hsubset)
          (Finset.card_erase_lt_of_mem hmem)
        omega
      · obtain ⟨hne, hshare⟩ := Finset.mem_erase.mp (hparts name hother)
        rw [List.mem_cons, not_or]
        exact ⟨hne, hpath other hshare⟩

theorem literalIntegers_eq (h : Holds store slot value share)
    (hdistinct : value.distinctNames = true) :
    (Snapshot.ofSlot store slot).literalIntegers = value.literalIntegers := by
  refine h.literalIntegers_expand hdistinct ?_ fun id _ => List.not_mem_nil
  have hbelow : share ∩ Finset.range store.size ⊆ Finset.range store.size :=
    Finset.inter_subset_right
  have hcard := Finset.card_le_card hbelow
  rw [Finset.card_range] at hcard
  omega

theorem shownIntegers_eq (h : Holds store slot value share)
    (hdistinct : value.distinctNames = true) :
    (Snapshot.ofSlot store slot).shownIntegers = value.plainIntegers := by
  have hliteral := h.literalIntegers_eq hdistinct
  cases h with
  | plain hplain => rfl
  | list parts hlength hparts hdisjoint hitems => exact hliteral
  | table parts hid hsize hkeys hparts hdisjoint hentries => exact hliteral

end Holds

end Settings
end HelloExtensions
