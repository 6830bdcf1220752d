import HelloExtensions.Proofs.Settings.Merging
import HelloExtensions.Settings.Configuration

/-!
Configurations that are trees. The template is one, and a configuration that holds a value still
holds one after settings of a user are merged into it, if none of their records lands on null and
the merge returns. The settings are stored anew for each merge, so they share no table with the
configuration.
-/
namespace HelloExtensions.Settings.Configuration

open Value

/-- The configuration is the root of a tree that holds the value. -/
def Represents (c : Configuration) (value : Value) : Prop :=
  ∃ share, Holds c.store (.table c.root) value share

theorem Represents.exists_record {c : Configuration} {value : Value} (h : c.Represents value) :
    ∃ fields, value = .record fields := by
  obtain ⟨share, hholds⟩ := h
  exact hholds.exists_record

theorem load_template : Store.load template .empty = (.table initial.root, initial.store) := rfl

theorem holds_initial : Holds initial.store (.table initial.root) template
    (Store.added .empty initial.store) := by
  have hloaded := (holds_load template .empty).2
  rwa [load_template] at hloaded

theorem represents_initial : initial.Represents template := ⟨_, holds_initial⟩

section

variable {c : Configuration}

theorem mergeValue_of_not_record {settings : Value} (h : ∀ fields, settings ≠ .record fields) :
    (c.mergeValue settings).1 = .error .noTable := by
  obtain ⟨-, hholds⟩ := holds_load settings c.store
  unfold mergeValue load merge Settings.merge
  dsimp only
  cases hslot : (Store.load settings c.store).1 with
  | plain value => rfl
  | list number items => rfl
  | table id =>
    rw [hslot] at hholds
    obtain ⟨fields, hfields⟩ := hholds.exists_record
    exact absurd hfields (h fields)

/-- What there is to know of settings that are stored to be merged into a configuration. -/
structure Loaded (c : Configuration) (fields : Entries Value) (store : Store) (branch : Nat)
    (part : Finset Nat) : Prop where
  extends_store : Store.Extends c.store store
  holds : Holds store (.table branch) (.record fields) part
  fresh : ∀ id ∈ part, c.store.size ≤ id
  card_le : part.card ≤ depthLimit store
  mergeValue_eq : c.mergeValue (.record fields) =
    ((mergeTable c.root (depthLimit store) branch (.table c.root) store).1,
      ⟨(mergeTable c.root (depthLimit store) branch (.table c.root) store).2, c.root⟩)

theorem exists_loaded (c : Configuration) (fields : Entries Value) :
    ∃ store branch part, c.Loaded fields store branch part := by
  obtain ⟨hextends, hbranch⟩ := holds_load (.record fields) c.store
  obtain ⟨branch, hslot, -⟩ := hbranch.exists_table
  rw [hslot] at hbranch
  refine ⟨_, branch, _, hextends, hbranch, fun id hid => (Store.mem_added.mp hid).1, ?_, ?_⟩
  · rw [Store.added, Nat.card_Ico, depthLimit]
    have hsquare := Nat.le_mul_self (Store.load (.record fields) c.store).2.size
    omega
  · simp only [mergeValue, load, merge, Settings.merge, hslot, mergeTable_null]

/-- The configuration holds its value still, in other tables than the settings. -/
theorem Loaded.exists_share {fields : Entries Value} {store : Store} {branch : Nat}
    {part : Finset Nat} (h : c.Loaded fields store branch part) {value : Value}
    (hc : c.Represents value) :
    ∃ share, Holds store (.table c.root) value share ∧ Disjoint share part := by
  obtain ⟨share, hholds⟩ := hc
  exact ⟨_, hholds.apart h.extends_store h.fresh⟩

/-- Settings are merged into a configuration as values are. -/
theorem mergeValue_of_represents {fields : Entries Value} {value : Value}
    (hkeyed : (Value.record fields).wellKeyed = true) (hc : c.Represents value)
    (hnull : ¬ (Value.record fields).LandsOnNull value) :
    match (Value.record fields).merged? (some value) with
    | some result => ∃ after, c.mergeValue (.record fields) = (.ok (.table c.root), after) ∧
        after.Represents result
    | none => ∃ e after, c.mergeValue (.record fields) = (.error e, after) := by
  obtain ⟨store, branch, part, hloaded⟩ := exists_loaded c fields
  obtain ⟨share, htarget, hdisjoint⟩ := hloaded.exists_share hc
  have hmerge := mergeTable_of_holds c.root hloaded.card_le hkeyed store branch (.table c.root)
    value _ hloaded.holds htarget hdisjoint hnull
  rw [hloaded.mergeValue_eq]
  cases hresult : (Value.record fields).merged? (some value) with
  | none =>
    rw [hresult] at hmerge
    obtain ⟨e, after, hmerge⟩ := hmerge
    exact ⟨e, ⟨after, c.root⟩, by rw [hmerge]⟩
  | some result =>
    rw [hresult] at hmerge
    obtain ⟨after, hmerge, hafter⟩ := hmerge
    exact ⟨⟨after, c.root⟩, by rw [hmerge], _, hafter.holds⟩

end

end HelloExtensions.Settings.Configuration
