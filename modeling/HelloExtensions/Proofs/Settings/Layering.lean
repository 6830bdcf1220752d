import HelloExtensions.Proofs.Settings.OverlayPaths
import HelloExtensions.Proofs.Settings.Representation

/-!
Merging as laying over. A branch that shares no table with the target, and that does not clash with
it, is merged by laying its value over that of the target. What this comes to in the target can be
said path by path.
-/
namespace HelloExtensions.Settings

open Value

/-- What a slot holds does not change when another value is stored, which is in new tables only. -/
theorem Holds.load {store : Store} {slot : Slot} {value : Value} {share : Finset Nat}
    (h : Holds store slot value share) (other : Value) :
    Holds (Store.load other store).2 slot value (share ∩ Finset.range store.size) ∧
      Disjoint (share ∩ Finset.range store.size)
        (Store.added store (Store.load other store).2) :=
  h.apart (holds_load other store).1 fun _ hid => (Store.mem_added.mp hid).1

/-- A merge leaves what is held by other tables. -/
theorem MergedTo.frame {before after : Store} {slot other : Slot} {value found : Value}
    {share part : Finset Nat} (h : MergedTo before after slot value share)
    (hother : Holds before other found part) (hdisjoint : Disjoint part share) :
    Holds after other found part :=
  hother.frame (Nat.le_of_eq h.size_eq.symm) fun id hid =>
    h.table_eq id (Finset.disjoint_left.mp hdisjoint hid)

namespace Configuration

variable {c : Configuration} {branch found value : Value} {slot target : Slot}
  {share part : Finset Nat}

/-- A branch that does not clash with the target is laid over it. -/
theorem merge_of_holds (htarget : Holds c.store target found share)
    (hbranch : Holds c.store slot branch part) (hdisjoint : Disjoint share part)
    (hobject : branch.IsObject) (hclash : ¬ branch.Clashes found) :
    ∃ store, c.merge slot target = (.ok target, { c with store }) ∧
      MergedTo c.store store target (branch.overlay (some found)) (share ∪ part) := by
  obtain ⟨⟨fields, rfl⟩, hkeyed⟩ := hobject
  obtain ⟨id, rfl, -⟩ := hbranch.exists_table
  have hfits := (fits_iff_not_clashes hkeyed).mpr hclash
  have hcard : (part ∩ Finset.range c.store.size).card ≤ depthLimit c.store := by
    have hle : (part ∩ Finset.range c.store.size).card ≤ (Finset.range c.store.size).card :=
      Finset.card_le_card Finset.inter_subset_right
    rw [Finset.card_range] at hle
    have hsquare := Nat.le_mul_self c.store.size
    unfold depthLimit
    omega
  have hends := mergeTable_of_holds c.root hcard hkeyed c.store id target found share
    hbranch.within htarget (hdisjoint.mono_right Finset.inter_subset_left)
    (not_landsOnNull_of_fits hfits)
  rw [merged?_of_fits hkeyed hfits] at hends
  obtain ⟨store, hmerge, hmerged⟩ := hends
  refine ⟨store, ?_, hmerged.mono (Finset.union_subset_union_right Finset.inter_subset_left)⟩
  simp only [merge, Settings.merge, hmerge]

/-- Null stands for the root. -/
theorem merge_null (c : Configuration) (slot : Slot) :
    c.merge slot (.plain .null) = c.merge slot (.table c.root) := by
  cases slot with
  | table id => simp only [merge, Settings.merge, mergeTable_null]
  | plain value => rfl
  | list number items => rfl

theorem merge_null_of_holds (hroot : Holds c.store (.table c.root) value share)
    (hbranch : Holds c.store slot branch part) (hdisjoint : Disjoint share part)
    (hobject : branch.IsObject) (hclash : ¬ branch.Clashes value) :
    ∃ store, c.merge slot (.plain .null) = (.ok (.table c.root), { c with store }) ∧
      MergedTo c.store store (.table c.root) (branch.overlay (some value)) (share ∪ part) := by
  rw [merge_null]
  exact merge_of_holds hroot hbranch hdisjoint hobject hclash

/-- A branch that does not clash is laid over the configuration, and the root is returned. -/
theorem merge_lays_over (hroot : Holds c.store (.table c.root) value share)
    (hbranch : Holds c.store slot branch part) (hdisjoint : Disjoint share part)
    (hobject : branch.IsObject) (hclash : ¬ branch.Clashes value) :
    ∃ after result, c.merge slot (.plain .null) = (.ok (.table c.root), after) ∧
      after.root = c.root ∧ after.Represents result ∧ LaidOver branch value result := by
  obtain ⟨store, hmerge, hmerged⟩ := merge_null_of_holds hroot hbranch hdisjoint hobject hclash
  exact ⟨{ c with store }, branch.overlay (some value), hmerge, rfl, ⟨_, hmerged.holds⟩,
    laidOver_overlay hobject.wellKeyed hclash⟩

/-- Settings with a section that the template has and one that it lacks. -/
def narrowed : Value :=
  .record [("decoder", .record [("max_extensions", .int 4)]), ("site", .record [("name", .null)])]

theorem isObject_narrowed : narrowed.IsObject := ⟨⟨_, rfl⟩, rfl⟩

theorem not_clashes_narrowed : ¬ narrowed.Clashes template :=
  (fits_iff_not_clashes rfl).mp rfl

theorem merge_lays_over_template :
    ¬ narrowed.Clashes template ∧ ∃ after result,
      (initial.load narrowed).2.merge (initial.load narrowed).1 (.plain .null) =
        (.ok (.table initial.root), after) ∧
      after.root = initial.root ∧ after.Represents result ∧ LaidOver narrowed template result := by
  obtain ⟨hroot, hdisjoint⟩ := holds_initial.load narrowed
  exact ⟨not_clashes_narrowed, merge_lays_over (c := (initial.load narrowed).2) hroot
    (holds_load narrowed initial.store).2 hdisjoint isObject_narrowed not_clashes_narrowed⟩

end Configuration
end HelloExtensions.Settings
