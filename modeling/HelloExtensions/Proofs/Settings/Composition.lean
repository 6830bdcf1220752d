import HelloExtensions.Proofs.Settings.Layering
import HelloExtensions.Proofs.Settings.OverlayLaws

/-!
Merging one branch after another. Two branches that can be merged into a configuration one after
the other without a clash may as well be merged into one first, which then does not clash with the
configuration either and leaves the same. A branch that is merged for a second time changes nothing.
-/
namespace HelloExtensions.Settings.Configuration

open Value

/-- The merge returned the slot, and this holds the value afterwards. -/
structure Leaves (outcome : Except MergeError Slot × Configuration) (slot : Slot) (value : Value) :
    Prop where
  returned : outcome.1 = .ok slot
  holds : ∃ share, Holds outcome.2.store slot value share

section

variable {c : Configuration} {first second value : Value} {slot other copy : Slot}
  {share part otherPart copyPart : Finset Nat}

theorem Leaves.of_eq {outcome : Except MergeError Slot × Configuration}
    (h : outcome = (.ok slot, c)) (hholds : Holds c.store slot value share) :
    Leaves outcome slot value := by
  subst h
  exact ⟨rfl, share, hholds⟩

/-- Two branches that are merged one after the other without a clash may be merged into one first,
without a clash as well, and to merge the first one again changes nothing. -/
theorem merges_compose (hroot : Holds c.store (.table c.root) value share)
    (hheld : Holds c.store slot first part) (hotherHeld : Holds c.store other second otherPart)
    (hcopyHeld : Holds c.store copy first copyPart)
    (hapart : [share, part, otherPart, copyPart].Pairwise Disjoint)
    (hvalue : value.wellKeyed = true) (hfirst : first.IsObject) (hsecond : second.IsObject)
    (hclash : ¬ first.Clashes value) (hlater : ¬ second.Clashes (first.overlay (some value))) :
    Leaves (c.merge slot (.plain .null)) (.table c.root) (first.overlay (some value)) ∧
    Leaves ((c.merge slot (.plain .null)).2.merge other (.plain .null)) (.table c.root)
      (second.overlay (some (first.overlay (some value)))) ∧
    ¬ second.Clashes first ∧ ¬ (second.overlay (some first)).Clashes value ∧
    Leaves (c.merge other copy) copy (second.overlay (some first)) ∧
    Leaves ((c.merge other copy).2.merge copy (.plain .null)) (.table c.root)
      (second.overlay (some (first.overlay (some value)))) ∧
    Leaves ((c.merge slot (.plain .null)).2.merge copy (.plain .null)) (.table c.root)
      (first.overlay (some value)) := by
  obtain ⟨hagainClash, hunchanged⟩ := not_clashes_again hfirst hvalue hclash
  obtain ⟨hboth, hsecondClash, hbothClash, hsame⟩ :=
    not_clashes_of_later hfirst hvalue hclash hsecond hlater
  simp only [List.pairwise_cons, List.mem_cons, forall_eq_or_imp, List.not_mem_nil] at hapart
  obtain ⟨⟨hrootPart, hrootOther, hrootCopy, -⟩, ⟨hpartOther, hpartCopy, -⟩, ⟨hotherCopy, -⟩, -⟩ :=
    hapart
  obtain ⟨store, hmerge, hmerged⟩ := merge_null_of_holds hroot hheld hrootPart hfirst hclash
  have hothersApart := Finset.disjoint_union_left.mpr ⟨hrootOther, hpartOther⟩
  have hcopyApart := Finset.disjoint_union_left.mpr ⟨hrootCopy, hpartCopy⟩
  obtain ⟨twice, hmergeTwice, hmergedTwice⟩ := merge_null_of_holds (c := { c with store })
    hmerged.holds (hmerged.frame hotherHeld hothersApart.symm) hothersApart hsecond hlater
  obtain ⟨again, hmergeAgain, hmergedAgain⟩ := merge_null_of_holds (c := { c with store })
    hmerged.holds (hmerged.frame hcopyHeld hcopyApart.symm) hcopyApart hfirst hagainClash
  obtain ⟨combined, hcombine, hcombined⟩ := merge_of_holds hcopyHeld hotherHeld hotherCopy.symm
    hsecond hsecondClash
  have hrootApart := Finset.disjoint_union_right.mpr ⟨hrootCopy, hrootOther⟩
  obtain ⟨last, hmergeLast, hmergedLast⟩ := merge_null_of_holds (c := { c with store := combined })
    (hcombined.frame hroot hrootApart) hcombined.holds hrootApart hboth hbothClash
  refine ⟨.of_eq hmerge hmerged.holds, ?_, hsecondClash, hbothClash,
    .of_eq hcombine hcombined.holds, ?_, ?_⟩
  · rw [hmerge]
    exact .of_eq hmergeTwice hmergedTwice.holds
  · rw [hcombine, ← hsame]
    exact .of_eq hmergeLast hmergedLast.holds
  · rw [hmerge]
    rw [hunchanged] at hmergedAgain
    exact .of_eq hmergeAgain hmergedAgain.holds

end

/-- Settings with more names in a section of the narrowed ones. -/
def widened : Value :=
  .record [("site", .record [("port", .int 853), ("name", .text "resolver")]),
    ("log", .text "extensions.log")]

/-- The template after the narrowed and then the widened settings. -/
def settledTwice : Value :=
  .record [
    ("description", .text "TLS extensions decoder configuration template"),
    ("log", .text "extensions.log"),
    ("log_level", .text "INFO"),
    ("debug", .record [("trace", .bool false)]),
    ("decoder", .record [("grease_as_unknown", .bool false), ("max_extensions", .int 4)]),
    ("site", .record [("name", .text "resolver"), ("port", .int 853)])]

/-- The template, with these settings stored beside it, and the first of them for a second time. -/
def staged : List Slot × Configuration :=
  ((Store.loadItems [narrowed, widened, narrowed] initial.store).1,
    { initial with store := (Store.loadItems [narrowed, widened, narrowed] initial.store).2 })

theorem merges_compose_template :
    ∃ c slot other copy, staged = ([slot, other, copy], c) ∧
      Leaves ((c.merge slot (.plain .null)).2.merge other (.plain .null)) (.table c.root)
        settledTwice ∧
      Leaves ((c.merge other copy).2.merge copy (.plain .null)) (.table c.root) settledTwice := by
  obtain ⟨hextends, -, parts, hparts, hdisjoint, hitems⟩ :=
    holds_loadItems [narrowed, widened, narrowed] initial.store
  obtain ⟨share, hroot, hfresh⟩ : ∃ share,
      Holds staged.2.store (.table initial.root) template share ∧ ∀ i, Disjoint share (parts i) :=
    have happart := holds_initial.apart hextends fun _ hid => (Store.mem_added.mp hid).1
    ⟨_, happart.1, fun i => happart.2.mono_right (hparts i)⟩
  have hapart : [share, parts 0, parts 1, parts 2].Pairwise Disjoint := by
    have hfirst := hdisjoint 0 1 (by decide)
    have hcopy := hdisjoint 0 2 (by decide)
    have hother := hdisjoint 1 2 (by decide)
    simp [List.pairwise_cons, hfresh, hfirst, hcopy, hother]
  have hlater : ¬ widened.Clashes (narrowed.overlay (some template)) :=
    (fits_iff_not_clashes rfl).mp rfl
  obtain ⟨-, hboth, -, -, -, hcombined, -⟩ := merges_compose (c := staged.2) hroot
    (hitems 0 _ narrowed rfl rfl) (hitems 1 _ widened rfl rfl) (hitems 2 _ narrowed rfl rfl) hapart
    rfl isObject_narrowed ⟨⟨_, rfl⟩, rfl⟩ not_clashes_narrowed hlater
  exact ⟨_, _, _, _, rfl, hboth, hcombined⟩

end HelloExtensions.Settings.Configuration
