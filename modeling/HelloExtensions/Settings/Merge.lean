import HelloExtensions.Settings.Store

/-!
Merging a branch of settings into a target. A key of the branch that holds no table, or that
the target lacks, is taken over, and a table is shared by that and not copied. A table that
lands on another one is merged into it. A table that lands on null is merged into the root of
all settings, which then takes the place of the null. Merging stops at the first fault and
leaves what it has done until then.
-/
namespace HelloExtensions.Settings

inductive MergeError where
  /-- Keys are asked of something that is no table. -/
  | noTable
  /-- A key is written into something that is no table. -/
  | notAssignable
  /-- The branch has got new keys while its keys are gone through. -/
  | resized
  /-- The branch leads into itself for ever. -/
  | endless
deriving DecidableEq, Repr

/-- The outcome of a merge and the store it leaves. -/
abbrev Merged (α : Type) := Except MergeError α × Store

namespace Merged

def assign (master : Slot) (key : String) (slot : Slot) (store : Store) : Merged Unit :=
  match master with
  | .table id => (.ok (), store.insert id key slot)
  | _ => (.error .notAssignable, store)

/-- Merge what the branch has under one key. Tables are merged into tables by `descend`. -/
def entry (descend : Nat → Slot → Store → Merged Slot) (branch : Nat) (master : Slot)
    (key : String) (store : Store) : Merged Unit :=
  match (store.table branch).lookup key with
  | none => (.ok (), store)
  | some (.table inner) =>
    match master with
    | .table id =>
      match (store.table id).lookup key with
      | none => assign master key (.table inner) store
      | some target =>
        match descend inner target store with
        | (.ok result, store) => (.ok (), store.insert id key result)
        | (.error e, store) => (.error e, store)
    | _ => (.error .noTable, store)
  | some slot => assign master key slot store

/-- Go through the keys of a branch that has `size` of them. -/
def entries (step : String → Store → Merged Unit) (branch size : Nat) :
    List String → Store → Merged Unit
  | [], store => (.ok (), store)
  | key :: keys, store =>
    match step key store with
    | (.error e, store) => (.error e, store)
    | (.ok (), store) =>
      if (store.table branch).length = size then entries step branch size keys store
      else (.error .resized, store)

end Merged

/-- The target itself, or the root in place of null. -/
def masterOf (root : Nat) : Slot → Slot
  | .plain .null => .table root
  | target => target

/-- Merge a table into a target at most `limit` tables deep. The result is the target, or the
root if the target is null. -/
def mergeTable (root : Nat) : (limit : Nat) → (branch : Nat) → Slot → Store → Merged Slot
  | 0, _, _, store => (.error .endless, store)
  | limit + 1, branch, target, store =>
    let master := masterOf root target
    let table := store.table branch
    match Merged.entries (Merged.entry (mergeTable root limit) branch master) branch
        table.length table.keys store with
    | (.ok (), store) => (.ok master, store)
    | (.error e, store) => (.error e, store)

/-- No merge makes tables, so one that is deeper than there are pairs of tables comes to a pair
it is already at. -/
def depthLimit (store : Store) : Nat := store.size * store.size + 1

def merge (root : Nat) (branch target : Slot) (store : Store) : Merged Slot :=
  match branch with
  | .table id => mergeTable root (depthLimit store) id target store
  | _ => (.error .noTable, store)

end HelloExtensions.Settings
