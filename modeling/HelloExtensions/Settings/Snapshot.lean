import HelloExtensions.Settings.Store
import HelloExtensions.Value.Text

/-!
What can be seen of a store from one of its slots, as a finite tree. Where a table is one of
the tables it is inside of, the tree tells how far from the top that table stands. The literal
of the tree also stops at a list that is one of the lists it is inside of.
-/
namespace HelloExtensions.Settings

inductive Snapshot where
  | plain (value : Value)
  | list (id : Nat) (items : List Snapshot)
  | table (entries : List (String × Snapshot))
  | above (depth : Nat)
deriving Inhabited

namespace Snapshot

mutual

/-- A slot with its tables seen as `see` says. -/
def expand (see : Nat → Snapshot) : Slot → Snapshot
  | .plain value => .plain value
  | .list id items => .list id (expandItems see items)
  | .table id => see id

def expandItems (see : Nat → Snapshot) : List Slot → List Snapshot
  | [] => []
  | slot :: slots => expand see slot :: expandItems see slots

end

/-- See tables at most `limit` deep. The tables passed are in `path`, the innermost first. -/
def unfold (store : Store) : (limit : Nat) → (path : List Nat) → Nat → Snapshot
  | 0, path, _ => .above path.length
  | limit + 1, path, id =>
    match path.reverse.idxOf? id with
    | some depth => .above depth
    | none =>
      .table ((store.table id).map fun e => (e.1, expand (unfold store limit (id :: path)) e.2))

/-- No path passes more tables than there are before it comes to one for the second time. -/
def ofSlot (store : Store) (slot : Slot) : Snapshot :=
  expand (unfold store (store.size + 1) []) slot

mutual

/-- The literal inside of the lists whose numbers are in `outer`. -/
def literalIn (outer : List Nat) : Snapshot → String
  | .plain value => value.literal
  | .list id items =>
    if id ∈ outer then "[...]"
    else "[" ++ ", ".intercalate (itemLiterals (id :: outer) items) ++ "]"
  | .table entries => "\x7b" ++ ", ".intercalate (entryLiterals outer entries) ++ "\x7d"
  | .above _ => "\x7b...\x7d"

def itemLiterals (outer : List Nat) : List Snapshot → List String
  | [] => []
  | s :: items => literalIn outer s :: itemLiterals outer items

def entryLiterals (outer : List Nat) : List (String × Snapshot) → List String
  | [] => []
  | (key, s) :: entries =>
    (Text.quote key ++ ": " ++ literalIn outer s) :: entryLiterals outer entries

end

def literal (s : Snapshot) : String := literalIn [] s

/-- A text is shown as it is. -/
def shown : Snapshot → String
  | .plain value => value.plain
  | s => s.literal

mutual

/-- The integers in the literal. A list that is one of those it is inside of has no others than
that one. -/
def literalIntegers : Snapshot → List Int
  | .plain value => value.literalIntegers
  | .list _ items => itemIntegers items
  | .table entries => entryIntegers entries
  | .above _ => []

def itemIntegers : List Snapshot → List Int
  | [] => []
  | s :: items => literalIntegers s ++ itemIntegers items

def entryIntegers : List (String × Snapshot) → List Int
  | [] => []
  | (_, s) :: entries => literalIntegers s ++ entryIntegers entries

end

def shownIntegers : Snapshot → List Int
  | .plain value => value.plainIntegers
  | s => s.literalIntegers

end Snapshot
end HelloExtensions.Settings
