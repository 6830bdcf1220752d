import HelloExtensions.Entries
import HelloExtensions.Value.Shape

/-!
Tables of settings. A table is reached through its number, so two paths may lead to the same
table, and a path may lead from a table back to itself. Lists never change, but tables in a
list do, so a path may lead from a list back to itself as well.
-/
namespace HelloExtensions.Settings

/-- What a key of a table stands for. A plain value is neither a list nor a record. The number
of a list tells it from other lists of the same items. -/
inductive Slot where
  | plain (value : Value)
  | list (id : Nat) (items : List Slot)
  | table (id : Nat)
deriving Inhabited

abbrev Table := Entries Slot

/-- The table numbered `n` stands at position `n`. The numbers below `lists` are those of lists. -/
structure Store where
  tables : List Table
  lists : Nat

namespace Store

def empty : Store := ⟨[], 0⟩

def table (store : Store) (id : Nat) : Table := store.tables.getD id []

def size (store : Store) : Nat := store.tables.length

def push (table : Table) (store : Store) : Store :=
  { store with tables := store.tables ++ [table] }

def modify (id : Nat) (f : Table → Table) (store : Store) : Store :=
  { store with tables := store.tables.modify id f }

def insert (id : Nat) (key : String) (slot : Slot) (store : Store) : Store :=
  store.modify id (Entries.insert key slot)

@[simp] theorem size_push (table : Table) (store : Store) :
    (store.push table).size = store.size + 1 := by
  simp [size, push]

/-- A new table leaves the others as they are. -/
theorem table_push (new : Table) (store : Store) (id : Nat) :
    (store.push new).table id = if id = store.size then new else store.table id := by
  simp only [table, push, size, List.getD_eq_getElem?_getD, List.getElem?_append]
  split
  · next h => rw [if_neg (by omega)]
  · next h =>
    split
    · next he => simp [he]
    · next hne =>
      have hs : store.tables.length ≤ id := Nat.le_of_not_lt h
      have hr : [new].length ≤ id - store.tables.length := by
        rw [List.length_singleton]
        omega
      rw [List.getElem?_eq_none hs, List.getElem?_eq_none hr]

@[simp] theorem size_modify (id : Nat) (f : Table → Table) (store : Store) :
    (store.modify id f).size = store.size := by
  simp [size, modify]

/-- Only the table that is modified changes. -/
theorem table_modify {id : Nat} {store : Store} (h : id < store.size) (f : Table → Table)
    (other : Nat) :
    (store.modify id f).table other =
      if other = id then f (store.table id) else store.table other := by
  simp only [table, modify, List.getD_eq_getElem?_getD, List.getElem?_modify]
  by_cases he : other = id
  · subst he
    obtain ⟨old, ho⟩ : ∃ old, store.tables[other]? = some old :=
      ⟨_, List.getElem?_eq_getElem h⟩
    simp [ho]
  · have he' : id ≠ other := fun e => he e.symm
    simp [he, he']

/-- Writing a key is seen in its table alone, and there under this key alone. -/
theorem lookup_insert {id : Nat} {store : Store} (h : id < store.size) (key : String)
    (slot : Slot) (other : Nat) (name : String) :
    ((store.insert id key slot).table other).lookup name =
      if other = id ∧ name = key then some slot else (store.table other).lookup name := by
  rw [insert, table_modify h]
  by_cases he : other = id
  · simp [he, Entries.lookup_insert]
  · simp [he]

mutual

/-- Store a value. Its records become new tables and its lists get new numbers, the inner ones
first. -/
def load : Value → Store → Slot × Store
  | .record fields, store =>
    let (table, store) := loadFields fields store
    (.table store.size, store.push table)
  | .list items, store =>
    let (slots, store) := loadItems items store
    (.list store.lists slots, { store with lists := store.lists + 1 })
  | value, store => (.plain value, store)

def loadItems : List Value → Store → List Slot × Store
  | [], store => ([], store)
  | value :: items, store =>
    let (slot, store) := load value store
    let (slots, store) := loadItems items store
    (slot :: slots, store)

def loadFields : List (String × Value) → Store → Table × Store
  | [], store => ([], store)
  | (name, value) :: fields, store =>
    let (slot, store) := load value store
    let (table, store) := loadFields fields store
    ((name, slot) :: table, store)

end

/-- What a slot has under a key, which is a position in a list or in a plain value. -/
def get (store : Store) (slot : Slot) (key : Value) : Except ShapeError Slot :=
  match slot with
  | .table id => do
    match (← key.key).bind fun name => (store.table id).lookup name with
    | some inner => .ok inner
    | none => .error (.noEntry key)
  | .list _ items => match key.integer? with
    | some position => itemAt .list items position
    | none => .error .unsupported
  | .plain value => (value.get key).map .plain

/-- What the keys lead to one after the other. -/
def follow (store : Store) (keys : List Value) (slot : Slot) : Except ShapeError Slot :=
  keys.foldlM store.get slot

end Store
end HelloExtensions.Settings
