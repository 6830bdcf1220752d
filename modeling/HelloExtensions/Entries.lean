/-!
Entries under names. A name keeps its place when it is written again, and a new name comes
last. What is found under one name does not depend on what is done under another.
-/
namespace HelloExtensions

abbrev Entries (α : Type) := List (String × α)

namespace Entries

variable {α : Type}

def insert (key : String) (a : α) : Entries α → Entries α
  | [] => [(key, a)]
  | (k, b) :: rest => if k = key then (k, a) :: rest else (k, b) :: insert key a rest

def erase (key : String) (entries : Entries α) : Entries α :=
  entries.filter fun e => e.1 != key

def keys (entries : Entries α) : List String := entries.map (·.1)

theorem lookup_cons (key other : String) (a : α) (rest : Entries α) :
    ((key, a) :: rest : Entries α).lookup other =
      if other = key then some a else rest.lookup other := by
  by_cases h : other = key
  · simp [h]
  · have hb : (other == key) = false := by simpa using h
    simp [List.lookup_cons, hb, h]

theorem lookup_insert (key other : String) (a : α) (entries : Entries α) :
    (insert key a entries).lookup other =
      if other = key then some a else entries.lookup other := by
  induction entries with
  | nil => rw [insert, lookup_cons]
  | cons entry rest ih =>
    obtain ⟨k, b⟩ := entry
    by_cases hk : k = key
    · subst hk
      rw [insert, if_pos rfl, lookup_cons, lookup_cons]
      split <;> rfl
    · rw [insert, if_neg hk, lookup_cons, lookup_cons, ih]
      split
      · next h => rw [if_neg (h ▸ hk)]
      · rfl

theorem lookup_erase (key other : String) (entries : Entries α) :
    (erase key entries).lookup other =
      if other = key then none else entries.lookup other := by
  simp only [erase]
  induction entries with
  | nil => simp
  | cons entry rest ih =>
    obtain ⟨k, b⟩ := entry
    by_cases hk : k = key
    · subst hk
      rw [List.filter_cons_of_neg (by simp), ih, lookup_cons]
      split <;> rfl
    · rw [List.filter_cons_of_pos (by simpa using hk), lookup_cons, lookup_cons, ih]
      split
      · next h => rw [if_neg (h ▸ hk)]
      · rfl

theorem isSome_lookup_iff (key : String) (entries : Entries α) :
    (entries.lookup key).isSome ↔ key ∈ keys entries := by
  induction entries with
  | nil => simp [keys]
  | cons entry rest ih =>
    obtain ⟨k, b⟩ := entry
    rw [lookup_cons, keys, List.map_cons, List.mem_cons]
    split
    · simp_all
    · next h => rw [ih, keys]; simp [h]

theorem lookup_eq_none_of_not_mem {key : String} {entries : Entries α}
    (h : key ∉ keys entries) : entries.lookup key = none :=
  Option.not_isSome_iff_eq_none.mp (mt (isSome_lookup_iff key entries).mp h)

/-- Only a new name changes the order, by coming last. -/
theorem keys_insert (key : String) (a : α) (entries : Entries α) :
    keys (insert key a entries) =
      if key ∈ keys entries then keys entries else keys entries ++ [key] := by
  induction entries with
  | nil => rfl
  | cons entry rest ih =>
    obtain ⟨k, b⟩ := entry
    simp only [keys, List.map_cons, List.mem_cons] at ih ⊢
    by_cases hk : k = key
    · subst hk
      simp [insert]
    · have hk' : key ≠ k := fun h => hk h.symm
      rw [insert, if_neg hk, List.map_cons, ih]
      simp only [hk', false_or]
      exact apply_ite (k :: ·) _ _ _

theorem nodup_keys_insert (key : String) (a : α) {entries : Entries α}
    (distinct : (keys entries).Nodup) : (keys (insert key a entries)).Nodup := by
  rw [keys_insert]
  split
  · exact distinct
  · next hnew =>
    have hother : ∀ other ∈ keys entries, ∀ last ∈ [key], other ≠ last := by
      intro other hother last hlast heq
      exact hnew (List.mem_singleton.mp hlast ▸ heq ▸ hother)
    exact List.nodup_append.mpr ⟨distinct, by simp, hother⟩

/-- Writing what is there already changes nothing. -/
theorem insert_of_lookup {key : String} {a : α} {entries : Entries α}
    (h : entries.lookup key = some a) : insert key a entries = entries := by
  induction entries with
  | nil => cases h
  | cons entry rest ih =>
    obtain ⟨k, b⟩ := entry
    rw [lookup_cons] at h
    by_cases hk : k = key
    · subst hk
      rw [if_pos rfl] at h
      rw [insert, if_pos rfl, Option.some.inj h]
    · rw [if_neg fun heq => hk heq.symm] at h
      rw [insert, if_neg hk, ih h]

/-- A name is found after all that stands under names has been changed just where it was before. -/
theorem lookup_map {β : Type} (f : α → β) (key : String) (entries : Entries α) :
    List.lookup key (entries.map fun e => (e.1, f e.2)) = (entries.lookup key).map f := by
  induction entries with
  | nil => rfl
  | cons entry rest ih =>
    obtain ⟨k, b⟩ := entry
    rw [List.map_cons, lookup_cons, lookup_cons, ih]
    split <;> rfl

theorem map_insert {β : Type} (f : α → β) (key : String) (a : α) (entries : Entries α) :
    (insert key a entries).map (fun e => (e.1, f e.2)) =
      insert key (f a) (entries.map fun e => (e.1, f e.2)) := by
  induction entries with
  | nil => rfl
  | cons entry rest ih =>
    obtain ⟨k, b⟩ := entry
    by_cases hk : k = key
    · rw [insert, if_pos hk, List.map_cons, List.map_cons, insert, if_pos hk]
    · rw [insert, if_neg hk, List.map_cons, ih, List.map_cons, insert, if_neg hk]

/-- Where no name comes twice, what is found under a name is what stands there. -/
theorem lookup_eq_some_iff {entries : Entries α} (distinct : (keys entries).Nodup)
    {key : String} {a : α} : entries.lookup key = some a ↔ (key, a) ∈ entries := by
  induction entries with
  | nil => simp
  | cons entry rest ih =>
    obtain ⟨k, b⟩ := entry
    obtain ⟨hk, hrest⟩ := List.nodup_cons.1 distinct
    rw [lookup_cons, List.mem_cons, Prod.mk.injEq]
    by_cases h : key = k
    · subst h
      have hn : (key, a) ∉ rest := fun hm => hk (List.mem_map_of_mem (f := (·.1)) hm)
      simp [hn, eq_comm]
    · rw [if_neg h, ih hrest]
      simp [h]

theorem mem_of_lookup_eq_some {κ β : Type} [BEq κ] [LawfulBEq κ] {entries : List (κ × β)}
    {key : κ} {value : β} (h : entries.lookup key = some value) : (key, value) ∈ entries := by
  obtain ⟨before, after, hsplit, -⟩ := List.lookup_eq_some_iff.mp h
  rw [hsplit]
  exact List.mem_append_right before List.mem_cons_self

/-- Where no name comes twice, all entries are found under their names. -/
theorem all_iff {entries : Entries α} (distinct : (keys entries).Nodup) {p : String × α → Bool} :
    entries.all p = true ↔ ∀ name a, entries.lookup name = some a → p (name, a) = true := by
  rw [List.all_eq_true, Prod.forall]
  simp only [lookup_eq_some_iff distinct]

/-- Entries under the same names in the same order are the same if each name has the same. -/
theorem eq_of_lookup {a b : Entries α} (distinct : (keys a).Nodup) (hkeys : keys a = keys b)
    (hlookup : ∀ name, a.lookup name = b.lookup name) : a = b := by
  induction a generalizing b with
  | nil => exact (List.map_eq_nil_iff.mp hkeys.symm).symm
  | cons entry a ih =>
    obtain ⟨key, value⟩ := entry
    cases b with
    | nil => cases hkeys
    | cons other b =>
      obtain ⟨name, found⟩ := other
      obtain ⟨rfl, htail⟩ := List.cons.inj hkeys
      have hrest : keys a = keys b := htail
      obtain ⟨hkey, hothers⟩ := List.nodup_cons.mp distinct
      have hfirst := hlookup key
      rw [lookup_cons, lookup_cons, if_pos rfl, if_pos rfl] at hfirst
      obtain rfl := Option.some.inj hfirst
      congr 1
      refine ih hothers hrest fun other => ?_
      by_cases hother : other = key
      · have hmissing : key ∉ keys b := hrest ▸ hkey
        rw [hother, lookup_eq_none_of_not_mem hkey, lookup_eq_none_of_not_mem hmissing]
      · have hsame := hlookup other
        rwa [lookup_cons, lookup_cons, if_neg hother, if_neg hother] at hsame

end Entries
end HelloExtensions
