/-!
# Dictionaries

A dictionary holds at most one value for each text key and lists its entries
by ascending key, whatever order they were added in. The order is part of the
type, so two dictionaries are equal as soon as their look-ups agree.
-/

namespace Codemod

/-- A finite map with text keys. -/
structure Dict (α : Type) where
  entries : List (String × α)
  /-- Keys ascend strictly. -/
  sorted : entries.Pairwise (fun a b => a.1 < b.1)

namespace Dict

variable {α β : Type}

/-- Nothing is stored. -/
def empty : Dict α := ⟨[], List.Pairwise.nil⟩

instance : EmptyCollection (Dict α) := ⟨empty⟩
instance : Inhabited (Dict α) := ⟨empty⟩
instance [BEq α] : BEq (Dict α) := ⟨fun d e => d.entries == e.entries⟩

/-- How many keys there are. -/
def size (d : Dict α) : Nat := d.entries.length

/-- The keys, ascending. -/
def keys (d : Dict α) : List String := d.entries.map (·.1)

/-- The values, in the order of their keys. -/
def values (d : Dict α) : List α := d.entries.map (·.2)

/-- The value stored under a key. -/
def get? (d : Dict α) (key : String) : Option α := d.entries.lookup key

/-- A value is stored under the key. -/
def contains (d : Dict α) (key : String) : Bool := (d.get? key).isSome

/-- Puts an entry at its place in an ascending list, in the room of an entry
with the same key. -/
def insertEntry (key : String) (value : α) : List (String × α) → List (String × α)
  | [] => [(key, value)]
  | (k, v) :: rest =>
    if key < k then (key, value) :: (k, v) :: rest
    else if key = k then (key, value) :: rest
    else (k, v) :: insertEntry key value rest

theorem mem_insertEntry {key : String} {value : α} {l : List (String × α)} {e : String × α}
    (h : e ∈ insertEntry key value l) : e = (key, value) ∨ e ∈ l := by
  induction l with
  | nil => simpa [insertEntry] using h
  | cons a rest ih =>
    obtain ⟨k, v⟩ := a
    simp only [insertEntry] at h
    split at h
    · simpa using h
    · split at h
      · simp only [List.mem_cons] at h ⊢
        exact h.imp_right .inr
      · simp only [List.mem_cons] at h ⊢
        rcases h with h | h
        · exact .inr (.inl h)
        · exact (ih h).imp_right .inr

theorem sorted_insertEntry {key : String} {value : α} {l : List (String × α)}
    (h : l.Pairwise (fun a b => a.1 < b.1)) :
    (insertEntry key value l).Pairwise (fun a b => a.1 < b.1) := by
  induction l with
  | nil => simp [insertEntry]
  | cons a rest ih =>
    obtain ⟨k, v⟩ := a
    obtain ⟨hk, hrest⟩ := List.pairwise_cons.1 h
    simp only [insertEntry]
    split
    case isTrue hlt =>
      refine List.pairwise_cons.2 ⟨fun e he => ?_, h⟩
      rcases List.mem_cons.1 he with rfl | he
      · exact hlt
      · exact String.lt_trans hlt (hk e he)
    case isFalse hlt =>
      split
      case isTrue heq => exact List.pairwise_cons.2 ⟨fun e he => heq ▸ hk e he, hrest⟩
      case isFalse hne =>
        refine List.pairwise_cons.2 ⟨fun e he => ?_, ih hrest⟩
        rcases mem_insertEntry he with rfl | he
        · exact Std.lt_of_le_of_ne (String.not_lt.1 hlt) (Ne.symm hne)
        · exact hk e he

/-- Stores a value under a key, replacing what the key held. -/
def insert (d : Dict α) (key : String) (value : α) : Dict α :=
  ⟨insertEntry key value d.entries, sorted_insertEntry d.sorted⟩

/-- Of entries with one key the last counts. -/
def ofList (l : List (String × α)) : Dict α :=
  l.foldl (fun d e => d.insert e.1 e.2) empty

/-- Looking up the key just stored finds the stored value; any other key reads
as before. -/
theorem get?_insert (d : Dict α) (key other : String) (value : α) :
    (d.insert key value).get? other = if other = key then some value else d.get? other := by
  obtain ⟨l, hl⟩ := d
  simp only [insert, get?]
  clear hl
  have hbeq (k : String) (h : ¬other = k) : (other == k) = false := by simpa using h
  induction l with
  | nil => by_cases h : other = key <;> simp [insertEntry, h]
  | cons a rest ih =>
    obtain ⟨k, v⟩ := a
    simp only [insertEntry]
    split
    · by_cases h : other = key <;> simp [List.lookup_cons, h, hbeq]
    · split
      case isTrue heq =>
        subst heq
        by_cases h : other = key <;> simp [List.lookup_cons, h, hbeq]
      case isFalse hne =>
        by_cases hk : other = k
        · subst hk
          simp [Ne.symm hne]
        · simp [List.lookup_cons, hbeq k hk, ih]

end Dict

/-! ## Sets of names -/

/-- A set of texts, which lists them in ascending order: a dictionary whose
values say nothing. -/
abbrev NameSet := Dict Unit

namespace NameSet

/-- No name. -/
def empty : NameSet := Dict.empty

/-- The set with a name. -/
def insert (s : NameSet) (name : String) : NameSet := Dict.insert s name ()

/-- The names of a list. -/
def ofList (names : List String) : NameSet := names.foldl insert empty

/-- The names, ascending. -/
def toList (s : NameSet) : List String := s.keys

/-- The names of both. -/
def union (s t : NameSet) : NameSet := t.toList.foldl insert s

end NameSet

end Codemod
