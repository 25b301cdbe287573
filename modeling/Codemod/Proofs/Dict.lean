import Codemod.Dict
import Mathlib.Data.List.Basic
import Mathlib.Data.List.Induction
/-!
# Dictionaries and sets of names

A dictionary is known by its look-ups (`Dict.eq_of_get?_eq`), since its entries
are in one order only. So is a set of names by its members (`NameSet.ext`), and
the members of a union are those of either set (`NameSet.mem_union`).
-/

namespace Codemod

namespace Dict

variable {α : Type} {d e : Dict α} {key : String} {value : α}

theorem mem_keys_iff : key ∈ d.keys ↔ (d.get? key).isSome = true := by
  rw [get?, List.lookup_isSome_iff, keys, List.mem_map]
  exact exists_congr fun entry => and_congr_right fun _ => by rw [beq_iff_eq, eq_comm]

theorem keys_sorted : d.keys.Pairwise (· < ·) := List.pairwise_map.2 d.sorted

theorem nodup_keys : d.keys.Nodup := keys_sorted.imp String.ne_of_lt

/-- The entries are what looking up their keys finds. -/
theorem mem_entries_iff : (key, value) ∈ d.entries ↔ d.get? key = some value := by
  obtain ⟨entries, hsorted⟩ := d
  rw [get?]
  dsimp only
  induction entries with
  | nil => simp
  | cons entry rest ih =>
    obtain ⟨k, v⟩ := entry
    obtain ⟨hfirst, hrest⟩ := List.pairwise_cons.1 hsorted
    rw [List.mem_cons, List.lookup_cons]
    by_cases hkey : key = k
    · subst hkey
      -- No later entry has the key of the first.
      have hlater : (key, value) ∉ rest := fun hmem =>
        absurd (hfirst _ hmem) (String.lt_irrefl key)
      simp [hlater, eq_comm]
    · simp [hkey, beq_false_of_ne hkey, ih hrest]

/-- There is one way to list entries by ascending key. -/
theorem entries_eq_of_perm {l l' : List (String × α)} (h : l.Perm l')
    (hl : l.Pairwise fun a b => a.1 < b.1) (hl' : l'.Pairwise fun a b => a.1 < b.1) : l = l' :=
  h.eq_of_pairwise (fun _ _ _ _ hab hba => absurd (String.lt_trans hab hba)
    (String.lt_irrefl _)) hl hl'

/-- **Dictionaries with the same look-ups are equal.** -/
theorem eq_of_get?_eq (h : ∀ key, d.get? key = e.get? key) : d = e := by
  have hnodup (d : Dict α) : d.entries.Nodup :=
    d.sorted.imp fun hlt heq => String.ne_of_lt hlt (congrArg Prod.fst heq)
  have hmem : ∀ entry, entry ∈ d.entries ↔ entry ∈ e.entries := fun ⟨key, value⟩ => by
    rw [mem_entries_iff, mem_entries_iff, h]
  have hentries : d.entries = e.entries := entries_eq_of_perm
    ((List.perm_ext_iff_of_nodup (hnodup d) (hnodup e)).2 hmem) d.sorted e.sorted
  obtain ⟨entries, _⟩ := d
  obtain ⟨entries', _⟩ := e
  obtain rfl : entries = entries' := hentries
  rfl

/-- The dictionary with other values under the same keys. -/
def mapValues {β : Type} (f : α → β) (d : Dict α) : Dict β where
  entries := d.entries.map fun entry => (entry.1, f entry.2)
  sorted := List.pairwise_map.2 d.sorted

theorem get?_mapValues {β : Type} (f : α → β) (d : Dict α) (key : String) :
    (d.mapValues f).get? key = (d.get? key).map f := by
  obtain ⟨entries, hsorted⟩ := d
  simp only [mapValues, get?]
  clear hsorted
  induction entries with
  | nil => rfl
  | cons entry rest ih =>
    obtain ⟨k, v⟩ := entry
    rw [List.map_cons, List.lookup_cons, List.lookup_cons, ih]
    cases key == k <;> rfl

theorem mapValues_insert {β : Type} (f : α → β) (d : Dict α) (key : String) (value : α) :
    (d.insert key value).mapValues f = (d.mapValues f).insert key (f value) := by
  refine eq_of_get?_eq fun other => ?_
  rw [get?_mapValues, get?_insert, get?_insert, get?_mapValues]
  split <;> rfl

theorem insertEntry_perm {l : List (String × α)} (h : key ∉ l.map Prod.fst) :
    (insertEntry key value l).Perm ((key, value) :: l) := by
  induction l with
  | nil => exact .refl _
  | cons entry rest ih =>
    obtain ⟨k, v⟩ := entry
    obtain ⟨hk, hrest⟩ := not_or.1 (List.mem_cons.not.1 h)
    rw [insertEntry, if_neg hk]
    split_ifs with hlt
    · exact .refl _
    · exact ((ih hrest).cons (k, v)).trans (.swap _ _ _)

theorem entries_foldl_insert_perm {l : List (String × α)}
    (h : (l.map Prod.fst ++ d.keys).Nodup) :
    (l.foldl (fun d entry => d.insert entry.1 entry.2) d).entries.Perm (l ++ d.entries) := by
  induction l generalizing d with
  | nil => exact .refl _
  | cons entry rest ih =>
    rw [List.map_cons, List.cons_append, List.nodup_cons, List.mem_append, not_or] at h
    obtain ⟨hfirst, hnodup⟩ := h
    have hinsert : (d.insert entry.1 entry.2).entries.Perm (entry :: d.entries) :=
      insertEntry_perm hfirst.2
    have hrest : (rest.map Prod.fst ++ (d.insert entry.1 entry.2).keys).Nodup := by
      have hkeys := (hinsert.map Prod.fst).append_left (rest.map Prod.fst)
      refine hkeys.nodup_iff.2 (List.perm_middle.nodup_iff.2 (List.nodup_cons.2 ⟨?_, hnodup⟩))
      rw [List.mem_append, not_or]
      exact hfirst
    exact ((ih hrest).trans (hinsert.append_left rest)).trans List.perm_middle

/-- The entries that a dictionary is made of are those it has, if no two of
them have the same key. -/
theorem entries_ofList_perm {l : List (String × α)} (h : (l.map Prod.fst).Nodup) :
    (ofList l).entries.Perm l := by
  have hperm := entries_foldl_insert_perm (d := Dict.empty) (by simpa [keys, empty] using h)
  rwa [show (Dict.empty : Dict α).entries = [] from rfl, List.append_nil] at hperm

/-- A dictionary made of entries holds, under each of their keys, the value of
one of them. -/
theorem exists_get?_ofList {l : List (String × α)} (h : key ∈ l.map Prod.fst) :
    ∃ value, (ofList l).get? key = some value ∧ (key, value) ∈ l := by
  induction l using List.reverseRecOn with
  | nil => exact absurd h (by simp)
  | append_singleton l entry ih =>
    -- The last entry counts, and what it does not hide was there before.
    rw [ofList, List.foldl_append, List.foldl_cons, List.foldl_nil, ← ofList, get?_insert]
    split_ifs with hkey
    · exact ⟨entry.2, rfl, by simp [hkey]⟩
    · have hbefore : key ∈ l.map Prod.fst := by simpa [hkey] using h
      obtain ⟨value, hvalue, hmem⟩ := ih hbefore
      exact ⟨value, hvalue, List.mem_append_left _ hmem⟩

end Dict

namespace NameSet

variable {s t : NameSet} {name other : String}

@[simp] theorem mem_empty : ¬ name ∈ empty.toList := List.not_mem_nil

theorem mem_insert : other ∈ (s.insert name).toList ↔ other = name ∨ other ∈ s.toList := by
  simp only [toList, insert, Dict.mem_keys_iff, Dict.get?_insert]
  by_cases h : other = name <;> simp [h]

theorem mem_foldl_insert {names : List String} :
    other ∈ (names.foldl insert s).toList ↔ other ∈ s.toList ∨ other ∈ names := by
  induction names generalizing s with
  | nil => simp
  | cons name names ih =>
    rw [List.foldl_cons, ih, mem_insert, List.mem_cons, or_assoc, or_left_comm]

theorem mem_union : name ∈ (s.union t).toList ↔ name ∈ s.toList ∨ name ∈ t.toList :=
  mem_foldl_insert

/-- **Sets of names with the same members are equal.** -/
theorem ext (h : ∀ name, name ∈ s.toList ↔ name ∈ t.toList) : s = t := by
  refine Dict.eq_of_get?_eq fun key => ?_
  have hkey := h key
  simp only [toList, Dict.mem_keys_iff] at hkey
  cases hs : s.get? key <;> cases ht : t.get? key <;> simp [hs, ht] at hkey
  · rfl
  · rfl

end NameSet

end Codemod
