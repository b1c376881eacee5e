/-!
# Variables

The variables of an expression are numbered in the order of their first use. `Variables` is a map from
names to **indices**: a name that is in the map has the index that is stored for it, and a name that is
new is put in with the number of entries as its index.
-/

namespace Reckoner

/-- A map from names to indices. -/
structure Variables where
  /-- the names, each with its index -/
  entries : List (String × Nat)
  /-- each name has one index -/
  nodup_names : (entries.map Prod.fst).Nodup
  deriving DecidableEq, Repr

namespace Variables

/-- No variables. -/
def empty : Variables := ⟨[], .nil⟩

/-- How many variables have been seen. -/
def count (known : Variables) : Nat := known.entries.length

/-- The index that is stored for a name, if it has been seen. -/
def index? (known : Variables) (name : String) : Option Nat := known.entries.lookup name

/-- Stores an index for a name, in place of the one that it had before. -/
def insert (known : Variables) (name : String) (index : Nat) : Variables where
  entries := known.entries.filter (·.1 ≠ name) ++ [(name, index)]
  nodup_names := by
    rw [List.map_append, List.nodup_append]
    refine ⟨known.nodup_names.sublist (List.filter_sublist.map _), by simp, ?_⟩
    intro other hother last hlast
    obtain ⟨entry, hentry, rfl⟩ := List.mem_map.mp hother
    obtain rfl := List.mem_singleton.mp hlast
    simpa using (List.mem_filter.mp hentry).2

/-- The index of a name, which is seen now if it was not before. -/
def index (known : Variables) (name : String) : Nat × Variables :=
  match known.index? name with
  | some index => (index, known)
  | none => (known.count, known.insert name known.count)

end Variables

end Reckoner
