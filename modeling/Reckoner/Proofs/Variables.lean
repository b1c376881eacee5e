import Mathlib.Data.Finset.Card
import Mathlib.Data.Set.Function
import Reckoner.Variables

/-!
# Seeing variables

Names are seen one after the other, and the map of their indices grows with them. It takes the next
index from its size. That this is right rests on an invariant: the indices that are stored are **the
numbers from zero on**, in the order of the entries (`Variables.Dense`). Seeing a name keeps it
(`Variables.Dense.see`), so it holds after any names (`Variables.dense_seeAll`).

* Names and indices then belong together **one to one** (`Variables.Dense.bijOn_index?`).
* What has been seen is each name once, in the order of the **first occurrences**
  (`Variables.names_seeAll`), so the index of a name counts the names before its first occurrence
  (`Variables.index_seeAll`).
* Seeing a name stores nothing for another one, and nothing new for one that was seen before, so a name
  **keeps its index** (`Variables.index?_seeAll`).

All names of a sequence are given their indices accordingly (`Variables.indexAll_exact`).
-/

namespace Reckoner

namespace Variables

variable {known : Variables} {name other : String} {i : Nat}

/-! ## The map -/

/-- The names that have an index. -/
def names (known : Variables) : List String := known.entries.map Prod.fst

@[simp] theorem names_empty : empty.names = [] := rfl

theorem length_names (known : Variables) : known.names.length = known.count := List.length_map _

theorem index?_eq_none_iff : known.index? name = none ↔ name ∉ known.names := by
  rw [index?, List.lookup_eq_none_iff, names, List.mem_map]
  constructor
  · rintro h ⟨entry, hentry, rfl⟩
    simpa using h entry hentry
  · intro h entry hentry
    exact bne_iff_ne.mpr fun heq => h ⟨entry, hentry, heq.symm⟩

/-- The index of a name is the one that is stored with it. -/
theorem index?_eq_some_iff : known.index? name = some i ↔ (name, i) ∈ known.entries := by
  rw [index?, List.lookup_eq_some_iff]
  constructor
  · rintro ⟨front, back, hentries, -⟩
    simp [hentries]
  · intro h
    obtain ⟨front, back, hentries⟩ := List.append_of_mem h
    refine ⟨front, back, hentries, ?_⟩
    intro entry hentry
    -- no other entry is about this name
    have hnodup := known.nodup_names
    rw [hentries, List.map_append, List.nodup_append] at hnodup
    exact bne_iff_ne.mpr
      (hnodup.2.2 entry.1 (List.mem_map_of_mem hentry) name (by simp)).symm

@[simp] theorem index?_insert_self (known : Variables) (name : String) (i : Nat) :
    (known.insert name i).index? name = some i :=
  index?_eq_some_iff.mpr (by simp [insert])

theorem index?_insert_of_ne (h : other ≠ name) (known : Variables) (i : Nat) :
    (known.insert name i).index? other = known.index? other := by
  refine Option.ext fun j => ?_
  simp [index?_eq_some_iff, insert, h]

/-- What is stored for a new name comes last. -/
theorem entries_insert_of_notMem (h : name ∉ known.names) (i : Nat) :
    (known.insert name i).entries = known.entries ++ [(name, i)] := by
  have hall : ∀ entry ∈ known.entries, decide (entry.1 ≠ name) := by
    intro entry hentry
    exact decide_eq_true fun heq => h (heq ▸ List.mem_map_of_mem hentry)
  exact congrArg (· ++ [(name, i)]) (List.filter_eq_self.mpr hall)

theorem count_insert_of_notMem (h : name ∉ known.names) (i : Nat) :
    (known.insert name i).count = known.count + 1 := by
  rw [count, entries_insert_of_notMem h]
  exact List.length_append

/-! ## What has been seen -/

/-- The variables seen after one more name. -/
def see (known : Variables) (name : String) : Variables := (known.index name).2

/-- The variables seen after some more names. -/
def seeAll (known : Variables) (names : List String) : Variables :=
  names.foldl see known

theorem index_of_index? (h : known.index? name = some i) : (known.index name).1 = i := by
  simp [index, h]

/-- A new name has the next index. -/
theorem index_of_notMem (h : name ∉ known.names) : (known.index name).1 = known.count := by
  simp [index, index?_eq_none_iff.mpr h]

/-- A name that was seen before changes nothing. -/
theorem see_of_mem (h : name ∈ known.names) : known.see name = known := by
  rcases hi : known.index? name with _ | i
  · exact absurd h (index?_eq_none_iff.mp hi)
  · simp [see, index, hi]

/-- A new name is stored with the next index. -/
theorem see_of_notMem (h : name ∉ known.names) :
    known.see name = known.insert name known.count := by
  simp [see, index, index?_eq_none_iff.mpr h]

/-- The index that a name is given is stored for it. -/
theorem index?_see (known : Variables) (name : String) :
    (known.see name).index? name = some (known.index name).1 := by
  rcases hi : known.index? name with _ | i
  · rw [index_of_notMem (index?_eq_none_iff.mp hi), see_of_notMem (index?_eq_none_iff.mp hi),
      index?_insert_self]
  · simp [see, index, hi]

/-- Seeing a name changes no index that is stored. -/
theorem index?_see_of_some (h : known.index? other = some i) (name : String) :
    (known.see name).index? other = some i := by
  by_cases hname : name ∈ known.names
  · rwa [see_of_mem hname]
  · have hne : other ≠ name := by
      rintro rfl
      exact hname (List.mem_map_of_mem (index?_eq_some_iff.mp h))
    rwa [see_of_notMem hname, index?_insert_of_ne hne]

/-- **A name keeps its index**, whatever is seen later. -/
theorem index?_seeAll (h : known.index? name = some i) (names : List String) :
    (known.seeAll names).index? name = some i := by
  induction names generalizing known with
  | nil => exact h
  | cons other rest ih => exact ih (index?_see_of_some h other)

theorem index_see_seeAll (known : Variables) (name : String) (names : List String) :
    (((known.see name).seeAll names).index name).1 = (known.index name).1 :=
  index_of_index? (index?_seeAll (known.index?_see name) names)

theorem seeAll_append (known : Variables) (front back : List String) :
    known.seeAll (front ++ back) = (known.seeAll front).seeAll back := List.foldl_append

/-! ## The indices that are stored -/

/-- The indices are the numbers from zero on, in the order of the entries. -/
def Dense (known : Variables) : Prop :=
  known.entries.map Prod.snd = List.range known.count

theorem dense_empty : empty.Dense := rfl

/-- **Seeing a name keeps the indices dense**: a new one is stored with the number of the indices that
were stored before. -/
theorem Dense.see (h : known.Dense) (name : String) : (known.see name).Dense := by
  by_cases hname : name ∈ known.names
  · rwa [see_of_mem hname]
  · rw [Dense] at h
    rw [see_of_notMem hname, Dense, entries_insert_of_notMem hname, count_insert_of_notMem hname,
      List.map_append, h, List.range_succ]
    rfl

theorem Dense.seeAll (h : known.Dense) (names : List String) : (known.seeAll names).Dense := by
  induction names generalizing known with
  | nil => exact h
  | cons name rest ih => exact ih (h.see name)

/-- **After any names the indices are dense.** -/
theorem dense_seeAll (names : List String) : (empty.seeAll names).Dense := dense_empty.seeAll names

/-- Where indices are dense, an entry is stored with its place. -/
theorem Dense.snd_of_getElem? (h : known.Dense) {entry : String × Nat}
    (hentry : known.entries[i]? = some entry) : entry.2 = i := by
  have hindex : (known.entries.map Prod.snd)[i]? = some entry.2 := by
    rw [List.getElem?_map, hentry]
    rfl
  have hlt : i < known.count := (List.getElem?_eq_some_iff.mp hentry).1
  rw [h, List.getElem?_range hlt] at hindex
  exact (Option.some.inj hindex).symm

/-- Dense indices are the places of the names. -/
theorem Dense.index?_eq_some_iff (h : known.Dense) :
    known.index? name = some i ↔ known.names[i]? = some name := by
  rw [Variables.index?_eq_some_iff, List.mem_iff_getElem?, names, List.getElem?_map]
  constructor
  · rintro ⟨j, hj⟩
    obtain rfl : i = j := h.snd_of_getElem? hj
    rw [hj]
    rfl
  · intro hname
    obtain ⟨⟨_, j⟩, hentry, rfl⟩ := Option.map_eq_some_iff.mp hname
    obtain rfl : j = i := h.snd_of_getElem? hentry
    exact ⟨j, hentry⟩

/-- Dense indices are below their number. -/
theorem Dense.lt_count (h : known.Dense) (hi : known.index? name = some i) : i < known.count :=
  known.length_names ▸ (List.getElem?_eq_some_iff.mp (h.index?_eq_some_iff.mp hi)).1

/-- **Dense indices belong to the names one to one.** -/
theorem Dense.bijOn_index? (h : known.Dense) :
    Set.BijOn known.index? {name | name ∈ known.names} (some '' Set.Iio known.count) := by
  refine ⟨?_, ?_, ?_⟩
  · intro name hname
    obtain ⟨i, hplace⟩ := List.mem_iff_getElem?.mp hname
    have hi := h.index?_eq_some_iff.mpr hplace
    exact ⟨i, h.lt_count hi, hi.symm⟩
  · intro name hname other _ heq
    obtain ⟨i, hi⟩ := List.mem_iff_getElem?.mp hname
    have hother : known.index? other = some i := heq ▸ h.index?_eq_some_iff.mpr hi
    exact Option.some.inj (hi.symm.trans (h.index?_eq_some_iff.mp hother))
  · rintro _ ⟨i, hlt, rfl⟩
    have hplace : i < known.names.length := known.length_names ▸ hlt
    have hi : known.names[i]? = some known.names[i] := List.getElem?_eq_getElem hplace
    exact ⟨_, List.mem_of_getElem? hi, h.index?_eq_some_iff.mpr hi⟩

/-! ## First occurrences -/

theorem names_see_of_notMem (h : name ∉ known.names) :
    (known.see name).names = known.names ++ [name] := by
  rw [see_of_notMem h, names, entries_insert_of_notMem h, List.map_append]
  rfl

theorem names_seeAll_eq (names : List String) (known : Variables) :
    (known.seeAll names).names =
      known.names ++ (names.removeAll known.names).eraseDups := by
  induction names generalizing known with
  | nil => simp [seeAll]
  | cons name rest ih =>
    have step : (known.seeAll (name :: rest)).names =
        ((known.see name).seeAll rest).names := rfl
    rw [step, ih, List.cons_removeAll]
    -- a name that was seen before is removed on both sides, a new one from the rest of the names
    by_cases h : name ∈ known.names
    · rw [see_of_mem h]
      simp [h]
    · have skip : rest.removeAll (known.names ++ [name]) =
          (rest.removeAll known.names).filter (! · == name) := by
        simp [List.removeAll, List.filter_filter, Bool.and_comm, Bool.beq_eq_decide_eq]
      rw [names_see_of_notMem h, skip]
      simp [h, List.eraseDups_cons]

/-- **First occurrences**: what has been seen is each name once, in the order of their first
occurrence. -/
theorem names_seeAll (names : List String) : (empty.seeAll names).names = names.eraseDups := by
  simp [names_seeAll_eq]

theorem mem_names_seeAll {names : List String} :
    name ∈ (empty.seeAll names).names ↔ name ∈ names := by
  rw [names_seeAll, List.mem_eraseDups]

/-- What has been seen is counted by the distinct names. -/
theorem count_seeAll (names : List String) :
    (empty.seeAll names).count = names.toFinset.card := by
  have hnodup : (empty.seeAll names).names.Nodup := (empty.seeAll names).nodup_names
  rw [← length_names, ← List.toFinset_card_of_nodup hnodup, names_seeAll]
  congr 1
  ext name
  simp

/-- **The index of a name** is the number of names that occur before it does for the first time. -/
theorem index_seeAll (front back : List String) (name : String) :
    ((empty.seeAll front).index name).1 =
      ((front ++ name :: back).takeWhile (· ≠ name)).toFinset.card := by
  have hnew {first : List String} (h : name ∉ first) (rest : List String) :
      (first ++ name :: rest).takeWhile (· ≠ name) = first ∧
        ((empty.seeAll first).index name).1 = first.toFinset.card := by
    have hall : ∀ other ∈ first, decide (other ≠ name) := by
      intro other hother
      simpa using fun heq : other = name => h (heq ▸ hother)
    have hnames : name ∉ (empty.seeAll first).names := mem_names_seeAll.not.mpr h
    rw [List.takeWhile_append_of_pos hall, index_of_notMem hnames, count_seeAll]
    simp
  by_cases hseen : name ∈ front
  · obtain ⟨first, rest, rfl, hfirst⟩ := List.eq_append_cons_of_mem hseen
    obtain ⟨htake, hindex⟩ := hnew hfirst (rest ++ name :: back)
    rw [List.append_assoc, List.cons_append, htake, ← hindex, seeAll_append]
    exact index_see_seeAll _ name rest
  · obtain ⟨htake, hindex⟩ := hnew hseen back
    rw [htake, hindex]

/-! ## The names of a sequence -/

/-- The indices of some names, one after the other, and the variables seen at their end. -/
def indexAll (known : Variables) : List String → List Nat × Variables
  | [] => ([], known)
  | name :: rest =>
    let (index, known) := known.index name
    let (indices, known) := known.indexAll rest
    (index :: indices, known)

theorem indexAll_snd (names : List String) (known : Variables) :
    (known.indexAll names).2 = known.seeAll names := by
  induction names generalizing known with
  | nil => rfl
  | cons name rest ih => exact ih (known.see name)

/-- A name has the same index wherever it stands in the sequence, which is the one at the end. -/
theorem indexAll_fst (names : List String) (known : Variables) :
    (known.indexAll names).1 = names.map fun name => ((known.seeAll names).index name).1 := by
  induction names generalizing known with
  | nil => rfl
  | cons name rest ih =>
    have hhead : (((known.see name).seeAll rest).index name).1 = (known.index name).1 :=
      known.index_see_seeAll name rest
    calc (known.indexAll (name :: rest)).1
        = (known.index name).1 :: ((known.see name).indexAll rest).1 := rfl
      _ = (known.index name).1 ::
            rest.map fun other => (((known.see name).seeAll rest).index other).1 := by rw [ih]
      _ = (name :: rest).map fun other => ((known.seeAll (name :: rest)).index other).1 := by
        rw [List.map_cons, ← hhead]
        rfl

/-- The index that a name has at the end counts the names before its first occurrence. -/
theorem index?_seeAll_of_mem {names : List String} (h : name ∈ names) :
    (empty.seeAll names).index? name =
      some (names.takeWhile (· ≠ name)).toFinset.card := by
  obtain ⟨first, rest, rfl, -⟩ := List.eq_append_cons_of_mem h
  rw [seeAll_append, ← index_seeAll first rest name]
  exact index?_seeAll (index?_see _ name) rest

/-- What is known after a part of a sequence is known after any longer part. -/
theorem index?_seeAll_take {names : List String} {k later : Nat} (hle : k ≤ later)
    (h : (empty.seeAll (names.take k)).index? name = some i) :
    (empty.seeAll (names.take later)).index? name = some i := by
  obtain ⟨behind, hbehind⟩ := List.take_prefix_take_left (l := names) hle
  rw [← hbehind, seeAll_append]
  exact index?_seeAll h behind

/-- **Indices are dense, one to one and stable.** In a sequence of names, each gets as its index the
number of different names before its own first occurrence, and this is the index that is known
from then on. After any part of the sequence, as many variables are known as there are different names
in it; the names seen have the indices below that number, one each, and no other name has an index;
and whatever index a name has, it keeps. -/
theorem indexAll_exact (names : List String) :
    (empty.indexAll names).1 =
        names.map (fun name => (names.takeWhile (· ≠ name)).toFinset.card) ∧
      (∀ k name, names[k]? = some name →
        (empty.indexAll (names.take (k + 1))).2.index? name = (empty.indexAll names).1[k]?) ∧
      ∀ k,
        let known := (empty.indexAll (names.take k)).2
        known.count = (names.take k).toFinset.card ∧
          Set.BijOn known.index? {name | name ∈ names.take k} (some '' Set.Iio known.count) ∧
          (∀ name ∉ names.take k, known.index? name = none) ∧
          ∀ name index, known.index? name = some index → ∀ later, k ≤ later →
            (empty.indexAll (names.take later)).2.index? name = some index := by
  simp only [indexAll_snd]
  have hindices : (empty.indexAll names).1 =
      names.map (fun name => (names.takeWhile (· ≠ name)).toFinset.card) := by
    rw [indexAll_fst]
    exact List.map_congr_left fun name hname => index_of_index? (index?_seeAll_of_mem hname)
  refine ⟨hindices, ?_, ?_⟩
  · intro k name hname
    have hseen : name ∈ names.take (k + 1) :=
      List.mem_of_getElem? ((List.getElem?_take_of_lt (Nat.lt_succ_self k)).trans hname)
    have hkept := index?_seeAll (index?_seeAll_of_mem hseen) (names.drop (k + 1))
    rw [← seeAll_append, List.take_append_drop,
      index?_seeAll_of_mem (List.mem_of_getElem? hname)] at hkept
    rw [index?_seeAll_of_mem hseen, hindices, List.getElem?_map, hname]
    exact hkept.symm
  · intro k
    refine ⟨count_seeAll _, ?_, ?_, ?_⟩
    · simpa only [mem_names_seeAll] using (dense_seeAll (names.take k)).bijOn_index?
    · exact fun name hname => index?_eq_none_iff.mpr (mem_names_seeAll.not.mpr hname)
    · exact fun name index hindex later hle => index?_seeAll_take hle hindex

/-- A name that comes back has its index already, and a new one gets the next. -/
theorem indexAll_exact_repeated :
    (empty.indexAll ["y", "x", "y", "z"]).1 = [0, 1, 0, 2] ∧
      (empty.indexAll ["y", "x", "y"]).2.index? "y" = some 0 ∧
      (empty.indexAll ["y", "x", "y", "z"]).2.index? "x" = some 1 ∧
      Set.BijOn (empty.indexAll ["y", "x", "y"]).2.index? {name | name ∈ ["y", "x", "y"]}
        (some '' Set.Iio 2) := by
  obtain ⟨hindices, hanswers, hknown⟩ := indexAll_exact ["y", "x", "y", "z"]
  obtain ⟨-, hbij, -, hkept⟩ := hknown 3
  refine ⟨hindices.trans (by decide), ?_, hkept "x" 1 (by decide) 4 (by decide), hbij⟩
  exact (hanswers 2 "y" rfl).trans (by decide)

end Variables

end Reckoner
