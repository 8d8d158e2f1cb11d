/-!
Maps from text that remember the order in which their keys first came. The main statements say what
insertion does to the keys and to the values found under them, and so which keys and values a list of
entries leaves.
-/

namespace EsmCompletion

/-- The entries with the value of `key` set: in place if the key is there, otherwise at the end. -/
def insertEntry {α : Type} (key : String) (value : α) :
    List (String × α) → List (String × α)
  | [] => [(key, value)]
  | entry :: entries =>
    if entry.1 = key then (key, value) :: entries else entry :: insertEntry key value entries

/-- A map whose keys keep the order of their first insertion. -/
structure OrderedMap (α : Type) where
  entries : List (String × α)
  deriving Repr, DecidableEq

namespace OrderedMap

variable {α : Type}

def empty : OrderedMap α := ⟨[]⟩

/-- Sets the value of a key. A key that was there keeps its place. -/
def insert (map : OrderedMap α) (key : String) (value : α) : OrderedMap α :=
  ⟨insertEntry key value map.entries⟩

def get? (map : OrderedMap α) (key : String) : Option α := map.entries.lookup key

def keys (map : OrderedMap α) : List String := map.entries.map Prod.fst

def values (map : OrderedMap α) : List α := map.entries.map Prod.snd

def insertAll (map : OrderedMap α) (entries : List (String × α)) : OrderedMap α :=
  entries.foldl (fun m entry => m.insert entry.1 entry.2) map

def ofList (entries : List (String × α)) : OrderedMap α := empty.insertAll entries

theorem keys_insertEntry (key : String) (value : α) (entries : List (String × α)) :
    (insertEntry key value entries).map Prod.fst =
      if key ∈ entries.map Prod.fst then entries.map Prod.fst
      else entries.map Prod.fst ++ [key] := by
  induction entries with
  | nil => simp [insertEntry]
  | cons entry entries ih =>
    by_cases h : entry.1 = key
    · simp [insertEntry, h]
    · have h' : ¬ key = entry.1 := fun e => h e.symm
      simp only [insertEntry, h, if_false, List.map_cons, List.mem_cons, h', false_or, ih]
      split <;> simp

/-- Insertion keeps the order of the keys and adds a new key at the end. -/
theorem keys_insert (map : OrderedMap α) (key : String) (value : α) :
    (map.insert key value).keys = if key ∈ map.keys then map.keys else map.keys ++ [key] :=
  keys_insertEntry key value map.entries

theorem lookup_insertEntry (key other : String) (value : α) (entries : List (String × α)) :
    (insertEntry key value entries).lookup other =
      if other = key then some value else entries.lookup other := by
  induction entries with
  | nil =>
    by_cases h : other = key
    · simp [insertEntry, h]
    · have hb : (other == key) = false := by simpa using h
      simp [insertEntry, List.lookup_cons, h, hb]
  | cons entry entries ih =>
    obtain ⟨k, v⟩ := entry
    by_cases h : k = key
    · subst h
      by_cases ho : other = k
      · simp [insertEntry, ho]
      · have hb : (other == k) = false := by simpa using ho
        simp [insertEntry, List.lookup_cons, ho, hb]
    · by_cases hk : other = k
      · have ho : ¬ other = key := fun e => h (hk.symm.trans e)
        simp [insertEntry, h, hk]
      · have hb : (other == k) = false := by simpa using hk
        simp [insertEntry, h, List.lookup_cons, hb, ih]

/-- Insertion changes what is found under the inserted key alone. -/
theorem get?_insert (map : OrderedMap α) (key other : String) (value : α) :
    (map.insert key value).get? other = if other = key then some value else map.get? other :=
  lookup_insertEntry key other value map.entries

theorem mem_insertEntry {key : String} {value : α} {entries : List (String × α)}
    {entry : String × α} (h : entry ∈ insertEntry key value entries) :
    entry = (key, value) ∨ entry ∈ entries := by
  induction entries with
  | nil => exact .inl (List.mem_singleton.1 h)
  | cons first rest ih =>
    unfold insertEntry at h
    split at h
    · exact (List.mem_cons.1 h).imp_right (List.mem_cons_of_mem _)
    · rcases List.mem_cons.1 h with rfl | h
      · exact .inr (List.mem_cons_self ..)
      · exact (ih h).imp_right (List.mem_cons_of_mem _)

/-! Several insertions, one after the other. -/

/-- Every entry was there, or is one of those that were inserted. -/
theorem mem_insertAll (map : OrderedMap α) {added : List (String × α)} {entry : String × α}
    (h : entry ∈ (map.insertAll added).entries) : entry ∈ map.entries ∨ entry ∈ added := by
  induction added generalizing map with
  | nil => exact .inl h
  | cons first rest ih =>
    rcases ih (map.insert first.1 first.2) h with h | h
    · rcases mem_insertEntry h with rfl | h
      · exact .inr (List.mem_cons_self ..)
      · exact .inl h
    · exact .inr (List.mem_cons_of_mem _ h)

theorem insertAll_append (map : OrderedMap α) (entries more : List (String × α)) :
    map.insertAll (entries ++ more) = (map.insertAll entries).insertAll more := by
  simp [insertAll]

/-- The keys that are added are the new ones, in the order in which they first come. -/
theorem keys_insertAll (map : OrderedMap α) (entries : List (String × α)) :
    (map.insertAll entries).keys =
      map.keys ++ ((entries.map Prod.fst).filter (· ∉ map.keys)).eraseDups := by
  induction entries generalizing map with
  | nil => simp [insertAll]
  | cons entry rest ih =>
    show ((map.insert entry.1 entry.2).insertAll rest).keys = _
    rw [ih, keys_insert]
    by_cases h : entry.1 ∈ map.keys
    · simp [h]
    · have hnew : (rest.map Prod.fst).filter (· ∉ map.keys ++ [entry.1]) =
          ((rest.map Prod.fst).filter (· ∉ map.keys)).filter (fun key => !(key == entry.1)) := by
        rw [List.filter_filter]
        refine List.filter_congr fun key _ => ?_
        by_cases hk : key = entry.1 <;> simp [hk]
      simp only [h, if_false, hnew, List.map_cons]
      simp [h, List.eraseDups_cons]

/-- Of several values for a key the last one counts. -/
theorem get?_insertAll (map : OrderedMap α) (key : String) (entries : List (String × α)) :
    (map.insertAll entries).get? key =
      (((entries.filter (·.1 = key)).getLast?).map Prod.snd).or (map.get? key) := by
  induction entries generalizing map with
  | nil => rfl
  | cons entry rest ih =>
    rw [insertAll, List.foldl_cons, ← insertAll, ih, get?_insert, List.filter_cons]
    by_cases h : entry.1 = key
    · rw [if_pos h.symm, if_pos (by simpa using h), List.getLast?_cons]
      cases (rest.filter (·.1 = key)).getLast? <;> rfl
    · rw [if_neg (Ne.symm h), if_neg (by simpa using h)]

/-- A map that is made of a list has the keys of the list, in the order in which they first come. -/
theorem keys_ofList (entries : List (String × α)) :
    (ofList entries).keys = (entries.map Prod.fst).eraseDups := by
  have hnew : (entries.map Prod.fst).filter (· ∉ (empty : OrderedMap α).keys) =
      entries.map Prod.fst :=
    List.filter_eq_self.2 fun key _ => by simp [empty, keys]
  rw [ofList, keys_insertAll, hnew]
  rfl

/-- A map that is made of a list has the last value of each key. -/
theorem get?_ofList (entries : List (String × α)) (key : String) :
    (ofList entries).get? key = ((entries.filter (·.1 = key)).getLast?).map Prod.snd := by
  rw [ofList, get?_insertAll]
  exact Option.or_none

end OrderedMap

end EsmCompletion
