/-
LayerFlow.Dictionary

A finite map from strings, kept as a list of entries in ascending order of their keys, so that
a map has one form only and is listed in one order only.

Main statements: `find?_insert_self` and `find?_insert_of_ne`, a look-up after a write, and
`ofList_entries`, writing the entries of a map into an empty one gives the map back.
-/

namespace LayerFlow

/-- A finite map from strings, with its entries in ascending order of the keys. -/
structure Dictionary (α : Type) where
  entries : List (String × α)
  ascending : entries.Pairwise (fun a b => a.1 < b.1)

namespace Dictionary

variable {α : Type}

instance [DecidableEq α] : DecidableEq (Dictionary α) := fun a b =>
  if h : a.entries = b.entries then
    .isTrue (by cases a; cases b; cases h; rfl)
  else .isFalse (fun heq => h (congrArg entries heq))

/-- Maps with the same entries are the same. -/
theorem ext {a b : Dictionary α} (h : a.entries = b.entries) : a = b := by
  cases a; cases b; cases h; rfl

/-- The map without entries. -/
def empty : Dictionary α := ⟨[], .nil⟩

/-- The value of a key. -/
def find? (d : Dictionary α) (key : String) : Option α :=
  (d.entries.find? fun entry => entry.1 = key).map Prod.snd

/-! ## Writing -/

/-- Writes a value under a key, in its place in the order. -/
def insertEntry (key : String) (value : α) : List (String × α) → List (String × α)
  | [] => [(key, value)]
  | entry :: rest =>
    if key < entry.1 then (key, value) :: entry :: rest
    else if key = entry.1 then (key, value) :: rest
    else entry :: insertEntry key value rest

/-- A written list holds the new entry and old ones only. -/
theorem mem_insertEntry {key : String} {value : α} {entries : List (String × α)}
    {entry : String × α} (h : entry ∈ insertEntry key value entries) :
    entry = (key, value) ∨ entry ∈ entries := by
  induction entries with
  | nil => exact .inl (List.mem_singleton.mp h)
  | cons first rest ih =>
    rw [insertEntry] at h
    split at h
    · rcases List.mem_cons.mp h with h | h
      · exact .inl h
      · exact .inr h
    split at h
    · rcases List.mem_cons.mp h with h | h
      · exact .inl h
      · exact .inr (List.mem_cons_of_mem _ h)
    · rcases List.mem_cons.mp h with h | h
      · exact .inr (h ▸ List.mem_cons_self)
      · rcases ih h with h | h
        · exact .inl h
        · exact .inr (List.mem_cons_of_mem _ h)

/-- Of two different keys that are not in ascending order, the second one is the smaller. -/
theorem lt_of_not_lt_of_ne {a b : String} (hlt : ¬ a < b) (hne : a ≠ b) : b < a := by
  rcases Classical.em (b < a) with h | h
  · exact h
  · exact absurd (String.le_antisymm (String.not_lt.mp h) (String.not_lt.mp hlt)) hne

/-- Writing keeps the keys in ascending order. -/
theorem ascending_insertEntry {key : String} {value : α} {entries : List (String × α)}
    (h : entries.Pairwise (fun a b => a.1 < b.1)) :
    (insertEntry key value entries).Pairwise (fun a b => a.1 < b.1) := by
  induction entries with
  | nil => simp [insertEntry]
  | cons first rest ih =>
    obtain ⟨hfirst, hrest⟩ := List.pairwise_cons.mp h
    rw [insertEntry]
    split
    · next hlt =>
      refine List.pairwise_cons.mpr ⟨fun entry hmem => ?_, h⟩
      rcases List.mem_cons.mp hmem with rfl | hmem
      · exact hlt
      · exact String.lt_trans hlt (hfirst entry hmem)
    split
    · next heq =>
      refine List.pairwise_cons.mpr ⟨fun entry hmem => ?_, hrest⟩
      simpa [heq] using hfirst entry hmem
    · next hlt hne =>
      refine List.pairwise_cons.mpr ⟨fun entry hmem => ?_, ih hrest⟩
      rcases mem_insertEntry hmem with rfl | hmem
      · exact lt_of_not_lt_of_ne hlt hne
      · exact hfirst entry hmem

/-- Writes a value under a key. -/
def insert (d : Dictionary α) (key : String) (value : α) : Dictionary α :=
  ⟨insertEntry key value d.entries, ascending_insertEntry d.ascending⟩

/-- Writes entries one after the other; of two with the same key the last one stays. -/
def ofList (entries : List (String × α)) : Dictionary α :=
  entries.foldl (fun d entry => d.insert entry.1 entry.2) empty

/-! ## Look-ups after a write -/

theorem find?_entries_insertEntry_self (key : String) (value : α)
    (entries : List (String × α)) :
    ((insertEntry key value entries).find? fun entry => entry.1 = key) = some (key, value) := by
  induction entries with
  | nil => simp [insertEntry]
  | cons first rest ih =>
    rw [insertEntry]
    split
    · simp
    split
    · simp
    · next hlt hne => simp [Ne.symm hne, ih]

theorem find?_entries_insertEntry_of_ne {key other : String} (hne : other ≠ key) (value : α)
    (entries : List (String × α)) :
    ((insertEntry key value entries).find? fun entry => entry.1 = other) =
      entries.find? fun entry => entry.1 = other := by
  induction entries with
  | nil => simp [insertEntry, Ne.symm hne]
  | cons first rest ih =>
    rw [insertEntry]
    split
    · simp [Ne.symm hne]
    split
    · next heq => simp [Ne.symm hne, ← heq]
    · simp only [List.find?_cons, ih]

/-- The written value is found under its key. -/
@[simp] theorem find?_insert_self (d : Dictionary α) (key : String) (value : α) :
    (d.insert key value).find? key = some value := by
  simp [find?, insert, find?_entries_insertEntry_self]

/-- Other keys keep their values. -/
theorem find?_insert_of_ne (d : Dictionary α) {key other : String} (hne : other ≠ key)
    (value : α) : (d.insert key value).find? other = d.find? other := by
  simp [find?, insert, find?_entries_insertEntry_of_ne hne]

/-- A list in ascending order has a key below that of its first entry nowhere. -/
theorem find?_eq_none_of_lt {key : String} {first : String × α} {rest : List (String × α)}
    (h : (first :: rest).Pairwise (fun a b => a.1 < b.1)) (hlt : key < first.1) :
    ((first :: rest).find? fun entry => entry.1 = key) = none := by
  rw [List.find?_eq_none]
  intro entry hentry
  have hbelow : key < entry.1 := by
    rcases List.mem_cons.mp hentry with rfl | hentry
    · exact hlt
    · exact String.lt_trans hlt ((List.pairwise_cons.mp h).1 entry hentry)
  simpa using (String.ne_of_lt hbelow).symm

theorem insertEntry_eq_self {key : String} {value : α} {entries : List (String × α)}
    (hascending : entries.Pairwise (fun a b => a.1 < b.1))
    (h : (entries.find? fun entry => entry.1 = key) = some (key, value)) :
    insertEntry key value entries = entries := by
  induction entries with
  | nil => cases h
  | cons first rest ih =>
    rw [insertEntry]
    split
    · next hlt =>
      rw [find?_eq_none_of_lt hascending hlt] at h
      cases h
    split
    · next heq =>
      rw [List.find?_cons_of_pos (by simpa using heq.symm)] at h
      rw [Option.some.inj h]
    · next hne =>
      rw [List.find?_cons_of_neg (by simpa using Ne.symm hne)] at h
      rw [ih (List.pairwise_cons.mp hascending).2 h]

/-- Writing what is there already changes nothing. -/
theorem insert_eq_self {d : Dictionary α} {key : String} {value : α}
    (h : d.find? key = some value) : d.insert key value = d := by
  obtain ⟨⟨found, _⟩, hfound, rfl⟩ := Option.map_eq_some_iff.mp h
  have hkey : found = key := by simpa using List.find?_some hfound
  subst hkey
  exact ext (insertEntry_eq_self d.ascending hfound)

/-! ## The entries determine the map -/

/-- A key above all others is written at the end. -/
theorem insertEntry_of_forall_lt {key : String} {value : α} {entries : List (String × α)}
    (h : ∀ entry ∈ entries, entry.1 < key) :
    insertEntry key value entries = entries ++ [(key, value)] := by
  induction entries with
  | nil => rfl
  | cons first rest ih =>
    have hfirst := h first List.mem_cons_self
    have hnlt : ¬ key < first.1 := String.lt_asymm hfirst
    have hne : key ≠ first.1 := fun heq => String.lt_irrefl _ (heq ▸ hfirst)
    rw [insertEntry, if_neg hnlt, if_neg hne,
      ih fun entry hmem => h entry (List.mem_cons_of_mem _ hmem)]
    rfl

theorem foldl_insert_entries (done rest : List (String × α))
    (hdone : done.Pairwise (fun a b => a.1 < b.1))
    (h : (done ++ rest).Pairwise (fun a b => a.1 < b.1)) :
    (rest.foldl (fun (d : Dictionary α) entry => d.insert entry.1 entry.2)
      (Dictionary.mk done hdone)).entries =
      done ++ rest := by
  induction rest generalizing done with
  | nil => simp
  | cons entry rest ih =>
    -- The next key is above all written ones, so it goes to the end.
    have hlast : insertEntry entry.1 entry.2 done = done ++ [entry] := by
      refine insertEntry_of_forall_lt fun other hmem => ?_
      exact (List.pairwise_append.mp h).2.2 other hmem entry List.mem_cons_self
    have hnext : (done ++ [entry]).Pairwise (fun a b => a.1 < b.1) :=
      hlast ▸ ascending_insertEntry hdone
    have hstep : (Dictionary.mk done hdone).insert entry.1 entry.2 =
        Dictionary.mk (done ++ [entry]) hnext := ext hlast
    rw [List.foldl_cons, hstep, ih (done ++ [entry]) hnext (by simpa using h)]
    simp

/-- Writing the entries of a map into an empty one gives the map back. -/
theorem ofList_entries (d : Dictionary α) : ofList d.entries = d := by
  apply ext
  simpa [ofList, empty] using foldl_insert_entries [] d.entries .nil (by simpa using d.ascending)

end Dictionary

end LayerFlow
