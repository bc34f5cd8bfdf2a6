/-! Lists of entries, each a key with a value, in the order in which the keys were first given.  To
alter an entry keeps its place; `lookup_alter` and `lookup_alter_of_ne` say what is found
afterwards. -/

namespace CityTour.Entries

variable {κ β : Type} [DecidableEq κ]

/-- The entries with a new value for a key, made from the older one if there is any: in the place of
that entry, else at the end. -/
def alter (change : Option β → β) (key : κ) : List (κ × β) → List (κ × β)
  | [] => [(key, change none)]
  | (k, v) :: rest =>
    if key = k then (k, change (some v)) :: rest else (k, v) :: alter change key rest

/-- The entries with a value for a key. -/
def put (entries : List (κ × β)) (key : κ) (value : β) : List (κ × β) :=
  alter (fun _ => value) key entries

/-- One entry a key: the place is that of the first entry of the key, the value that of the last. -/
def settle (entries : List (κ × β)) : List (κ × β) :=
  entries.foldl (fun done e => put done e.1 e.2) []

/-- An altered entry has the new value. -/
theorem lookup_alter (change : Option β → β) (key : κ) (entries : List (κ × β)) :
    (alter change key entries).lookup key = some (change (entries.lookup key)) := by
  induction entries with
  | nil => simp [alter]
  | cons e rest ih =>
    obtain ⟨k, v⟩ := e
    by_cases h : key = k
    · subst h; simp [alter]
    · simp [alter, List.lookup_cons, beq_false_of_ne h, h, ih]

/-- All other entries keep their values. -/
theorem lookup_alter_of_ne (change : Option β → β) {key other : κ} (entries : List (κ × β))
    (h : other ≠ key) : (alter change key entries).lookup other = entries.lookup other := by
  induction entries with
  | nil => simp [alter, List.lookup_cons, beq_false_of_ne h]
  | cons e rest ih =>
    obtain ⟨k, v⟩ := e
    by_cases hk : key = k
    · subst hk; simp [alter, List.lookup_cons, beq_false_of_ne h]
    · simp [alter, List.lookup_cons, hk, ih]

end CityTour.Entries
