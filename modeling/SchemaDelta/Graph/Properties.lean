/-!
Properties: texts under keys, kept in the order of the keys.
-/

namespace SchemaDelta

/-- Texts under different keys, in the order of the keys. -/
structure Properties where
  entries : List (String × String)
  ascending : entries.Pairwise fun a b => a.1 < b.1
  deriving DecidableEq

namespace Properties

/-- No properties. -/
def empty : Properties :=
  ⟨[], .nil⟩

instance : Inhabited Properties := ⟨empty⟩

/-- The keys, in order. -/
def keys (ps : Properties) : List String :=
  ps.entries.map (·.1)

/-- The text under a key. -/
def get? (ps : Properties) (key : String) : Option String :=
  (ps.entries.find? fun entry => entry.1 == key).map (·.2)

/-- An entry at its place among entries in order, instead of the one that had its key. -/
def insertEntry (key value : String) : List (String × String) → List (String × String)
  | [] => [(key, value)]
  | entry :: rest =>
    if key < entry.1 then (key, value) :: entry :: rest
    else if key = entry.1 then (key, value) :: rest
    else entry :: insertEntry key value rest

theorem mem_insertEntry {key value : String} {entries : List (String × String)}
    {entry : String × String} (h : entry ∈ insertEntry key value entries) :
    entry = (key, value) ∨ entry ∈ entries := by
  induction entries with
  | nil => exact Or.inl (List.mem_singleton.1 h)
  | cons first rest ih => grind [insertEntry]

theorem insertEntry_ascending (key value : String) {entries : List (String × String)}
    (h : entries.Pairwise fun a b => a.1 < b.1) :
    (insertEntry key value entries).Pairwise fun a b => a.1 < b.1 := by
  induction entries with
  | nil => simp [insertEntry]
  | cons first rest ih =>
    obtain ⟨hfirst, hrest⟩ := List.pairwise_cons.1 h
    rw [insertEntry]
    split
    · next hlt =>
      refine List.pairwise_cons.2 ⟨fun entry hentry => ?_, h⟩
      rcases List.mem_cons.1 hentry with rfl | hentry
      · exact hlt
      · exact String.lt_trans hlt (hfirst entry hentry)
    · next hlt =>
      split
      · next heq =>
        refine List.pairwise_cons.2 ⟨fun entry hentry => ?_, hrest⟩
        rw [heq]
        exact hfirst entry hentry
      · next hne =>
        refine List.pairwise_cons.2 ⟨fun entry hentry => ?_, ih hrest⟩
        rcases mem_insertEntry hentry with rfl | hentry
        · rcases Std.lt_trichotomy first.1 key with hlt' | heq | hgt
          · exact hlt'
          · exact absurd heq.symm hne
          · exact absurd hgt hlt
        · exact hfirst entry hentry

/-- The properties with a text under a key, instead of the one it had. -/
def insert (ps : Properties) (key value : String) : Properties :=
  ⟨insertEntry key value ps.entries, insertEntry_ascending key value ps.ascending⟩

/-- The properties with a text under a key, if there is one. -/
def insert? (ps : Properties) (key : String) : Option String → Properties
  | none => ps
  | some value => ps.insert key value

/-- The properties that a list of keys and texts gives; of two texts under one key the later
counts. -/
def ofList (entries : List (String × String)) : Properties :=
  entries.foldl (fun ps entry => ps.insert entry.1 entry.2) empty

/-- A key at its place among keys in order, once. -/
def insertKey (key : String) : List String → List String
  | [] => [key]
  | first :: rest =>
    if key < first then key :: first :: rest
    else if key = first then first :: rest
    else first :: insertKey key rest

/-- The keys of either of two sets of properties, in order, each once. -/
def jointKeys (a b : Properties) : List String :=
  b.keys.foldr insertKey a.keys

end Properties

end SchemaDelta
