/-!
Catalogs: definitions in the order in which they were first given, no two of one name. A
definition of a name that is already there takes the place of the earlier one.
-/

namespace SchemaDelta

/-- A list of definitions with different names. -/
structure Catalog (α : Type) (name : α → String) where
  /-- The definitions, in order. -/
  entries : List α
  /-- No name is given twice. -/
  distinct : (entries.map name).Nodup
  deriving DecidableEq

namespace Catalog

variable {α : Type} {name : α → String}

/-- The catalog without definitions. -/
def empty : Catalog α name :=
  ⟨[], .nil⟩

instance : Inhabited (Catalog α name) := ⟨empty⟩

/-- The names of the definitions, in order. -/
def names (c : Catalog α name) : List String :=
  c.entries.map name

/-- The definition of a name. -/
def find? (c : Catalog α name) (key : String) : Option α :=
  c.entries.find? fun a => name a == key

/-- The entries with `a` in the place of the entry of its name. -/
def replaced (name : α → String) (a : α) (entries : List α) : List α :=
  entries.map fun b => if name b = name a then a else b

theorem map_name_replaced (a : α) (entries : List α) :
    (replaced name a entries).map name = entries.map name := by
  simp only [replaced, List.map_map, List.map_inj_left, Function.comp]
  intro b _
  split <;> simp_all

/-- A catalog with one more definition: in the place of the earlier one of its name if there is
one, at the end otherwise. -/
def put (c : Catalog α name) (a : α) : Catalog α name :=
  if h : name a ∈ c.names then
    ⟨replaced name a c.entries, by rw [map_name_replaced]; exact c.distinct⟩
  else
    ⟨c.entries ++ [a], by
      have := c.distinct
      simp only [names] at h
      simp only [List.map_append, List.map_cons, List.map_nil, List.nodup_append]
      grind⟩

theorem names_put (c : Catalog α name) (a : α) :
    (c.put a).names = if name a ∈ c.names then c.names else c.names ++ [name a] := by
  unfold put
  split
  · exact map_name_replaced a c.entries
  · simp [names]

end Catalog

end SchemaDelta
