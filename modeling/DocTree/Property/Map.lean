import DocTree.Property.Value

/-!
# Property maps

The properties of an element, in the order in which their names first came.  Setting a property that
is there keeps its place; a new one comes last.  Equality compares two maps without regard to order.
That is assumed of the package `indexmap`, whose maps hold the properties.
-/

namespace DocTree

/-- The properties of an element, in insertion order, no name twice. -/
structure Properties where
  entries : List (String × PropertyValue)
  nodup : (entries.map (·.1)).Nodup

namespace Properties

/-- The map without properties. -/
def empty : Properties := ⟨[], .nil⟩

instance : Inhabited Properties := ⟨empty⟩

/-- The names, in order. -/
def names (p : Properties) : List String := p.entries.map (·.1)

/-- The number of properties. -/
def size (p : Properties) : Nat := p.entries.length

/-- The value of a property, in a list of entries. -/
def lookup (name : String) : List (String × PropertyValue) → Option PropertyValue
  | [] => none
  | (n, v) :: rest => if n = name then some v else lookup name rest

/-- The value of a property. -/
def get? (p : Properties) (name : String) : Option PropertyValue := lookup name p.entries

/-- Sets a property in a list of entries: in its place if it is there, else at the end. -/
def put (name : String) (value : PropertyValue) :
    List (String × PropertyValue) → List (String × PropertyValue)
  | [] => [(name, value)]
  | (n, v) :: rest => if n = name then (n, value) :: rest else (n, v) :: put name value rest

theorem mem_names_put {name other : String} {value : PropertyValue}
    {entries : List (String × PropertyValue)} :
    other ∈ (put name value entries).map (·.1) ↔ other = name ∨ other ∈ entries.map (·.1) := by
  induction entries with
  | nil => simp [put]
  | cons head rest ih =>
    obtain ⟨n, v⟩ := head
    simp only [put]
    split
    next h => subst h; simp
    next h => simp only [List.map_cons, List.mem_cons, ih]; grind

theorem nodup_put {name : String} {value : PropertyValue}
    {entries : List (String × PropertyValue)} (h : (entries.map (·.1)).Nodup) :
    ((put name value entries).map (·.1)).Nodup := by
  induction entries with
  | nil => simp [put]
  | cons head rest ih =>
    obtain ⟨n, v⟩ := head
    simp only [List.map_cons, List.nodup_cons] at h
    simp only [put]
    split
    · simpa using h
    next hne =>
      simp only [List.map_cons, List.nodup_cons, mem_names_put]
      exact ⟨fun hm => hm.elim hne h.1, ih h.2⟩

/-- Sets a property: in its place if it is there, else at the end. -/
def insert (p : Properties) (name : String) (value : PropertyValue) : Properties :=
  ⟨put name value p.entries, nodup_put p.nodup⟩

/-- The map that arises by setting the given properties one after the other. -/
def ofList (entries : List (String × PropertyValue)) : Properties :=
  entries.foldl (fun p (name, value) => p.insert name value) empty

theorem lookup_put (name other : String) (value : PropertyValue)
    (entries : List (String × PropertyValue)) :
    lookup other (put name value entries) =
      if name = other then some value else lookup other entries := by
  induction entries with
  | nil => simp [put, lookup]
  | cons head rest ih =>
    obtain ⟨n, v⟩ := head
    simp only [put]
    split
    next h => subst h; simp only [lookup]; grind
    next h => simp only [lookup, ih]; grind

@[simp] theorem get?_insert (p : Properties) (name other : String) (value : PropertyValue) :
    (p.insert name value).get? other = if name = other then some value else p.get? other :=
  lookup_put name other value p.entries

/-- Equality of maps: the same names, each with equal values, in any order. -/
def same (p q : Properties) : Bool :=
  p.size == q.size && p.entries.all fun (name, value) => (q.get? name).any value.same

/-- The map in JSON, in its order. -/
def toJson (p : Properties) : Json :=
  .object (p.entries.map fun (name, value) => (name, value.toJson))

end Properties

end DocTree
