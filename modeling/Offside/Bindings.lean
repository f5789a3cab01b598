import Offside.Value.Basic

/-!
# Bindings

What names stand for: a finite map from names to items of one type. Scopes bind
names to values, and the function table binds them to functions. Each name has
at most one entry.
-/

namespace Offside

/-- A finite map from names to items, with one entry a name. -/
structure Bindings (α : Type) where
  entries : List (String × α) := []
  distinct : (entries.map Prod.fst).Nodup := by simp

namespace Bindings

variable {α : Type}

/-- The map that binds no name. -/
def empty : Bindings α := {}

instance : Inhabited (Bindings α) := ⟨empty⟩

/-- What a name stands for. -/
def get? (b : Bindings α) (name : String) : Option α :=
  b.entries.lookup name

/-- Whether a name is bound. -/
def contains (b : Bindings α) (name : String) : Bool :=
  (b.get? name).isSome

/-- How many names are bound. -/
def size (b : Bindings α) : Nat := b.entries.length

/-- Whether no name is bound. -/
def isEmpty (b : Bindings α) : Bool := b.entries.isEmpty

/-- The entries with a name bound anew: in its old place, or after the others. -/
def put (name : String) (item : α) : List (String × α) → List (String × α)
  | [] => [(name, item)]
  | (other, kept) :: rest =>
    if other = name then (name, item) :: rest else (other, kept) :: put name item rest

/-- Putting an item in adds its name and no other. -/
theorem mem_names_put {x name : String} {item : α} {entries : List (String × α)} :
    x ∈ (put name item entries).map Prod.fst ↔ x = name ∨ x ∈ entries.map Prod.fst := by
  induction entries with
  | nil => simp [put]
  | cons e rest ih =>
    obtain ⟨other, kept⟩ := e
    rw [put]
    split
    · subst_vars; simp
    · simp only [List.map_cons, List.mem_cons, ih]
      grind

/-- Putting an item in leaves every name bound once. -/
theorem nodup_names_put {name : String} {item : α} {entries : List (String × α)}
    (h : (entries.map Prod.fst).Nodup) : ((put name item entries).map Prod.fst).Nodup := by
  induction entries with
  | nil => simp [put]
  | cons e rest ih =>
    obtain ⟨other, kept⟩ := e
    rw [put]
    simp only [List.map_cons, List.nodup_cons] at h
    split
    · subst_vars; simpa using h
    · rename_i hne
      simp only [List.map_cons, List.nodup_cons]
      refine ⟨?_, ih h.2⟩
      rw [mem_names_put]
      rintro (rfl | hmem)
      · exact hne rfl
      · exact h.1 hmem

/-- The map with a name bound to an item, whatever it stood for before. -/
def insert (b : Bindings α) (name : String) (item : α) : Bindings α where
  entries := put name item b.entries
  distinct := nodup_names_put b.distinct

/-- The map with a bound name changed to an item; nothing if the name is not
bound. -/
def replace? (b : Bindings α) (name : String) (item : α) : Option (Bindings α) :=
  if b.contains name then some (b.insert name item) else none

theorem lookup_cons_eq {name other : String} {item : α} {entries : List (String × α)} :
    ((name, item) :: entries).lookup other =
      if other = name then some item else entries.lookup other := by
  rw [List.lookup_cons]
  by_cases h : other = name <;> grind

/-- Putting an item in changes what its name is bound to, and nothing else. -/
theorem lookup_put {name other : String} {item : α} {entries : List (String × α)} :
    (put name item entries).lookup other =
      if other = name then some item else entries.lookup other := by
  induction entries with
  | nil => rw [put, lookup_cons_eq]
  | cons e rest ih =>
    obtain ⟨key, kept⟩ := e
    rw [put]
    split
    · subst_vars
      simp only [lookup_cons_eq]
      split <;> rfl
    · simp only [lookup_cons_eq, ih]
      grind

/-- After binding a name it stands for the new item, and every other name for
what it stood for before. -/
theorem get?_insert (b : Bindings α) (name other : String) (item : α) :
    (b.insert name item).get? other = if other = name then some item else b.get? other :=
  lookup_put

/-- The bindings of a list of names and items, later ones first in force. -/
def ofList (items : List (String × α)) : Bindings α :=
  items.foldl (fun b (name, item) => b.insert name item) empty

end Bindings

/-- The values that names stand for, globally or within one call. -/
abbrev Scope := Bindings Value

/-- Whether two scopes bind the same names to the same values. -/
def Scope.same (a b : Scope) : Bool :=
  a.size == b.size &&
    a.entries.all fun (name, value) => (b.get? name).any (Value.same value)

end Offside
