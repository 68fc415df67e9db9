/-!
# Indexes

Values by name. The first value given for a name stays: later ones are
passed over.
-/

namespace ProcessCompiler

/-- Values by name, each name with one value. -/
structure Index (α : Type) where
  entries : List (String × α)

namespace Index

variable {α : Type}

/-- The index without names. -/
def empty : Index α := ⟨[]⟩

/-- The value of a name. -/
def get? (i : Index α) (name : String) : Option α := i.entries.lookup name

/-- The name has a value. -/
def contains (i : Index α) (name : String) : Bool := (i.get? name).isSome

/-- Give a name a value, unless it has one. -/
def insertNew (i : Index α) (name : String) (value : α) : Index α :=
  if i.contains name then i else ⟨(name, value) :: i.entries⟩

/-- The index of some names and values, the first value of a name winning. -/
def ofList (entries : List (String × α)) : Index α :=
  entries.foldl (fun i (name, value) => i.insertNew name value) empty

end Index

end ProcessCompiler
