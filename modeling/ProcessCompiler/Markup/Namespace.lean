import ProcessCompiler.Markup.Attribute
/-!
# Namespaces

An attribute `xmlns:q="…"` lets the qualifier `q` stand for a namespace
inside its element. The attribute `nil` of one namespace says that an element
has no value.
-/

namespace ProcessCompiler

namespace Markup

/-- The namespace of the attribute that says that an element has no value. -/
def instanceSpace : String := "http://www.w3.org/2001/XMLSchema-instance"

/-- The qualifier that an attribute with the given key binds. -/
def boundQualifier? (key : List Char) : Option (List Char) :=
  match qualified? key with
  | some (['x', 'm', 'l', 'n', 's'], qualifier) => some qualifier
  | _ => none

/-- A qualifier and the namespace it stands for, inside some elements. -/
structure Binding where
  qualifier : List Char
  space : List Char
  /-- How many elements are open where it holds. -/
  level : Nat
deriving DecidableEq, Repr

/-- What an attribute lets a qualifier stand for, if anything. -/
def bindingOf (a : Attribute) : Except BindingFault (Option (List Char × List Char)) :=
  match boundQualifier? a.key with
  | none => .ok none
  | some qualifier =>
    let space := String.ofList a.value
    if qualifier = "xml".toList then
      if space = xmlSpace then .ok none else .error (.xml space)
    else if qualifier = "xmlns".toList then .error (.xmlns space)
    else if space = xmlSpace then .error (.xmlSpace (String.ofList qualifier))
    else if space = xmlnsSpace then .error (.xmlnsSpace (String.ofList qualifier))
    else if qualifier.isEmpty then .ok none
    else .ok (some (qualifier, a.value))

/-- What some attributes let qualifiers stand for, up to the first that is
faulty. -/
def bindingsOf : List Entry → List (List Char × List Char) × Option BindingFault
  | .ok a :: rest =>
    match bindingOf a with
    | .error f => ([], some f)
    | .ok b =>
      let (bindings, fault) := bindingsOf rest
      (b.toList ++ bindings, fault)
  | _ => ([], none)

/-- What is wrong with the bindings of a tag. -/
def bindingFault? (tag : List Char) : Option BindingFault :=
  (bindingsOf (Attribute.ofTag false tag)).2

/-- The bindings in force, the innermost first. -/
structure Scope where
  /-- How many elements are open. -/
  level : Nat
  bindings : List Binding
deriving DecidableEq, Repr

namespace Scope

/-- No element is open. -/
def outermost : Scope := ⟨0, []⟩

/-- Inside an element with the given tag. -/
def enter (s : Scope) (tag : List Char) : Scope :=
  let (bindings, _) := bindingsOf (Attribute.ofTag false tag)
  ⟨s.level + 1, (bindings.map fun (q, space) => ⟨q, space, s.level + 1⟩).reverse ++ s.bindings⟩

/-- Inside an element, if there is one. -/
def enterAny (s : Scope) (tag? : Option (List Char)) : Scope := tag?.elim s s.enter

/-- Behind the innermost element. -/
def leave (s : Scope) : Scope :=
  ⟨s.level - 1, s.bindings.filter (·.level ≤ s.level - 1)⟩

/-- The namespace that a qualifier stands for. -/
def resolve? (s : Scope) (qualifier : List Char) : Option (List Char) :=
  (s.bindings.find? (·.qualifier = qualifier)).bind fun b =>
    if b.space.isEmpty then none else some b.space

/-- The attribute says that its element has no value. -/
def isVoidMark (s : Scope) (a : Attribute) : Bool :=
  match qualified? a.key with
  | some (qualifier, ['n', 'i', 'l']) =>
    s.resolve? qualifier = some instanceSpace.toList &&
      (a.value = "true".toList || a.value = "1".toList)
  | _ => false

/-- An attribute of the tag says that the element has no value. Faulty
attributes are passed over. -/
def marksVoid (s : Scope) (tag : List Char) : Bool :=
  (Attribute.ofTag true tag).any fun
    | .ok a => s.isVoidMark a
    | .error _ => false

end Scope

end Markup

end ProcessCompiler
