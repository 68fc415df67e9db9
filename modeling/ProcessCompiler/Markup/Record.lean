import ProcessCompiler.Markup.Outlook
/-!
# Records

An element as a record: its attributes and child elements fill fields, and
what fills none is passed over. Elements of one full name make up a list,
wherever they stand among their siblings; text behind the first of them
counts as one more item. A child without a value takes its field and leaves
it empty.
-/

namespace ProcessCompiler

namespace Markup

/-- A field for one text. -/
structure Slot (σ : Type) where
  field : String
  taken : σ → Bool
  put : σ → String → σ

/-- An item of a list. -/
inductive Item where
  | text (s : String)
  | element (e : Element)

/-- What a child element is for. -/
inductive ChildRule (σ : Type) where
  /-- A field for its text. `clear` takes the field for a child without a
  value. -/
  | text (slot : Slot σ) (clear : σ → σ)
  /-- A field for the element itself. Without `clear` it always has a
  value. -/
  | element (field : String) (taken : σ → Bool) (put : σ → Element → Reading σ)
      (clear : Option (σ → σ))
  /-- A list that it begins. -/
  | list (field : String) (taken : σ → Bool) (push : σ → Item → Reading σ)

/-- How elements become records. -/
structure RecordRules (σ : Type) where
  /-- What an attribute is for, by its field. -/
  attributeSlot : String → Option (Slot σ)
  /-- What a child is for, by its name without its first qualifier. -/
  childRule : String → Option (ChildRule σ)

variable {σ : Type}

/-- Fill fields from attributes, up to the first that is faulty. -/
def readAttributes (rules : RecordRules σ) : σ → List Entry → Except MarkupError σ
  | record, [] => .ok record
  | _, .error f :: _ => .error (.tagged f)
  | record, .ok a :: rest =>
    match rules.attributeSlot a.field with
    | none => readAttributes rules record rest
    | some slot =>
      if slot.taken record then .error (.duplicateField slot.field)
      else
        match decode a.value with
        | .error f => .error (.entity f)
        | .ok value => readAttributes rules (slot.put record (String.ofList value)) rest

/-- Gather the items of a list from the rest of its owner's content, and give
back what is not among them. -/
def gather (owner name : List Char) (push : σ → Item → Reading σ) :
    σ → List Content → Reading (σ × List Content)
  | record, [] => return (record, [])
  | _, .broken fault :: _ => throw (breakError owner fault)
  | record, .doctype :: rest => gather owner name push record rest
  | record, .text run :: rest =>
    match runText true run with
    | none => gather owner name push record rest
    | some (.error e) => throw e
    | some (.ok s) => do
      let record ← push record (.text s)
      gather owner name push record rest
  | record, .element other tag children :: rest => do
    meet tag
    if other = name then
      let record ← push record (.element ⟨other, tag, children, Content.firstTag? rest⟩)
      gather owner name push record rest
    else
      (Content.surveyAll children).mapError (breakError owner)
      let (record, left) ← gather owner name push record rest
      return (record, .element other tag children :: left)

/-- Fill fields from content, of at most the given length. With `trimStart`
the blanks before the first text are dropped. -/
def readContent (rules : RecordRules σ) (owner : Element) :
    Nat → Bool → σ → List Content → Reading σ
  | 0, _, record, _ => return record
  | _ + 1, _, record, [] => return record
  | _ + 1, _, _, .broken fault :: _ => throw (breakError owner.name fault)
  | n + 1, _, record, .doctype :: rest => readContent rules owner n true record rest
  | n + 1, trimStart, record, .text run :: rest =>
    match runText trimStart run with
    | some (.error e) => throw e
    | _ => readContent rules owner n true record rest
  | n + 1, _, record, .element name tag children :: rest => do
    meet tag
    match rules.childRule (String.ofList (localName name)) with
    | none =>
      passOver name tag children
      readContent rules owner n (!Content.beginsWithText children) record rest
    | some (.text slot clear) =>
      if slot.taken record then throw (.duplicateField slot.field)
      if ← isVoid owner.tag tag children then
        passOver name tag children
        readContent rules owner n (!Content.beginsWithText children) (clear record) rest
      else
        let text ← textOf name children
        readContent rules owner n true (slot.put record text) rest
    | some (.element field taken put clear) =>
      if taken record then throw (.duplicateField field)
      match clear, ← isVoid owner.tag tag children with
      | some clear, true =>
        passOver name tag children
        readContent rules owner n (!Content.beginsWithText children) (clear record) rest
      | _, _ =>
        let record ← put record ⟨name, tag, children, Content.firstTag? rest⟩
        readContent rules owner n true record rest
    | some (.list field taken push) =>
      if taken record then throw (.duplicateField field)
      let (record, left) ←
        gather owner.name name push record (.element name tag children :: rest)
      modify (·.readAhead owner.following)
      readContent rules owner n true record left

/-- Fill the fields of a record from an element. -/
def readRecord (rules : RecordRules σ) (start : σ) (e : Element) : Reading σ :=
  inside e.tag do
    let record ← readAttributes rules start (Attribute.ofTag true e.tag)
    readContent rules e e.children.length true record e.children

/-- The first element of a text as a record of the given kind. -/
def readRoot (rules : RecordRules σ) (start : σ) (kind : String) : List Content → Reading σ
  | [] => throw .empty
  | .broken none :: _ => throw .empty
  | .broken (some e) :: _ => throw e
  | .doctype :: rest => readRoot rules start kind rest
  | .text run :: rest =>
    match runText true run with
    | none => readRoot rules start kind rest
    | some (.error e) => throw e
    | some (.ok s) => throw (.textForRecord s kind)
  | .element name tag children :: rest => do
    meet tag
    readRecord rules start ⟨name, tag, children, Content.firstTag? rest⟩

end Markup

end ProcessCompiler
