import Std.Data.ExtTreeMap
import LocalNames.Family
import LocalNames.Shape

/-! The families of one scope. A type finds its family by its key, by the lowercase form of its
key, or through an alias, in this order; a class or an array that finds none gets a new one. -/

namespace LocalNames

structure Registry where
  families : Std.ExtTreeMap String Family
  /-- A type under its exact key, and the key of the family it joins. -/
  aliases : Std.ExtTreeMap String String
  deriving DecidableEq

namespace Registry

def empty : Registry where
  families := ∅
  aliases := ∅

/-- The families every method starts with. -/
def builtinFamilies : List (String × Family) :=
  [("int", ⟨0, true, "i", ["j", "k", "l"]⟩),
    ("byte", ⟨0, false, "b", []⟩),
    ("char", ⟨0, false, "c", []⟩),
    ("short", ⟨1, false, "short", []⟩),
    ("boolean", ⟨0, true, "flag", []⟩),
    ("double", ⟨0, false, "d", []⟩),
    ("float", ⟨0, true, "f", []⟩),
    ("File", ⟨1, true, "file", []⟩),
    ("String", ⟨0, true, "s", []⟩),
    ("Class", ⟨0, true, "oclass", []⟩),
    ("Long", ⟨0, true, "olong", []⟩),
    ("Byte", ⟨0, true, "obyte", []⟩),
    ("Short", ⟨0, true, "oshort", []⟩),
    ("Boolean", ⟨0, true, "obool", []⟩),
    ("Package", ⟨0, true, "opackage", []⟩),
    ("Enum", ⟨0, true, "oenum", []⟩)]

def builtin : Registry where
  families := .ofList builtinFamilies
  aliases := .ofList [("long", "int")]

def register (r : Registry) (key : String) (family : Family) : Registry :=
  { r with families := r.families.insert key family }

/-- Lets the type `source` join the family under `target`. -/
def addAlias (r : Registry) (source target : String) : Registry :=
  { r with aliases := r.aliases.insert source target }

@[simp]
theorem families_register (r : Registry) (key : String) (f : Family) :
    (r.register key f).families = r.families.insert key f := rfl

@[simp]
theorem aliases_register (r : Registry) (key : String) (f : Family) :
    (r.register key f).aliases = r.aliases := rfl

@[simp]
theorem families_addAlias (r : Registry) (source target : String) :
    (r.addAlias source target).families = r.families := rfl

@[simp]
theorem aliases_addAlias (r : Registry) (source target : String) :
    (r.addAlias source target).aliases = r.aliases.insert source target := rfl

/-! ### Families of types -/

/-- The key of the family a type already has. That of an alias may be missing. -/
def familyOf? (r : Registry) (key : TypeKey) : Option String :=
  if key.text ∈ r.families then some key.text
  else if Text.lowercase key.text ∈ r.families then some (Text.lowercase key.text)
  else r.aliases[key.text]?

/-- The key of a type's family, which is made if the type has none and may have one. -/
def resolve (r : Registry) (key : TypeKey) : Option String × Registry :=
  match r.familyOf? key with
  | some family => (some family, r)
  | none =>
    match key.shape.familyName? with
    | some name => (some (Text.lowercase key.text),
        r.register (Text.lowercase key.text) (.fresh name))
    | none => (none, r)

theorem resolve_of_familyOf? {r : Registry} {key : TypeKey} {family : String}
    (h : r.familyOf? key = some family) : r.resolve key = (some family, r) := by
  rw [resolve, h]

@[simp]
theorem aliases_resolve (r : Registry) (key : TypeKey) :
    (r.resolve key).2.aliases = r.aliases := by
  unfold resolve
  split
  · rfl
  · split <;> rfl

/-- The next name from the family under `family`, if there is one. -/
def draw? (r : Registry) (family : String) : Option (String × Registry) :=
  (r.families[family]?).map fun f => (f.peek, r.register family f.pass)

/-- The next name for a variable. A type without a family names its variables itself, all
alike. -/
def nextName (r : Registry) (key : TypeKey) : String × Registry :=
  let (family?, resolved) := r.resolve key
  (family?.bind resolved.draw?).getD (Text.lowercase key.text, resolved)

/-- Naming makes no aliases. -/
@[simp]
theorem aliases_nextName (r : Registry) (key : TypeKey) :
    (r.nextName key).2.aliases = r.aliases := by
  unfold nextName
  have ha := aliases_resolve r key
  generalize r.resolve key = p at ha
  obtain ⟨family?, s⟩ := p
  cases family? with
  | none => exact ha
  | some family => cases h : s.families[family]? <;> simpa [draw?, h] using ha

end Registry

end LocalNames
