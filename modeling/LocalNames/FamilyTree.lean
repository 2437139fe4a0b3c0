import LocalNames.Registry

/-! A registry drawn as a tree: under its title the families with the names they give next, and
the aliases. -/

namespace LocalNames

/-- What a leaf shows of a family. -/
structure FamilyLeaf where
  key : String
  candidates : List String
  next : String
  /-- Whether the first round is numbered as well. -/
  numberedFromZero : Bool
  deriving DecidableEq

namespace FamilyLeaf

def ofFamily (key : String) (f : Family) : FamilyLeaf where
  key := key
  candidates := f.candidates
  next := f.peek
  numberedFromZero := !f.skipZero

def text (leaf : FamilyLeaf) : String :=
  leaf.key ++ " [" ++ " ".intercalate leaf.candidates ++ "] next " ++ leaf.next ++
    if leaf.numberedFromZero then " (numbered from 0)" else ""

end FamilyLeaf

structure FamilyTree where
  title : String
  families : List FamilyLeaf
  aliases : List (String × String)
  deriving DecidableEq

namespace FamilyTree

/-- Families and aliases stand in the order of their keys. -/
def ofRegistry (title : String) (r : Registry) : FamilyTree where
  title := title
  families := r.families.toList.map fun (key, f) => .ofFamily key f
  aliases := r.aliases.toList

/-- One line for each leaf of a branch that is drawn behind `indent`. -/
def drawLeaves (indent : String) : List String → List String
  | [] => []
  | [leaf] => [indent ++ "└─ " ++ leaf]
  | leaf :: rest => (indent ++ "├─ " ++ leaf) :: drawLeaves indent rest

def lines (t : FamilyTree) : List String :=
  [t.title, "├─ families"] ++ drawLeaves "│  " (t.families.map (·.text)) ++
    ["└─ aliases"] ++ drawLeaves "   " (t.aliases.map fun (source, target) =>
      source ++ " -> " ++ target)

def text (t : FamilyTree) : String :=
  String.join (t.lines.map (· ++ "\n"))

end FamilyTree

end LocalNames
