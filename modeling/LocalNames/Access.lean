/-! The access of a method: which modifiers it carries. Of them naming looks at `static`, which
frees the receiver's slot, and at `abstract` and `native`, which leave the method without a
body. -/

namespace LocalNames

/-- The modifiers in the order of their bits. -/
inductive Modifier
  | pub
  | priv
  | prot
  | static
  | final
  | synchronized
  | bridge
  | varargs
  | native
  | abstract
  | strict
  | synthetic
  deriving DecidableEq

namespace Modifier

def all : List Modifier :=
  [pub, priv, prot, static, final, synchronized, bridge, varargs, native, abstract, strict,
    synthetic]

theorem mem_all (m : Modifier) : m ∈ all := by
  cases m <;> decide

def keyword : Modifier → String
  | pub => "public"
  | priv => "private"
  | prot => "protected"
  | static => "static"
  | final => "final"
  | synchronized => "synchronized"
  | bridge => "bridge"
  | varargs => "varargs"
  | native => "native"
  | abstract => "abstract"
  | strict => "strict"
  | synthetic => "synthetic"

/-- The bit of a modifier; the one between `native` and `abstract` is no modifier of a method. -/
def bit : Modifier → Nat
  | pub => 0
  | priv => 1
  | prot => 2
  | static => 3
  | final => 4
  | synchronized => 5
  | bridge => 6
  | varargs => 7
  | native => 8
  | abstract => 10
  | strict => 11
  | synthetic => 12

def ofKeyword? (word : String) : Option Modifier :=
  all.find? (·.keyword == word)

theorem ofKeyword?_keyword (m : Modifier) : ofKeyword? m.keyword = some m := by
  cases m <;> decide

theorem keyword_of_ofKeyword? {word : String} {m : Modifier} (h : ofKeyword? word = some m) :
    m.keyword = word := by
  simpa using List.find?_some h

theorem keyword_inj {m n : Modifier} : m.keyword = n.keyword ↔ m = n := by
  refine ⟨fun h => ?_, congrArg keyword⟩
  rw [← Option.some_inj, ← ofKeyword?_keyword m, ← ofKeyword?_keyword n, h]

end Modifier

/-- A set of modifiers. -/
structure Access where
  has : Modifier → Bool

namespace Access

@[ext]
theorem ext {a b : Access} (h : ∀ m, a.has m = b.has m) : a = b := by
  cases a; cases b; exact congrArg mk (funext h)

instance : DecidableEq Access := fun a b =>
  decidable_of_iff (∀ m ∈ Modifier.all, a.has m = b.has m)
    ⟨fun h => ext fun m => h m m.mem_all, fun h _ _ => h ▸ rfl⟩

def empty : Access := ⟨fun _ => false⟩

def insert (a : Access) (m : Modifier) : Access := ⟨fun n => n == m || a.has n⟩

/-- Bits that belong to no modifier are dropped. -/
def ofBits (bits : Nat) : Access := ⟨fun m => bits.testBit m.bit⟩

def modifiers (a : Access) : List Modifier := Modifier.all.filter a.has

theorem mem_modifiers {a : Access} {m : Modifier} : m ∈ a.modifiers ↔ a.has m = true := by
  simp [modifiers, m.mem_all]

def bits (a : Access) : Nat := a.modifiers.foldl (fun bits m => bits ||| 1 <<< m.bit) 0

/-- The keywords of the modifiers, in the order of their bits. -/
def text (a : Access) : String := " ".intercalate (a.modifiers.map (·.keyword))

def isStatic (a : Access) : Bool := a.has .static

/-- The parameters of a method without a body appear in its signature only. -/
def isBodiless (a : Access) : Bool := a.has .abstract || a.has .native

end Access

/-- What becomes of a parameter's own name when parameters are not renamed. -/
inductive ParameterHook
  | passthrough
  /-- The method has no body, so the name is open to another choice. -/
  | bodiless
  deriving DecidableEq

namespace ParameterHook

def ofAccess (a : Access) : ParameterHook :=
  if a.isBodiless then bodiless else passthrough

/-- The name of the parameter in `slot`; `choose` answers for methods without a body. -/
def keep (choose : String → UInt32 → String) (a : Access) (name : String) (slot : UInt32) :
    String :=
  match ofAccess a with
  | passthrough => name
  | bodiless => choose name slot

end ParameterHook

end LocalNames
