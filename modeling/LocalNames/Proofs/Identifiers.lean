import LocalNames.Proofs.Intact
import LocalNames.Proofs.Names
import LocalNames.Proofs.Service
import LocalNames.Proofs.Unplaced

/-! Names are identifiers. Where all types are identifiers, or arrays of such, so is every name
that a namer gives, and it has no capitals: the candidates of every family are such names, a type
that may have no family is one in lowercase, and a number behind a name leaves it one. -/

namespace LocalNames

open Text (lowercase)

/-! ### Identifiers -/

namespace Text

/-- A letter, an underscore or a dollar sign. -/
def opensIdentifier (c : Char) : Bool :=
  c.isAlpha || c == '_' || c == '$'

/-- Behind its first character an identifier may have digits. -/
def continuesIdentifier (c : Char) : Bool :=
  opensIdentifier c || c.isDigit

end Text

/-- An identifier of ASCII characters. -/
structure IsIdentifier (s : String) : Prop where
  opens : s.toList.head?.any Text.opensIdentifier = true
  continues : ∀ c ∈ s.toList, Text.continuesIdentifier c = true

structure IsLowerIdentifier (s : String) : Prop extends IsIdentifier s where
  lower : ∀ c ∈ s.toList, c.isUpper = false

instance (s : String) : Decidable (IsIdentifier s) :=
  decidable_of_iff (s.toList.head?.any Text.opensIdentifier = true ∧
      s.toList.all Text.continuesIdentifier = true)
    ⟨fun ⟨h, h'⟩ => ⟨h, List.all_eq_true.mp h'⟩, fun ⟨h, h'⟩ => ⟨h, List.all_eq_true.mpr h'⟩⟩

instance (s : String) : Decidable (IsLowerIdentifier s) :=
  decidable_of_iff (IsIdentifier s ∧ s.toList.all (!·.isUpper) = true)
    ⟨fun ⟨h, h'⟩ => ⟨h, by simpa using h'⟩, fun ⟨h, h'⟩ => ⟨h, by simpa using h'⟩⟩

namespace Text

theorem continues_of_opens {c : Char} (h : opensIdentifier c = true) :
    continuesIdentifier c = true := by
  rw [continuesIdentifier, h, Bool.true_or]

theorem toNat_of_isUpper {c : Char} (h : c.isUpper = true) : 65 ≤ c.toNat ∧ c.toNat ≤ 90 :=
  (of_decide_eq_true h).imp UInt32.le_iff_toNat_le.mp UInt32.le_iff_toNat_le.mp

theorem toNat_of_isLower {c : Char} (h : c.isLower = true) : 97 ≤ c.toNat ∧ c.toNat ≤ 122 := by
  obtain ⟨ha, hz⟩ := Bool.and_eq_true_iff.mp h
  exact ⟨UInt32.le_iff_toNat_le.mp (of_decide_eq_true ha),
    UInt32.le_iff_toNat_le.mp (of_decide_eq_true hz)⟩

theorem toNat_of_isDigit {c : Char} (h : c.isDigit = true) : 48 ≤ c.toNat ∧ c.toNat ≤ 57 :=
  Char.isDigit_iff_toNat.mp h

theorem toNat_lt_of_continues {c : Char} (h : continuesIdentifier c = true) : c.toNat < 128 := by
  simp only [continuesIdentifier, opensIdentifier, Bool.or_eq_true, beq_iff_eq] at h
  rcases h with ((hletter | rfl) | rfl) | hdigit
  · rcases Bool.or_eq_true_iff.mp hletter with hupper | hlower
    · have := toNat_of_isUpper hupper
      omega
    · have := toNat_of_isLower hlower
      omega
  · decide
  · decide
  · have := toNat_of_isDigit hdigit
    omega

theorem lowercaseChar_ascii : (((List.range 128).map Char.ofNat).all fun c =>
    !continuesIdentifier c || (lowercaseChar c).all fun d =>
      continuesIdentifier d && !d.isUpper && (!opensIdentifier c || opensIdentifier d)) = true := by
  decide +kernel

theorem lowercaseChar_of_continues {c d : Char} (h : continuesIdentifier c = true)
    (hd : d ∈ lowercaseChar c) : continuesIdentifier d = true ∧ d.isUpper = false ∧
      (opensIdentifier c = true → opensIdentifier d = true) := by
  have hmem : c ∈ (List.range 128).map Char.ofNat :=
    List.mem_map.mpr ⟨c.toNat, List.mem_range.mpr (toNat_lt_of_continues h), Char.ofNat_toNat c⟩
  have hc := List.all_eq_true.mp lowercaseChar_ascii c hmem
  rw [h, Bool.not_true, Bool.false_or] at hc
  have hall := List.all_eq_true.mp hc d hd
  simp only [Bool.and_eq_true, Bool.not_eq_true', Bool.or_eq_true, and_assoc] at hall
  obtain ⟨hcontinues, hlower, hopens⟩ := hall
  exact ⟨hcontinues, hlower, fun ho => hopens.resolve_left (by simp [ho])⟩

theorem ne_sigma_of_continues {c : Char} (h : continuesIdentifier c = true) : c ≠ 'Σ' := by
  rintro rfl
  exact absurd h (by decide)

theorem lowercaseFrom_of_continues {letter : Bool} {cs : List Char}
    (h : ∀ c ∈ cs, continuesIdentifier c = true) :
    ∀ d ∈ lowercaseFrom letter cs, continuesIdentifier d = true ∧ d.isUpper = false := by
  induction cs generalizing letter with
  | nil => simp [lowercaseFrom]
  | cons c cs ih =>
    obtain ⟨hc, hcs⟩ := List.forall_mem_cons.mp h
    intro d hd
    simp only [lowercaseFrom, if_neg (ne_sigma_of_continues hc), List.mem_append] at hd
    rcases hd with hd | hd
    · obtain ⟨hcontinues, hlower, _⟩ := lowercaseChar_of_continues hc hd
      exact ⟨hcontinues, hlower⟩
    · exact ih hcs d hd

theorem opens_lowercaseFrom {letter : Bool} {cs : List Char}
    (h : cs.head?.any opensIdentifier = true) :
    (lowercaseFrom letter cs).head?.any opensIdentifier = true := by
  cases cs with
  | nil => cases h
  | cons c cs =>
    have hcontinues : continuesIdentifier c = true := continues_of_opens h
    obtain ⟨d, form, hform⟩ := List.exists_cons_of_ne_nil (lowercaseChar_ne_nil c)
    have hd : d ∈ lowercaseChar c := by simp [hform]
    simp only [lowercaseFrom, if_neg (ne_sigma_of_continues hcontinues), hform]
    exact (lowercaseChar_of_continues hcontinues hd).2.2 h

end Text

theorem IsIdentifier.lowercase {s : String} (h : IsIdentifier s) :
    IsLowerIdentifier (lowercase s) where
  opens := by
    rw [toList_lowercase]
    exact Text.opens_lowercaseFrom h.opens
  continues d hd := by
    rw [toList_lowercase] at hd
    exact (Text.lowercaseFrom_of_continues h.continues d hd).1
  lower d hd := by
    rw [toList_lowercase] at hd
    exact (Text.lowercaseFrom_of_continues h.continues d hd).2

theorem IsIdentifier.not_mem {s : String} (h : IsIdentifier s) {c : Char}
    (hc : Text.continuesIdentifier c = false) : c ∉ s.toList := by
  intro hm
  rw [h.continues c hm] at hc
  cases hc

/-- More characters without capitals may follow. -/
theorem IsLowerIdentifier.append {s t : String} (h : IsLowerIdentifier s)
    (ht : ∀ c ∈ t.toList, Text.continuesIdentifier c = true ∧ c.isUpper = false) :
    IsLowerIdentifier (s ++ t) where
  opens := by
    have hopens := h.opens
    rw [String.toList_append, List.head?_append]
    cases hs : s.toList.head? with
    | none =>
      rw [hs] at hopens
      cases hopens
    | some c =>
      rw [hs] at hopens
      exact hopens
  continues c hc := by
    rw [String.toList_append, List.mem_append] at hc
    exact hc.elim (h.continues c) fun hc => (ht c hc).1
  lower c hc := by
    rw [String.toList_append, List.mem_append] at hc
    exact hc.elim (h.lower c) fun hc => (ht c hc).2

/-! ### Types and families -/

/-- The key of a type is an identifier, or one before an array marker. -/
def TypeKey.IsPlain (key : TypeKey) : Prop :=
  IsIdentifier key.text ∨ ∃ element, IsIdentifier element ∧ key.text = element ++ "[]"

theorem TypeKey.IsPlain.isIdentifier {key : TypeKey} (h : key.IsPlain)
    (hbracket : '[' ∉ key.text.toList) : IsIdentifier key.text := by
  rcases h with h | ⟨element, _, htext⟩
  · exact h
  · exact absurd (by simp [htext]) hbracket

theorem IsIdentifier.baseOf {s : String} (h : IsIdentifier s) :
    IsLowerIdentifier (Shape.baseOf s) := by
  rw [Shape.baseOf_eq (h.not_mem (by decide))]
  exact h.lowercase

theorem IsIdentifier.ofText_array {element : String} (h : IsIdentifier element) :
    Shape.ofText (element ++ "[]") = .array element := by
  have hbracket : '[' ∉ element.toList := h.not_mem (by decide)
  have htake : (element ++ "[]").toList.takeWhile (· != '[') = element.toList := by
    rw [String.toList_append, List.takeWhile_append_of_pos]
    · simp
    · intro c hc
      rw [bne_iff_ne]
      rintro rfl
      exact hbracket hc
  rw [Shape.ofText, if_pos (by simp), htake, String.ofList_toList]

/-- A family is founded with an identifier. -/
theorem TypeKey.IsPlain.familyName? {key : TypeKey} (h : key.IsPlain) {name : String}
    (hname : key.shape.familyName? = some name) : IsLowerIdentifier name := by
  rcases h with h | ⟨element, h, htext⟩
  · have hbracket : '[' ∉ key.text.toList := h.not_mem (by decide)
    rw [TypeKey.shape, Shape.ofText, if_neg hbracket] at hname
    split_ifs at hname
    · obtain rfl : Shape.baseOf key.text = name := Option.some_inj.mp hname
      exact h.baseOf
    · cases hname
  · rw [TypeKey.shape, htext, h.ofText_array] at hname
    obtain rfl : "a" ++ Shape.baseOf element = name := Option.some_inj.mp hname
    have ha : IsLowerIdentifier "a" := by decide
    exact ha.append fun c hc => ⟨h.baseOf.continues c hc, h.baseOf.lower c hc⟩

theorem Text.continues_of_isDigit {c : Char} (h : c.isDigit = true) :
    continuesIdentifier c = true ∧ c.isUpper = false := by
  refine ⟨by rw [continuesIdentifier, h, Bool.or_true], ?_⟩
  rw [Bool.eq_false_iff]
  intro hupper
  have := toNat_of_isUpper hupper
  have := toNat_of_isDigit h
  omega

/-- A candidate that is an identifier stays one with a number behind it. -/
theorem Family.isLowerIdentifier_nameAt {f : Family}
    (h : ∀ c ∈ f.candidates, IsLowerIdentifier c) (i : Nat) : IsLowerIdentifier (f.nameAt i) := by
  refine (h _ (List.get_mem _ _)).append fun c hc => Text.continues_of_isDigit ?_
  rw [toList_numberAt] at hc
  cases hw : f.written? i with
  | none =>
    rw [hw] at hc
    cases hc
  | some n =>
    rw [hw] at hc
    exact Nat.isDigit_of_mem_toDigits (by decide) (by decide) hc

/-! ### Registries -/

/-- All candidates are identifiers, and only types that may have no family go without. -/
structure Registry.GivesIdentifiers (r : Registry) : Prop where
  intact : r.Intact
  candidates : ∀ (family : String) (f : Family), r.families[family]? = some f →
    ∀ c ∈ f.candidates, IsLowerIdentifier c

namespace Registry

theorem givesIdentifiers_builtin : builtin.GivesIdentifiers where
  intact := intact_builtin
  candidates key f hf := by
    have hall : ∀ p ∈ builtin.families.toList, ∀ c ∈ p.2.candidates, IsLowerIdentifier c := by
      decide +kernel
    exact hall (key, f) (Std.ExtTreeMap.mem_toList_iff_getElem?_eq_some.mpr hf)

variable {r : Registry} {key : TypeKey}

theorem GivesIdentifiers.nextName (h : r.GivesIdentifiers) (hkey : key.IsPlain) :
    (r.nextName key).2.GivesIdentifiers where
  intact := h.intact.nextName key
  candidates family g hg := by
    rcases families_of_nextName hg with ⟨f, hf, hfg⟩ | ⟨_, name, hname, hfg⟩
    · rw [hfg.candidates_eq]
      exact h.candidates family f hf
    · rw [hfg.candidates_eq]
      intro c hc
      obtain rfl := List.mem_singleton.mp hc
      exact hkey.familyName? hname.2

/-- A name is that of a family, or the type names the variable itself. -/
theorem GivesIdentifiers.isLowerIdentifier_nextName (h : r.GivesIdentifiers) (hkey : key.IsPlain) :
    IsLowerIdentifier (r.nextName key).1 := by
  cases hs : r.source? key with
  | some source =>
    obtain ⟨f, hf, _, hname, _⟩ := nextName_of_source? hs
    rw [← hname]
    exact Family.isLowerIdentifier_nameAt ((h.nextName hkey).candidates _ f hf) _
  | none =>
    have hbracket := (h.intact.primitive_of_source? hs).1
    rw [nextName_of_source?_eq_none hs]
    exact (hkey.isIdentifier hbracket).lowercase

end Registry

/-! ### Namers -/

/-- The names to come and those that are remembered are identifiers. -/
structure Namer.GivesIdentifiers (n : Namer) : Prop where
  registry : n.registry.GivesIdentifiers
  parameters : ∀ (slot : UInt32) (name : String), n.parameters[slot]? = some name →
    IsLowerIdentifier name

def VariableTypes.IsPlain (types : VariableTypes) : Prop :=
  ∀ (v : VarId) (type : String), types[v]? = some type → (TypeKey.ofType type).IsPlain

/-- All types of the request are plain. -/
def Request.IsPlain : Request → Prop
  | vars types => types.IsPlain
  | parameter _ type _ _ => (TypeKey.ofType type).IsPlain

namespace Namer

theorem givesIdentifiers_start (access : Access) (descriptor : String) (renames : Bool) :
    (start access descriptor renames).GivesIdentifiers where
  registry := Registry.givesIdentifiers_builtin
  parameters slot name h := by simp [start] at h

variable {n : Namer}

theorem GivesIdentifiers.ask (h : n.GivesIdentifiers) {a : Ask} (ha : a.key.IsPlain) :
    IsLowerIdentifier (n.ask a).1 ∧ (n.ask a).2.GivesIdentifiers := by
  have hdrawn := h.registry.isLowerIdentifier_nextName ha
  have hgiven : IsLowerIdentifier (n.ask a).1 := by
    cases hh : a.holder with
    | var call v =>
      rw [ask_of_var hh]
      exact hdrawn
    | parameter slot =>
      rw [ask_of_parameter hh, parameterName]
      split
      next name hname => exact h.parameters slot name hname
      next => exact hdrawn
  refine ⟨hgiven, ?_, fun slot name hname => ?_⟩
  · cases hd : n.draws a with
    | true =>
      rw [registry_ask_of_draws hd]
      exact h.registry.nextName ha
    | false =>
      rw [ask_of_not_draws hd]
      exact h.registry
  · rw [parameters_ask] at hname
    split_ifs at hname
    · exact Option.some_inj.mp hname ▸ hgiven
    · exact h.parameters slot name hname

theorem GivesIdentifiers.askAll (h : n.GivesIdentifiers) {asks : List Ask}
    (hasks : ∀ a ∈ asks, a.key.IsPlain) :
    (∀ name ∈ (n.askAll asks).1, IsLowerIdentifier name) ∧
      (n.askAll asks).2.GivesIdentifiers := by
  induction asks generalizing n with
  | nil => exact ⟨by simp [Namer.askAll], h⟩
  | cons a asks ih =>
    obtain ⟨ha, hasks⟩ := List.forall_mem_cons.mp hasks
    obtain ⟨hname, hnext⟩ := h.ask ha
    obtain ⟨hnames, hlast⟩ := ih hnext hasks
    exact ⟨List.forall_mem_cons.mpr ⟨hname, hnames⟩, hlast⟩

theorem isPlain_of_mem_variableAsks {slots call : Nat} {renames : Bool} {types : VariableTypes}
    (htypes : types.IsPlain) : ∀ a ∈ (variableAsks slots renames call types.toList).map (·.2), a.key.IsPlain := by
  intro a ha
  obtain ⟨⟨v, b⟩, hb, rfl⟩ := List.mem_map.mp ha
  obtain ⟨type, htype, hkey, _⟩ := mem_variableAsks hb
  rw [hkey]
  exact htypes v type (Std.ExtTreeMap.mem_toList_iff_getElem?_eq_some.mp htype)

theorem isPlain_of_mem_asksOf {q : Request} (hq : q.IsPlain) {call : Nat} :
    ∀ a ∈ n.asksOf call q, a.key.IsPlain := by
  cases q with
  | vars types =>
    rw [asksOf]
    split
    · exact isPlain_of_mem_variableAsks hq
    · exact List.forall_mem_nil _
  | parameter access type own slot =>
    rw [asksOf]
    split_ifs
    · exact List.forall_mem_singleton.mpr hq
    · exact List.forall_mem_nil _

theorem GivesIdentifiers.request (h : n.GivesIdentifiers) {q : Request} (hq : q.IsPlain) :
    (n.perform (.request q)).2.GivesIdentifiers := by
  rw [perform_request n 0]
  exact (h.askAll (isPlain_of_mem_asksOf hq)).2

theorem GivesIdentifiers.adopt (h : n.GivesIdentifiers) {p : Namer} (hp : p.GivesIdentifiers) :
    (n.perform (.adopt p)).2.GivesIdentifiers where
  registry := hp.registry
  parameters := h.parameters

theorem GivesIdentifiers.rename (h : n.GivesIdentifiers) {types : VariableTypes}
    (htypes : types.IsPlain) {names : List (VarId × String)} {next : Namer}
    (hrename : n.rename types = .ok (names, next)) :
    ∀ v name, (v, name) ∈ names → IsLowerIdentifier name := by
  intro v name hname
  cases hd : MethodDescriptor.read n.descriptor with
  | error e =>
    rw [Namer.rename, hd] at hrename
    cases hrename
  | ok d =>
    rw [rename_eq hd 0, Except.ok.injEq, Prod.mk.injEq] at hrename
    rw [← hrename.1] at hname
    exact (h.askAll (isPlain_of_mem_variableAsks htypes)).1 name (List.of_mem_zip hname).2

theorem GivesIdentifiers.renameParameter (h : n.GivesIdentifiers)
    (hrenames : n.renamesParameters = true) (access : Access) {type : String} (own : String)
    (slot : UInt32) (htype : (TypeKey.ofType type).IsPlain) :
    IsLowerIdentifier (n.renameParameter access type own slot).1 := by
  rw [Namer.renameParameter, if_pos hrenames]
  exact (h.ask (a := ⟨.parameter slot, .ofType type⟩) htype).1

end Namer

/-- Whatever namers are asked for and whichever of them go on after others, as long as all types
are identifiers or arrays of such, the names they give are identifiers without capitals. -/
theorem given_names_are_identifiers {moves : List Move}
    (hmoves : ∀ place q, Move.request place q ∈ moves → q.IsPlain) :
    ∀ n ∈ Move.applyAll moves,
      (∀ types : VariableTypes, types.IsPlain → ∀ names next,
        n.rename types = .ok (names, next) →
          ∀ v name, (v, name) ∈ names → IsLowerIdentifier name) ∧
      (n.renamesParameters = true → ∀ access type own slot, (TypeKey.ofType type).IsPlain →
        IsLowerIdentifier (n.renameParameter access type own slot).1) := by
  intro n hn
  have h : n.GivesIdentifiers := Move.forall_applyAll Namer.givesIdentifiers_start
    (fun _ _ hq h => h.request hq) (fun _ _ h hp => h.adopt hp) hmoves n hn
  exact ⟨fun types htypes names next => h.rename htypes,
    fun hrenames access type own slot => h.renameParameter hrenames access own slot⟩

/-- Arrays, nested and written as varargs, in two namers of which the second goes on after the
first. -/
theorem given_names_are_identifiers_after_adoption :
    let first : VariableTypes :=
      {(⟨1, 0⟩, "java.util.Map[][]"), (⟨2, 0⟩, "My$Type<K, V>"), (⟨3, 0⟩, "int")}
    let second : VariableTypes := {(⟨2, 0⟩, "Map..."), (⟨3, 0⟩, "long"), (⟨4, 0⟩, "_T0")}
    let moves := [Move.start .empty "()V" false, .start .empty "(J)V" true,
      .request 0 (.vars first), .adopt 1 0]
    ∃ n ∈ Move.applyAll moves, (n.renameParameter .empty "My$Type" "arg0" 1).1 = "my$type1" ∧
      IsLowerIdentifier "my$type1" ∧
      ∃ next, n.rename second = .ok
          ([(⟨2, 0⟩, "amap1"), (⟨3, 0⟩, "j"), (⟨4, 0⟩, "_t0")], next) ∧
        IsLowerIdentifier "amap1" := by
  intro first second moves
  have hplain : ∀ types ∈ [first, second], types.IsPlain := by
    have hkeys : ∀ types ∈ [first, second], ∀ p ∈ types.toList,
        IsIdentifier (TypeKey.ofType p.2).text ∨ ∃ element ∈ ["Map"], IsIdentifier element ∧
          (TypeKey.ofType p.2).text = element ++ "[]" := by
      decide +kernel
    intro types htypes v type htype
    have hmem := Std.ExtTreeMap.mem_toList_iff_getElem?_eq_some.mpr htype
    exact (hkeys types htypes (v, type) hmem).imp id fun ⟨element, _, h⟩ => ⟨element, h⟩
  have hmoves : ∀ place q, Move.request place q ∈ moves → q.IsPlain := by
    intro place q hq
    obtain ⟨rfl, rfl⟩ : place = 0 ∧ q = .vars first := by simpa [moves] using hq
    exact hplain first (by simp)
  have hcomputed : ∀ n ∈ (Move.applyAll moves)[1]?, n.renamesParameters = true ∧
      (n.renameParameter .empty "My$Type" "arg0" 1).1 = "my$type1" ∧
      (n.rename second).toOption.map (·.1) =
        some [(⟨2, 0⟩, "amap1"), (⟨3, 0⟩, "j"), (⟨4, 0⟩, "_t0")] := by
    decide +kernel
  obtain ⟨n, hn⟩ : ∃ n, (Move.applyAll moves)[1]? = some n :=
    Option.isSome_iff_exists.mp (by decide +kernel)
  obtain ⟨hrenames, hparameter, hnames⟩ := hcomputed n hn
  obtain ⟨⟨_, next⟩, hrename, rfl⟩ := Option.map_eq_some_iff.mp hnames
  have hok := Reader.toOption_eq_some_iff.mp hrename
  have hmem := List.mem_of_getElem? hn
  have hplainType : (TypeKey.ofType "My$Type").IsPlain := .inl (by decide +kernel)
  obtain ⟨hvars, hparameters⟩ := given_names_are_identifiers hmoves n hmem
  exact ⟨n, hmem, hparameter, hparameter ▸ hparameters hrenames .empty _ "arg0" 1 hplainType, next,
    hok, hvars second (hplain second (by simp)) _ next hok ⟨2, 0⟩ _ (by simp)⟩

end LocalNames
