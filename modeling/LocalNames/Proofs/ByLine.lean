import LocalNames.Proofs.LineShapes
import LocalNames.Proofs.Reports

/-! Listings are read line by line. Each line is reported at most once, for its shape or for what
it says, and has its effect before the next line is looked at; the reports stand in the order of the
lines. -/

namespace LocalNames

/-! ### Reading -/

namespace Reader

/-- The reader after a line, and what is reported of the line. -/
def take (r : Reader) : LineShape → Reader × Option ListingError
  | .empty => (r, none)
  | .short keyword missing stop =>
    (if keyword = .method then ⟨r.methods, .rejected⟩ else r, some (.missingArgument missing stop))
  | .surplus extra => (r, some (.unexpectedInput extra))
  | .unknown first => (r, some (.unknownDirective first))
  | .whole d => r.step d

def takeAll (r : Reader) : List LineShape → Reader × List ListingError
  | [] => (r, [])
  | s :: ss =>
    let (next, error?) := r.take s
    let (last, errors) := next.takeAll ss
    (last, error?.toList ++ errors)

theorem takeAll_cons (r : Reader) (s : LineShape) (ss : List LineShape) : r.takeAll (s :: ss) =
    (((r.take s).1.takeAll ss).1, (r.take s).2.toList ++ ((r.take s).1.takeAll ss).2) :=
  rfl

theorem take_fst (r : Reader) (s : LineShape) : (r.take s).1 = (r.run s.directive?.toList).1 := by
  cases s with
  | short keyword _ _ => cases keyword <;> rfl
  | _ => rfl

theorem take_snd (r : Reader) (s : LineShape) :
    (r.take s).2.toList = s.fault?.toList ++ (r.run s.directive?.toList).2 := by
  cases s with
  | short keyword _ _ => cases keyword <;> rfl
  | whole d => exact (List.append_nil _).symm
  | _ => rfl

/-- Lines one by one, and shapes before directives, come to the same. -/
theorem takeAll_eq_run (r : Reader) (ss : List LineShape) :
    (r.takeAll ss).1 = (r.run (ss.filterMap (·.directive?))).1 ∧
      (ss.filterMap (·.fault?) ++ (r.run (ss.filterMap (·.directive?))).2).Perm
        (r.takeAll ss).2 := by
  induction ss generalizing r with
  | nil => exact ⟨rfl, .rfl⟩
  | cons s ss ih =>
    obtain ⟨hlast, herrors⟩ := ih (r.take s).1
    rw [takeAll_cons, filterMap_cons_eq, filterMap_cons_eq, run_append_fst, run_append_snd,
      ← take_fst, take_snd, List.append_assoc, List.append_assoc]
    exact ⟨hlast, .append_left _ <|
      (List.perm_append_comm_assoc _ _ _).trans (.append_left _ herrors)⟩

end Reader

/-- A listing by its lines. -/
def readByLine (source : String) : Except (List ListingError) (List Method) :=
  let (reader, errors) := Reader.start.takeAll (LineShape.ofSource source)
  if errors.isEmpty then .ok reader.methods else .error errors

/-! ### Places -/

/-- Where a fault of a directive can begin. -/
def Directive.starts : Directive → List Nat
  | method name descriptor flags => (name :: descriptor :: flags).map (·.span.start)
  | inherit head parent => [head.start, parent.span.start]
  | var head slot version _ => [head.start, slot.span.start, version.span.start]
  | param head slot _ _ => [head.start, slot.span.start]
  | unknown word => [word.span.start]
  | rejected _ => []

namespace LineShape

def starts : LineShape → List Nat
  | empty => []
  | short _ _ stop => [stop.start]
  | surplus word | unknown word => [word.span.start]
  | whole d => d.starts

/-- A fault begins with a word or where the line ends. -/
theorem start_of_ofWords {source : List Char} {stop : Span} {ws : List Word} {n : Nat}
    (h : n ∈ (ofWords source stop ws).starts) : n = stop.start ∨ ∃ w ∈ ws, n = w.span.start := by
  have hspelt := spelt_ofWords source stop ws
  generalize ofWords source stop ws = s at h hspelt
  cases hspelt with
  | empty => cases h
  | short _ _ => exact .inl (List.mem_singleton.mp h)
  | method _ =>
    obtain ⟨w, hw, rfl⟩ := List.mem_map.mp h
    exact .inr ⟨w, List.mem_cons_of_mem _ hw, rfl⟩
  | unknown _ | surplus _ | inherit _ | var _ | param _ =>
    simp only [starts, Directive.starts, List.mem_cons, List.not_mem_nil, or_false] at h
    simp only [List.mem_cons, exists_eq_or_imp]
    tauto

end LineShape

namespace Reader

theorem Fault.start_mem {before : List Directive} {d : Directive} {e : ListingError}
    (h : Fault before d e) : e.span.start ∈ d.starts := by
  cases h with
  | duplicateMethod _ => exact List.mem_cons_self
  | invalidDescriptor _ _ => exact List.mem_cons_of_mem _ List.mem_cons_self
  | unknownFlag _ _ hflag =>
    exact List.mem_cons_of_mem _ (List.mem_cons_of_mem _ (List.mem_map_of_mem hflag.mem.1))
  | @invalidNumber _ word hword =>
    have hmem := hword.mem.1
    cases d with
    | var _ _ _ _ | param _ _ _ _ =>
      exact List.mem_cons_of_mem _ (List.mem_map_of_mem (f := (·.span.start)) hmem)
    | _ => cases hmem
  | outsideMethod hm _ _ =>
    cases d with
    | inherit _ _ | var _ _ _ _ | param _ _ _ _ =>
      cases hm
      exact List.mem_cons_self
    | _ => cases hm
  | unknownParent _ _ | secondParent _ _ _ => exact List.mem_cons_of_mem _ List.mem_cons_self
  | duplicateVariable _ _ _ _ | unknown => exact List.mem_cons_self

variable {source : String} {before : List Directive}

theorem start_mem_of_take {s : LineShape} {e : ListingError}
    (h : ((behind before).take s).2 = some e) : e.span.start ∈ s.starts := by
  cases s with
  | empty => cases h
  | short _ _ _ | surplus _ | unknown _ =>
    cases h
    exact List.mem_singleton_self _
  | whole d => exact (report_iff.mp h).start_mem

/-- What is reported of a line begins within the line. -/
theorem place_of_take {l : SourceLine} (hl : l ∈ SourceLine.ofSource source) {e : ListingError}
    (h : ((behind before).take (.ofLine source.toList l)).2 = some e) :
    l.place ≤ e.span.start ∧ e.span.start ≤ l.stop.start := by
  obtain ⟨_, _, _, _, _, hstop⟩ := SourceLine.exists_of_mem hl
  rcases LineShape.start_of_ofWords (start_mem_of_take h) with he | ⟨w, hw, he⟩
  · omega
  · have := SourceLine.le_of_mem_words hl hw
    omega

theorem behind_take (s : LineShape) :
    ((behind before).take s).1 = behind (before ++ s.directive?.toList) := by
  rw [take_fst]
  exact (run_append_fst start before _).symm

/-- Every report is about one line, behind what the lines before it say. -/
theorem exists_of_mem_takeAll {ss : List LineShape} {e : ListingError}
    (h : e ∈ ((behind before).takeAll ss).2) :
    ∃ s ∈ ss, ∃ earlier, ((behind earlier).take s).2 = some e := by
  induction ss generalizing before with
  | nil => cases h
  | cons s ss ih =>
    rw [takeAll_cons, behind_take] at h
    rcases List.mem_append.mp h with h | h
    · exact ⟨s, List.mem_cons_self, before, Option.mem_toList.mp h⟩
    · obtain ⟨t, ht, he⟩ := ih h
      exact ⟨t, List.mem_cons_of_mem _ ht, he⟩

/-- Lines are reported in the order of their places. -/
theorem pairwise_takeAll {lines : List SourceLine}
    (hlines : ∀ l ∈ lines, l ∈ SourceLine.ofSource source)
    (hsorted : lines.Pairwise fun l k => l.stop.start < k.place) (before : List Directive) :
    (((behind before).takeAll (lines.map (.ofLine source.toList))).2).Pairwise
      fun e f => e.span.start < f.span.start := by
  induction lines generalizing before with
  | nil => exact .nil
  | cons l lines ih =>
    obtain ⟨hl, hlines⟩ := List.forall_mem_cons.mp hlines
    obtain ⟨hlater, hsorted⟩ := List.pairwise_cons.mp hsorted
    rw [List.map_cons, takeAll_cons, behind_take]
    refine List.pairwise_append.mpr ⟨?_, ih hlines hsorted _, fun e he f hf => ?_⟩
    · cases ((behind before).take (.ofLine source.toList l)).2 <;> simp
    · obtain ⟨_, hmem, _, htake⟩ := exists_of_mem_takeAll hf
      obtain ⟨k, hk, rfl⟩ := List.mem_map.mp hmem
      calc e.span.start ≤ l.stop.start := (place_of_take hl (Option.mem_toList.mp he)).2
        _ < k.place := hlater k hk
        _ ≤ f.span.start := (place_of_take (hlines k hk) htake).1

end Reader

/-- Sorting by places brings errors at different places into one order. -/
theorem mergeSort_eq_of_perm {es fs : List ListingError} (h : es.Perm fs)
    (hsorted : fs.Pairwise fun e f => e.span.start < f.span.start) :
    es.mergeSort (fun e f => e.span.start ≤ f.span.start) = fs := by
  have hperm := (es.mergeSort_perm fun e f => e.span.start ≤ f.span.start).trans h
  have hne : fs.Pairwise fun e f => e.span.start ≠ f.span.start := hsorted.imp Nat.ne_of_lt
  have hle : (es.mergeSort fun e f => e.span.start ≤ f.span.start).Pairwise
      fun e f => decide (e.span.start ≤ f.span.start) = true := List.pairwise_mergeSort
    (by simpa using fun _ _ _ => Nat.le_trans) (by simpa using fun _ _ => Nat.le_total _ _) es
  have hlt := (hle.and ((hperm.pairwise_iff Ne.symm).mpr hne)).imp fun ⟨hle, hne⟩ =>
    Nat.lt_of_le_of_ne (of_decide_eq_true hle) hne
  exact hperm.eq_of_pairwise (fun _ _ _ _ hef hfe => absurd hef (Nat.lt_asymm hfe)) hlt hsorted

/-- A listing is read line by line, and its errors are found in the order of their places. -/
theorem readListing_eq_readByLine (source : String) :
    readListing source = readByLine source ∧
      (Reader.start.takeAll (LineShape.ofSource source)).2.Pairwise
        fun e f => e.span.start < f.span.start := by
  obtain ⟨hreader, hperm⟩ := Reader.takeAll_eq_run .start (LineShape.ofSource source)
  have hsorted : (Reader.start.takeAll (LineShape.ofSource source)).2.Pairwise
      fun e f => e.span.start < f.span.start :=
    Reader.pairwise_takeAll (fun _ hl => hl) (SourceLine.pairwise_ofSource source) []
  refine ⟨?_, hsorted⟩
  unfold readListing readByLine
  rw [directivesOf_eq]
  dsimp only
  rw [hperm.isEmpty_eq, hreader, mergeSort_eq_of_perm hperm hsorted]

end LocalNames
