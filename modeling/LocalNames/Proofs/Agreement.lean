import LocalNames.CommandLine
import LocalNames.Proofs.Inheritance
import LocalNames.Proofs.Warnings
import LocalNames.Proofs.WellFormed

/-! What is read can be named. The reader has seen every descriptor and every parent before naming
comes to them, so that naming a listing that has been read never fails and finds all parents; and
the command line succeeds on a file exactly when the file is a listing. -/

namespace LocalNames

/-! ### Naming that fails -/

theorem Method.rename_eq_error_iff {m : Method} {renames : Bool} {earlier : List RenamedMethod}
    {e : DescriptorError} :
    m.rename renames earlier = .error e ↔ MethodDescriptor.read m.descriptor = .error e := by
  cases hd : MethodDescriptor.read m.descriptor with
  | ok d =>
    obtain ⟨out, hout, _⟩ := rename_replays hd renames earlier
    simp [hout]
  | error e' =>
    obtain ⟨_, hset⟩ := m.namer_follows renames earlier
    have hdescriptor : (m.namer renames earlier).descriptor = m.descriptor :=
      (Namer.settings_eq_iff.mp hset).2.1
    have herror : m.rename renames earlier = .error e' := by
      simp only [rename, Namer.rename, hdescriptor, hd, Except.map]
      rfl
    rw [herror, Except.error.injEq, Except.error.injEq]

theorem Method.name_of_rename {m : Method} {renames : Bool} {earlier : List RenamedMethod}
    {out : RenamedMethod} (h : m.rename renames earlier = .ok out) : out.name = m.name := by
  cases hd : MethodDescriptor.read m.descriptor with
  | ok d =>
    obtain ⟨out', hout', hreplays⟩ := rename_replays hd renames earlier
    rw [h, Except.ok.injEq] at hout'
    rw [hout', hreplays.name]
  | error e =>
    rw [rename_eq_error_iff.mpr hd] at h
    cases h

section

variable {renames : Bool} {earlier : List RenamedMethod} {m : Method} {ms : List Method}

theorem renameFrom_cons_of_error {e : DescriptorError} (h : m.rename renames earlier = .error e) :
    renameFrom renames earlier (m :: ms) = .error e := by
  rw [renameFrom, h]
  rfl

theorem renameFrom_cons_of_ok {out : RenamedMethod} (h : m.rename renames earlier = .ok out) :
    renameFrom renames earlier (m :: ms) =
      (renameFrom renames (out :: earlier) ms).map (out :: ·) := by
  rw [renameFrom, h]
  show (renameFrom renames (out :: earlier) ms >>= fun later => .ok (out :: later)) = _
  cases renameFrom renames (out :: earlier) ms <;> rfl

/-- An element of a list, with those before it: the head, before which nothing stands, or one behind
the head. -/
theorem exists_append_cons_iff {α : Type} {a : α} {as : List α} {P : List α → α → Prop} :
    (∃ before b after, a :: as = before ++ b :: after ∧ P before b) ↔
      P [] a ∨ ∃ before b after, as = before ++ b :: after ∧ P (a :: before) b := by
  constructor
  · rintro ⟨_ | ⟨c, before⟩, b, after, he, hb⟩
    · obtain ⟨rfl, rfl⟩ := List.cons.inj he
      exact .inl hb
    · obtain ⟨rfl, rfl⟩ := List.cons.inj he
      exact .inr ⟨before, b, after, rfl, hb⟩
  · rintro (ha | ⟨before, b, after, rfl, hb⟩)
    · exact ⟨[], a, as, rfl, ha⟩
    · exact ⟨a :: before, b, after, rfl, hb⟩

theorem renameFrom_eq_error_iff {e : DescriptorError} :
    renameFrom renames earlier ms = .error e ↔
      ∃ before m after, ms = before ++ m :: after ∧
        (∀ n ∈ before, ∃ d, MethodDescriptor.read n.descriptor = .ok d) ∧
        MethodDescriptor.read m.descriptor = .error e := by
  induction ms generalizing earlier with
  | nil => simp [renameFrom]
  | cons m ms ih =>
    rw [exists_append_cons_iff]
    cases hd : MethodDescriptor.read m.descriptor with
    | error e' =>
      rw [renameFrom_cons_of_error (Method.rename_eq_error_iff.mpr hd)]
      simp [hd]
    | ok d =>
      obtain ⟨out, hout, _⟩ := Method.rename_replays hd renames earlier
      rw [renameFrom_cons_of_ok hout, Reader.map_eq_error_iff, ih]
      simp [hd]

/-! ### Warnings -/

theorem logFrom_cons_of_error {e : DescriptorError} (h : m.rename renames earlier = .error e) :
    logFrom renames earlier (m :: ms) = m.log renames earlier := by
  rw [logFrom, h]
  exact List.append_nil _

theorem logFrom_cons_of_ok {out : RenamedMethod} (h : m.rename renames earlier = .ok out) :
    logFrom renames earlier (m :: ms) =
      m.log renames earlier ++ logFrom renames (out :: earlier) ms := by
  rw [logFrom, h]

/-- Naming warns of a method whose parent has not been named, when it gets that far. -/
theorem warn_mem_logFrom_iff {e : LogEvent} :
    e ∈ logFrom renames earlier ms ∧ e.level = .warn ↔
      ∃ before m after, ms = before ++ m :: after ∧
        (∀ n ∈ before, ∃ d, MethodDescriptor.read n.descriptor = .ok d) ∧
        ∃ parent, m.parent = some parent ∧ parent ∉ earlier.map (·.name) ∧
          parent ∉ before.map (·.name) ∧ e = .unknownParent m.name parent := by
  induction ms generalizing earlier with
  | nil => simp [logFrom]
  | cons m ms ih =>
    rw [exists_append_cons_iff]
    cases hd : MethodDescriptor.read m.descriptor with
    | error e' =>
      rw [logFrom_cons_of_error (Method.rename_eq_error_iff.mpr hd), Method.warn_mem_log_iff]
      simp [hd]
    | ok d =>
      obtain ⟨out, hout, _⟩ := Method.rename_replays hd renames earlier
      rw [logFrom_cons_of_ok hout, List.mem_append, or_and_right, Method.warn_mem_log_iff, ih,
        List.map_cons, Method.name_of_rename hout]
      simp [hd, and_assoc, and_left_comm]

/-! ### Naming that succeeds -/

/-- Each method of a listing is named behind those that come before it. -/
theorem rename_of_renameFrom {past later : List RenamedMethod}
    (h : renameFrom renames past.reverse ms = .ok later) :
    later.length = ms.length ∧ ∀ (i : Nat) (m : Method), ms[i]? = some m →
      ∃ out, later[i]? = some out ∧ m.rename renames (past ++ later.take i).reverse = .ok out := by
  induction ms generalizing past later with
  | nil =>
    cases h
    exact ⟨rfl, by simp⟩
  | cons m ms ih =>
    cases hout : m.rename renames past.reverse with
    | error e => rw [renameFrom_cons_of_error hout] at h; cases h
    | ok out =>
      rw [renameFrom_cons_of_ok hout] at h
      obtain ⟨rest, hrest, rfl⟩ : ∃ rest,
          renameFrom renames (out :: past.reverse) ms = .ok rest ∧ out :: rest = later := by
        cases hr : renameFrom renames (out :: past.reverse) ms with
        | error e => rw [hr] at h; cases h
        | ok rest => rw [hr] at h; exact ⟨rest, rfl, Except.ok.inj h⟩
      have hpast : out :: past.reverse = (past ++ [out]).reverse := by simp
      obtain ⟨hlen, hall⟩ := ih (hpast ▸ hrest)
      refine ⟨by rw [List.length_cons, List.length_cons, hlen], ?_⟩
      rintro (_ | i) m' hm'
      · obtain rfl : m = m' := Option.some_inj.mp hm'
        exact ⟨out, rfl, by simpa using hout⟩
      · obtain ⟨out', hout', hrename⟩ := hall i m' hm'
        exact ⟨out', hout', by simpa using hrename⟩

end

/-- The outcome of a method that is named behind `past` ones, among which its parent is. -/
structure Method.NamedBehind (m : Method) (renames : Bool) (past : List RenamedMethod)
    (out : RenamedMethod) : Prop where
  name : out.name = m.name
  outcome : m.rename renames past.reverse = .ok out
  parent : ∀ parent ∈ m.parent, ∃ p ∈ past, p.name = parent ∧
    m.namer renames past.reverse =
      (Namer.start m.access m.descriptor renames).adopt p.registry

/-- A parent that has been named is the one that its child goes on after. -/
theorem Method.namer_of_parent {m : Method} {parent : String} (hm : m.parent = some parent)
    {past : List RenamedMethod} (h : parent ∈ past.map (·.name)) (renames : Bool) :
    ∃ p ∈ past, p.name = parent ∧ m.namer renames past.reverse =
      (Namer.start m.access m.descriptor renames).adopt p.registry := by
  obtain ⟨q, hq, hname⟩ := List.mem_map.mp h
  obtain ⟨p, hp⟩ : ∃ p, past.reverse.find? (·.name == parent) = some p := by
    rw [← Option.isSome_iff_exists, List.find?_isSome]
    exact ⟨q, List.mem_reverse.mpr hq, by simpa using hname⟩
  refine ⟨p, List.mem_reverse.mp (List.mem_of_find?_eq_some hp), ?_, ?_⟩
  · simpa using List.find?_some hp
  · simp only [namer, hm, Option.bind_some, hp]

theorem WellFormed.renameListing {ms : List Method} (h : WellFormed ms) (renames : Bool) :
    ∃ outs, LocalNames.renameListing renames ms = .ok outs ∧ outs.length = ms.length ∧
      ∀ (i : Nat) (m : Method), ms[i]? = some m →
        ∃ out, outs[i]? = some out ∧ m.NamedBehind renames (outs.take i) out := by
  obtain ⟨outs, hok⟩ : ∃ outs, LocalNames.renameListing renames ms = .ok outs := by
    cases hok : LocalNames.renameListing renames ms with
    | ok outs => exact ⟨outs, rfl⟩
    | error e =>
      obtain ⟨_, m, _, rfl, _, hm⟩ := renameFrom_eq_error_iff.mp hok
      obtain ⟨d, hd⟩ := (h.each m (by simp)).readable
      rw [hd] at hm
      cases hm
  have hstart : renameFrom renames ([] : List RenamedMethod).reverse ms = .ok outs := hok
  obtain ⟨hlen, hall⟩ := rename_of_renameFrom hstart
  have hnames : outs.map (·.name) = ms.map (·.name) := by
    refine List.ext_getElem (by simpa using hlen) fun i hi hi' => ?_
    rw [List.length_map] at hi hi'
    obtain ⟨out, hout, hrename⟩ := hall i _ (List.getElem?_eq_getElem hi')
    rw [List.getElem?_eq_getElem hi, Option.some_inj] at hout
    rw [List.getElem_map, List.getElem_map, hout, Method.name_of_rename hrename]
  refine ⟨outs, hok, hlen, fun i m hm => ?_⟩
  obtain ⟨out, hout, hrename⟩ := hall i m hm
  rw [List.nil_append] at hrename
  refine ⟨out, hout, Method.name_of_rename hrename, hrename, fun parent hparent => ?_⟩
  -- The reader has seen the parent before, and the methods before have been named by now.
  obtain ⟨hi, hget⟩ := List.getElem?_eq_some_iff.mp hm
  have hsplit : ms = ms.take i ++ m :: ms.drop (i + 1) := by
    rw [← hget, List.getElem_cons_drop, List.take_append_drop]
  obtain ⟨n, hn, hnname⟩ := h.parents _ m _ hsplit parent hparent
  refine Method.namer_of_parent hparent ?_ renames
  rw [List.map_take, hnames, ← List.map_take]
  exact List.mem_map.mpr ⟨n, hn, hnname⟩

/-- A listing that has been read is named without a warning. -/
theorem WellFormed.level_ne_warn {ms : List Method} (h : WellFormed ms) (renames : Bool) :
    ∀ e ∈ listingLog renames ms, e.level ≠ .warn := by
  refine List.forall_mem_cons.mpr ⟨nofun, fun e he hlevel => ?_⟩
  obtain ⟨before, m, after, hms, _, parent, hparent, _, hnot, _⟩ :=
    warn_mem_logFrom_iff.mp ⟨he, hlevel⟩
  obtain ⟨n, hn, hname⟩ := h.parents before m after hms parent hparent
  exact hnot (List.mem_map.mpr ⟨n, hn, hname⟩)

/-! ### The command line -/

theorem fromUTF8?_eq_some_iff {bytes : ByteArray} {source : String} :
    String.fromUTF8? bytes = some source ↔ source.toByteArray = bytes := by
  unfold String.fromUTF8?
  split
  next h =>
    rw [Option.some_inj]
    exact ⟨fun he => he ▸ rfl, fun he => String.toByteArray_inj.mp he.symm⟩
  next h => exact iff_of_false (by simp) fun he => h (he ▸ source.isValidUTF8)

namespace CommandLine

/-- The outcome when the contents of files are given by `content`. -/
def outcomeOf (logger : Logger) (arguments : List String) (content : String → Option ByteArray) :
    Outcome :=
  (requestOf arguments).outcomeWith (m := Id) logger content

/-- An outcome that is no failure, or one that writes nothing to standard output. -/
def Outcome.Clean (o : Outcome) : Prop := o.exitCode ≠ 0 → o.output = ""

theorem Outcome.clean_success (output : String) : (success output).Clean :=
  fun h => absurd rfl h

theorem Outcome.clean_failure (exitCode : Nat) (complaints : List String) :
    (failure exitCode complaints).Clean :=
  fun _ => rfl

variable {logger : Logger} {mode : Mode} {renames : Bool}

/-- A listing that has been read is named, and the texts stand behind the log. -/
theorem runSource_of_ok (logger : Logger) (mode : Mode) (renames : Bool) {source : String}
    {methods : List Method} (h : readListing source = .ok methods) :
    ∃ outs, renameListing renames methods = .ok outs ∧
      runSource logger mode renames source =
        (Outcome.success (String.join (outs.map mode.write))).behind
          (logger.write (listingLog renames methods)) := by
  obtain ⟨outs, hok, _⟩ := (wellFormed_of_readListing h).renameListing renames
  refine ⟨outs, hok, ?_⟩
  rw [runSource, h]
  simp only [runMethods, hok]

theorem clean_runSource (source : String) : (runSource logger mode renames source).Clean := by
  cases hread : readListing source with
  | error errors =>
    rw [runSource, hread]
    exact Outcome.clean_failure _ _
  | ok methods =>
    obtain ⟨outs, _, hrun⟩ := runSource_of_ok logger mode renames hread
    rw [hrun]
    exact fun h => absurd rfl h

theorem clean_runContent (file : String) (content : Option ByteArray) :
    (runContent logger mode renames file content).Clean := by
  unfold runContent
  cases content with
  | none => exact Outcome.clean_failure _ _
  | some bytes =>
    dsimp only
    cases String.fromUTF8? bytes with
    | none => exact Outcome.clean_failure _ _
    | some source => exact clean_runSource source

/-- Whatever fails writes nothing to standard output. -/
theorem clean_outcomeOf (logger : Logger) (arguments : List String)
    (content : String → Option ByteArray) : (outcomeOf logger arguments content).Clean := by
  unfold outcomeOf Request.outcomeWith
  cases requestOf arguments with
  | run mode renames file => exact clean_runContent file (content file)
  | help => exact Outcome.clean_success _
  | version => exact Outcome.clean_success _
  | misuse => exact Outcome.clean_failure _ _

/-- A file is named when its content is the text of a listing, and only then. -/
theorem exitCode_runContent_iff {file : String} {bytes : ByteArray} :
    (runContent logger mode renames file (some bytes)).exitCode = 0 ↔
      ∃ source methods, source.toByteArray = bytes ∧ readListing source = .ok methods := by
  cases hs : String.fromUTF8? bytes with
  | none =>
    refine iff_of_false (by simp [runContent, hs, Outcome.failure]) ?_
    rintro ⟨source, methods, hsource, _⟩
    rw [fromUTF8?_eq_some_iff.mpr hsource] at hs
    cases hs
  | some source =>
    simp only [runContent, hs]
    have hsource := fromUTF8?_eq_some_iff.mp hs
    cases hr : readListing source with
    | ok methods =>
      obtain ⟨outs, _, hrun⟩ := runSource_of_ok logger mode renames hr
      rw [hrun]
      exact iff_of_true rfl ⟨source, methods, hsource, hr⟩
    | error errors =>
      refine iff_of_false (by simp [runSource, hr, Outcome.failure]) ?_
      rintro ⟨source', methods, hsource', hr'⟩
      obtain rfl := String.toByteArray_inj.mp (hsource'.trans hsource.symm)
      rw [hr] at hr'
      cases hr'

/-- Reader, namer and command line agree on what is valid. Naming fails for the first descriptor
that cannot be read, and for nothing else; what has been read is named method by method, each of
them behind its parent, and no parent is unknown; so a file is named exactly when its content is a
listing, the names are all of standard output where nothing below a warning is logged, and whatever
fails leaves standard output empty. -/
theorem reading_decides :
    (∀ renames methods e, renameListing renames methods = .error e ↔
      ∃ before m after, methods = before ++ m :: after ∧
        (∀ n ∈ before, ∃ d, MethodDescriptor.read n.descriptor = .ok d) ∧
        MethodDescriptor.read m.descriptor = .error e) ∧
    (∀ source methods, readListing source = .ok methods → ∀ renames,
      ∃ outs, renameListing renames methods = .ok outs ∧ outs.length = methods.length ∧
        ∀ (i : Nat) (m : Method), methods[i]? = some m →
          ∃ out, outs[i]? = some out ∧ m.NamedBehind renames (outs.take i) out) ∧
    (∀ source methods, readListing source = .ok methods → ∀ renames method parent,
      .unknownParent method parent ∉ listingLog renames methods) ∧
    (∀ logger arguments content mode renames file bytes,
      requestOf arguments = .run mode renames file → content file = some bytes →
        ((outcomeOf logger arguments content).exitCode = 0 ↔
          ∃ source methods, source.toByteArray = bytes ∧ readListing source = .ok methods) ∧
        ∀ source methods outs, source.toByteArray = bytes → readListing source = .ok methods →
          renameListing renames methods = .ok outs → mode = .names → logger.QuietBelowWarn →
            (outcomeOf logger arguments content).output = String.join (outs.map (·.text))) ∧
    ∀ logger arguments content, (outcomeOf logger arguments content).exitCode ≠ 0 →
      (outcomeOf logger arguments content).output = "" := by
  refine ⟨fun _ _ _ => renameFrom_eq_error_iff,
    fun _ _ h => (wellFormed_of_readListing h).renameListing, ?_, ?_, clean_outcomeOf⟩
  · intro source methods hread renames method parent hmem
    exact (wellFormed_of_readListing hread).level_ne_warn renames _ hmem rfl
  intro logger arguments content mode renames file bytes hrequest hcontent
  have houtcome : outcomeOf logger arguments content =
      runContent logger mode renames file (some bytes) := by
    rw [outcomeOf, hrequest, ← hcontent]
    rfl
  rw [houtcome]
  refine ⟨exitCode_runContent_iff, ?_⟩
  rintro source methods outs hsource hread hok rfl hquiet
  obtain ⟨outs', hok', hrun⟩ := runSource_of_ok logger .names renames hread
  obtain rfl : outs = outs' := Except.ok.inj (hok.symm.trans hok')
  have hlog : logger.write (listingLog renames methods) = "" :=
    hquiet.write_eq_empty ((wellFormed_of_readListing hread).level_ne_warn renames)
  simp only [runContent, fromUTF8?_eq_some_iff.mpr hsource, hrun, hlog, Outcome.output_behind,
    String.empty_append]
  rfl

/-- The second method goes on after the first one, and the logger takes warnings alone. The same
file is not looked at when its name is given twice. -/
theorem reading_decides_of_parent :
    let source :=
      "method outer ()V static\nvar 0 0 int\nmethod inner ()V static\ninherit outer\nvar 0 0 int\n"
    let content := fun file => if file = "methods" then some source.toByteArray else none
    requestOf ["-p", "methods"] = .run .names true "methods" ∧
      (∃ methods outs, readListing source = .ok methods ∧
        renameListing true methods = .ok outs ∧
        .unknownParent "inner" "outer" ∉ listingLog true methods ∧
        Logger.warnings.QuietBelowWarn ∧
        (outcomeOf .warnings ["-p", "methods"] content).exitCode = 0 ∧
        (outcomeOf .warnings ["-p", "methods"] content).output =
          String.join (outs.map (·.text))) ∧
      (outcomeOf .warnings ["methods", "methods"] content).output = "" := by
  intro source content
  obtain ⟨_, hnamed, hknown, hfile, hclean⟩ := reading_decides
  have hrequest : requestOf ["-p", "methods"] = .run .names true "methods" := by decide +kernel
  obtain ⟨methods, hread⟩ : ∃ methods, readListing source = .ok methods := by
    have hok : (readListing source).isOk = true := by decide +kernel
    cases hread : readListing source with
    | ok methods => exact ⟨methods, rfl⟩
    | error errors => rw [hread] at hok; cases hok
  obtain ⟨outs, houts, _⟩ := hnamed source methods hread true
  obtain ⟨hexit, houtput⟩ := hfile .warnings _ content _ _ _ _ hrequest rfl
  have hquiet := Logger.quietBelowWarn_warnings
  exact ⟨hrequest, ⟨methods, outs, hread, houts, hknown source methods hread true "inner" "outer",
    hquiet, hexit.mpr ⟨source, methods, rfl, hread⟩,
    houtput source methods outs rfl hread houts rfl hquiet⟩,
    hclean .warnings ["methods", "methods"] content (by decide +kernel)⟩

end CommandLine

end LocalNames
