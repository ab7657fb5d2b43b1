import RingBridge.Command.Session
import RingBridge.Proofs.Command.Output
/-!
Files that a run leaves alone. A failure that is reported is one of the input, and comes before anything is written; and
a run that does write, however it ends, writes to the paths that its options name.
-/
namespace RingBridge.Command
open Host

namespace Session.Run
variable {α β : Type} {paths : List String} {path : String}

theorem bind_run (r : Run α) (k : α → Run β) (s : Session) : (r >>= k) s =
    match r s with
    | .ok a s => k a s
    | .error f s => .error f s := by
  simp only [bind, EStateM.bind]
  cases r s <;> rfl

def after (r : Run α) (s : Session) : Session :=
  match r s with
  | .ok _ s | .error _ s => s

def WritesTo (paths : List String) (r : Run α) : Prop := ∀ s : Session, s.files.Becomes paths (r.after s).files

theorem WritesTo.bind {r : Run α} {k : α → Run β} (hr : WritesTo paths r) (hk : ∀ a, WritesTo paths (k a)) :
    WritesTo paths (r >>= k) := by
  intro s
  have hfirst := hr s
  rw [after] at hfirst ⊢
  rw [bind_run]
  cases h : r s with
  | ok a t =>
    rw [h] at hfirst
    exact hfirst.trans (hk a t)
  | error f t =>
    rw [h] at hfirst
    exact hfirst

theorem writesTo_pure (a : α) : WritesTo paths (pure a : Run α) := fun _ => .refl

theorem writesTo_fail (f : Failure) : WritesTo paths (fail f : Run α) := fun _ => .refl

theorem writesTo_printLine (line : String) : WritesTo paths (printLine line : Run Unit) := fun _ => .refl

theorem writesTo_readText (path : String) : WritesTo paths (readText path : Run String) := by
  intro s
  show s.files.Becomes paths (after (Run.readText path) s).files
  rw [after, Run.readText]
  cases s.files.read path <;> exact .refl

theorem writesTo_writeText (hpath : path ∈ paths) (text : String) : WritesTo paths (writeText path text : Run Unit) := by
  intro s
  show s.files.Becomes paths (after (Run.writeText path text) s).files
  rw [after, Run.writeText]
  cases h : s.files.write path text with
  | ok files => exact .write .refl hpath h
  | error e => exact .refl

theorem writesTo_orFail (r : Except Failure α) : WritesTo paths (orFail r : Run α) := by
  cases r with
  | ok a => exact writesTo_pure a
  | error f => exact writesTo_fail f

theorem writesTo_printLines (lines : List String) : WritesTo paths (printLines lines : Run Unit) := by
  induction lines with
  | nil => exact writesTo_pure ()
  | cons l ls ih => exact (writesTo_printLine l).bind fun _ => ih

theorem writesTo_readInput (path : String) : WritesTo paths (readInput path : Run (Document Value)) := by
  have hpresent : WritesTo paths (isPresent path : Run Bool) := fun _ => .refl
  apply hpresent.bind
  intro present
  split
  · exact (writesTo_readText path).bind fun _ => (writesTo_printLines _).bind fun _ => writesTo_orFail _
  · exact writesTo_fail _

end Session.Run

section
variable {m : Type → Type} [Host m]

def writeModule (o : Options) (r : Module) : m Unit := do
  writeText o.outputPath r.code
  match given? o.docs with
  | some path =>
    printLine (arrow o.input path)
    writeReference path (Reference.render r)
  | none => pure ()

def finish (o : Options) (d : Document Value) : m Unit := do
  printLine (arrow o.input o.outputPath)
  let r ← orFail ((o.settings.generate d o.modulePrefix).mapError .text)
  if r.registrations.isEmpty then printLine ("  >> warning: " ++ o.input ++ " has nothing to bind")
  writeModule o r

theorem generate_eq (o : Options) : (generate o : m Unit) = (do
    printLine "=== Generating Ring bindings:"
    let d ← readInput o.input
    finish o d) := rfl

def dumpGiven (o : Options) : m Unit :=
  match given? o.dump with
  | some path => dump o path
  | none => pure ()

end

theorem run_eq (o : Options) : (run o : Session.Run Unit) = (do
    dumpGiven o
    generate o) := by
  unfold run dumpGiven
  cases given? o.dump <;> rfl

namespace Options

def given (o : Options) : List String := (given? o.dump).toList ++ (given? o.output).toList ++ (given? o.docs).toList

def written (o : Options) : List String := (given? o.dump).toList ++ o.outputPath :: (given? o.docs).toList

theorem mem_written {o : Options} {path : String} :
    path ∈ o.written ↔ given? o.dump = some path ∨ path = o.outputPath ∨ given? o.docs = some path := by
  simp [written]

end Options

namespace Session.Run
variable {paths : List String} {o : Options} {s t : Session} {f : Failure}

theorem writesTo_writeReference {path : String} (hpath : path ∈ paths) (r : Except TextError String) :
    WritesTo paths (writeReference path r : Run Unit) := by
  cases r with
  | ok text => exact writesTo_writeText hpath text
  | error e => exact (writesTo_writeText hpath "").bind fun _ => writesTo_fail _

theorem writesTo_writeModule (o : Options) (r : Module) : WritesTo o.written (writeModule o r : Run Unit) := by
  apply (writesTo_writeText (Options.mem_written.2 (.inr (.inl rfl))) r.code).bind
  intro _
  split
  · next path hdocs =>
    have hpath := Options.mem_written.2 (.inr (.inr hdocs))
    exact (writesTo_printLine _).bind fun _ => writesTo_writeReference hpath _
  · exact writesTo_pure ()

theorem writesTo_finish (o : Options) (d : Document Value) : WritesTo o.written (finish o d : Run Unit) := by
  apply (writesTo_printLine _).bind
  intro _
  apply (writesTo_orFail _).bind
  intro r
  split
  · exact (writesTo_printLine _).bind fun _ => writesTo_writeModule o r
  · exact writesTo_writeModule o r

theorem writesTo_dumpGiven (o : Options) : WritesTo o.written (dumpGiven o : Run Unit) := by
  unfold dumpGiven
  split
  · next path hdump =>
    have hpath := Options.mem_written.2 (.inl hdump)
    exact (writesTo_readInput o.input).bind fun _ => writesTo_writeText hpath _
  · exact writesTo_pure ()

theorem writesTo_run (o : Options) : WritesTo o.written (run o : Run Unit) := by
  rw [run_eq, generate_eq]
  apply (writesTo_dumpGiven o).bind
  intro _
  exact (writesTo_printLine _).bind fun _ => (writesTo_readInput o.input).bind fun d => writesTo_finish o d

/-- A run that fails only in ways that have no report. -/
def Unreported {α : Type} (r : Run α) : Prop := ∀ (s : Session) (f : Failure) (t : Session), r s = .error f t → f.report? = none

theorem Unreported.bind {α β : Type} {r : Run α} {k : α → Run β} (hr : Unreported r) (hk : ∀ a, Unreported (k a)) :
    Unreported (r >>= k) := by
  intro s f t h
  rw [bind_run] at h
  cases hrun : r s with
  | ok a u =>
    rw [hrun] at h
    exact hk a _ _ _ h
  | error g u =>
    rw [hrun] at h
    cases h
    exact hr _ _ _ hrun

theorem unreported_pure {α : Type} (a : α) : Unreported (pure a : Run α) := nofun

theorem unreported_printLine (line : String) : Unreported (printLine line : Run Unit) := nofun

theorem unreported_fail {α : Type} (h : f.report? = none) : Unreported (fail f : Run α) := by
  intro s g t he
  cases he
  exact h

theorem unreported_writeText (path text : String) : Unreported (writeText path text : Run Unit) := by
  intro s f t h
  have h : Run.writeText path text s = .error f t := h
  rw [Run.writeText] at h
  cases hw : s.files.write path text with
  | ok files =>
    rw [hw] at h
    cases h
  | error e =>
    rw [hw] at h
    cases h
    rfl

theorem unreported_orFail {α : Type} (r : Except TextError α) : Unreported (orFail (r.mapError .text) : Run α) := by
  cases r with
  | ok a => exact unreported_pure a
  | error e => exact unreported_fail rfl

theorem unreported_writeModule (o : Options) (r : Module) : Unreported (writeModule o r : Run Unit) := by
  apply (unreported_writeText _ _).bind
  intro _
  split
  · apply (unreported_printLine _).bind
    intro _
    cases Reference.render r with
    | ok text => exact unreported_writeText _ text
    | error e => exact (unreported_writeText _ "").bind fun _ => unreported_fail rfl
  · exact unreported_pure ()

/-- Once the input was read, nothing is reported. -/
theorem unreported_finish (o : Options) (d : Document Value) : Unreported (finish o d : Run Unit) := by
  apply (unreported_printLine _).bind
  intro _
  apply (unreported_orFail _).bind
  intro r
  split
  · exact (unreported_printLine _).bind fun _ => unreported_writeModule o r
  · exact unreported_writeModule o r

theorem printLines_run (lines : List String) (s : Session) :
    (printLines lines : Run Unit) s = .ok () { s with printed := s.printed ++ lines } := by
  induction lines generalizing s with
  | nil => simp [printLines, pure, EStateM.pure]
  | cons l ls ih =>
    show (printLines ls : Run Unit) (s.print l) = _
    rw [ih, print, List.append_assoc]
    rfl

/-- The input is read as it is in the files, and what is noticed is printed. -/
theorem readInput_run (path : String) (s : Session) : (readInput path : Run (Document Value)) s =
    if s.files.isPresent path then
      match s.files.read path with
      | .error e => .error (.file e) s
      | .ok text =>
        (orFail (load path text).document : Run (Document Value))
          { s with printed := s.printed ++ (load path text).notices.map Source.Notice.text }
    else .error (.noSuchFile path) s := by
  have hread : (Host.readText path : Run String) s = Run.readText path s := rfl
  rw [readInput, bind_run]
  show (if s.files.isPresent path then _ else _ : Run (Document Value)) s = _
  split
  · rw [bind_run, hread, Run.readText]
    cases s.files.read path with
    | error e => rfl
    | ok text =>
      show (printLines _ >>= fun _ => orFail _ : Run (Document Value)) s = _
      rw [bind_run, printLines_run]
  · rfl

theorem after_readInput (path : String) (s : Session) : ((readInput path : Run (Document Value)).after s).files = s.files := by
  have h : s.files.Becomes [] ((readInput path : Run (Document Value)).after s).files := writesTo_readInput path s
  generalize ((readInput path : Run (Document Value)).after s).files = g at h
  cases h with
  | refl => rfl
  | write _ hp _ => cases hp

/-- An input that was read is read again after a text was written elsewhere. -/
theorem readInput_again {path other text : String} {d : Document Value} {u v : Session}
    (h : (readInput path : Run (Document Value)) s = .ok d u) (hw : s.files.write other text = .ok v.files)
    (hne : ∀ place, s.files.locate other = .ok place → s.files.locate path ≠ .ok place) :
    ∃ w, (readInput path : Run (Document Value)) v = .ok d w := by
  rw [readInput_run] at h ⊢
  split at h
  · next hpresent =>
    cases hread : s.files.read path with
    | error e =>
      rw [hread] at h
      cases h
    | ok text =>
      simp only [hread] at h
      simp only [Files.isPresent_write hw hne, hpresent, Files.read_write hw hne hread, if_true]
      cases hdocument : (load path text).document with
      | error f =>
        rw [hdocument] at h
        cases h
      | ok d' =>
        rw [hdocument] at h
        cases h
        exact ⟨_, rfl⟩
  · cases h

theorem files_of_readInput {path : String} {d : Document Value} (h : (readInput path : Run (Document Value)) s = .ok d t) :
    t.files = s.files := by
  have hafter := after_readInput path s
  rwa [after, h] at hafter

theorem files_of_readInput_error {path : String} (h : (readInput path : Run (Document Value)) s = .error f t) :
    t.files = s.files := by
  have hafter := after_readInput path s
  rwa [after, h] at hafter

/-- What is reported of the second reading is what it failed with. -/
theorem readInput_of_generate (h : (generate o : Run Unit) s = .error f t) (hf : f.report? ≠ none) :
    (readInput o.input : Run (Document Value)) (s.print "=== Generating Ring bindings:") = .error f t := by
  have h : (readInput o.input >>= fun d => finish o d : Run Unit) (s.print "=== Generating Ring bindings:") = .error f t := h
  rw [bind_run] at h
  cases hread : (readInput o.input : Run (Document Value)) (s.print "=== Generating Ring bindings:") with
  | ok d u =>
    rw [hread] at h
    exact absurd (unreported_finish o d _ _ _ h) hf
  | error g u =>
    rw [hread] at h
    cases h
    rfl

/-- A dump that is reported to fail wrote nothing, and one that was written has read the input. -/
theorem dump_cases (o : Options) (path : String) (s : Session) :
    (∀ f t, (dump o path : Run Unit) s = .error f t → f.report? ≠ none → t.files = s.files) ∧
      ∀ t, (dump o path : Run Unit) s = .ok () t → ∃ d u text,
        (readInput o.input : Run (Document Value)) s = .ok d u ∧ s.files.write path text = .ok t.files := by
  rw [dump, bind_run]
  cases hread : (readInput o.input : Run (Document Value)) s with
  | error g u =>
    refine ⟨fun f t h _ => ?_, fun t h => by cases h⟩
    cases h
    exact files_of_readInput_error hread
  | ok d u =>
    refine ⟨fun f t h hf => absurd (unreported_writeText _ _ _ _ _ h) hf, fun t h => ?_⟩
    have h : Run.writeText path (documentText (o.prefixed d)) u = .ok () t := h
    rw [Run.writeText, files_of_readInput hread] at h
    cases hw : s.files.write path (documentText (o.prefixed d)) with
    | error e =>
      rw [hw] at h
      cases h
    | ok files =>
      rw [hw] at h
      cases h
      exact ⟨d, u, _, rfl, hw⟩

/-- Where the dump is not written over the input, a run that is reported to fail wrote nothing. -/
theorem files_of_run (hdump : ∀ path, given? o.dump = some path → ∀ place, s.files.locate path = .ok place →
    s.files.locate o.input ≠ .ok place) (h : (run o : Run Unit) s = .error f t) (hf : f.report? ≠ none) :
    t.files = s.files := by
  rw [run_eq, bind_run] at h
  unfold dumpGiven at h
  cases hgiven : given? o.dump with
  | none =>
    rw [hgiven] at h
    exact files_of_readInput_error (s := s.print _) (readInput_of_generate h hf)
  | some path =>
    rw [hgiven] at h
    cases hdumped : (dump o path : Run Unit) s with
    | error g u =>
      simp only [hdumped] at h
      cases h
      exact (dump_cases o path s).1 _ _ hdumped hf
    | ok _ u =>
      simp only [hdumped] at h
      obtain ⟨d, v, text, hread, hw⟩ := (dump_cases o path s).2 u hdumped
      -- The second reading finds the input as the first one did.
      obtain ⟨w, hagain⟩ := readInput_again (v := u.print "=== Generating Ring bindings:") hread hw (hdump path hgiven)
      rw [readInput_of_generate h hf] at hagain
      cases hagain

end Session.Run

theorem executeOn_eq (files : Files) (o : Options) : executeOn files o =
    match (run o : Session.Run Unit) { files } with
    | .ok _ s => (.ok 0, s)
    | .error f s =>
      match f.report? with
      | some r => (.ok 1, s.print ("Error: " ++ r.message))
      | none => (.error f, s) := by
  have hattempt : (attempt (run o) : Session.Run (Except Failure Unit)) = Session.Run.attempt (run o) := rfl
  rw [executeOn, execute, Session.Run.bind_run, hattempt, Session.Run.attempt]
  cases (run o : Session.Run Unit) { files } with
  | ok a s => rfl
  | error f s =>
    dsimp only
    cases f.report? <;> rfl

/-- The exit code 1 is that of a failure with a report, which leaves the files as they were when it came. -/
theorem exists_failure_of_reported {files : Files} {o : Options} (h : (executeOn files o).1 = .ok 1) :
    ∃ f s, (run o : Session.Run Unit) { files } = .error f s ∧ f.report? ≠ none ∧ (executeOn files o).2.files = s.files := by
  rw [executeOn_eq] at h ⊢
  cases hrun : (run o : Session.Run Unit) { files } with
  | ok a s =>
    rw [hrun] at h
    exact absurd (Except.ok.inj h) (by decide)
  | error f s =>
    rw [hrun] at h
    cases hreport : f.report? with
    | none =>
      simp only [hreport] at h
      cases h
    | some r => exact ⟨f, s, rfl, by rw [hreport]; nofun, by simp only [hreport]; rfl⟩

/-- Where texts may change, by the options. -/
theorem becomes_executeOn (files : Files) (o : Options) : files.Becomes o.written (executeOn files o).2.files := by
  have h := Session.Run.writesTo_run o { files }
  rw [Session.Run.after] at h
  rw [executeOn_eq]
  cases hrun : (run o : Session.Run Unit) { files } with
  | ok a s =>
    rw [hrun] at h
    exact h
  | error f s =>
    rw [hrun] at h
    dsimp only
    cases f.report? <;> exact h

/-- A path that is written but not given is that of the output, named after the input. -/
theorem Options.mem_given_or_eq {o : Options} {path : String} (h : path ∈ o.written) :
    path ∈ o.given ∨ path = Path.defaultOutput o.input := by
  obtain h | rfl | h := Options.mem_written.1 h
  · exact .inl (by simp [given, h])
  · rw [outputPath]
    cases houtput : given? o.output with
    | none => exact .inr rfl
    | some path => exact .inl (by simp [given, houtput])
  · exact .inl (by simp [given, h])

/-- Whatever the tree and the options: a run with exit code 1 has left all files as they were, unless its dump goes over
    the input. Any run changes texts only where it was to write, and that is never the input itself unless an option
    names it. -/
theorem executeOn_files (files : Files) (o : Options) :
    ((∀ path, given? o.dump = some path → ∀ place, files.locate path = .ok place → files.locate o.input ≠ .ok place) →
      (executeOn files o).1 = .ok 1 → (executeOn files o).2.files = files) ∧
    files.Becomes o.written (executeOn files o).2.files ∧
    (∀ place, (executeOn files o).2.files.text? place ≠ files.text? place → ∃ path ∈ o.written, files.locate path = .ok place) ∧
    ∀ place, files.locate o.input = .ok place → (∀ path ∈ o.given, files.locate path ≠ .ok place) →
      (executeOn files o).2.files.text? place = files.text? place := by
  have hbecomes := becomes_executeOn files o
  refine ⟨fun hdump h => ?_, hbecomes, fun place h => ?_, fun place hinput hgiven => hbecomes.text? fun path hpath ho => ?_⟩
  · obtain ⟨f, s, hrun, hf, hfiles⟩ := exists_failure_of_reported h
    exact hfiles.trans (Session.Run.files_of_run hdump hrun hf)
  · refine Classical.byContradiction fun hnone => ?_
    exact h (hbecomes.text? fun path hpath ho => hnone ⟨path, hpath, ho⟩)
  · obtain hpath | rfl := Options.mem_given_or_eq hpath
    · exact hgiven path hpath ho
    · exact Files.locate_defaultOutput_ne ho hinput rfl

def missingFiles : Files := Files.ofList [("docs/ir.json", "kept")]

def missingOptions : Options := { input := "lib.rs", dump := some "docs/ir.json" }

theorem executeOn_files_missing : (executeOn missingFiles missingOptions).1 = .ok 1 ∧
    (executeOn missingFiles missingOptions).2.files = missingFiles ∧
    missingFiles.locate missingOptions.input = .ok ["lib.rs"] ∧
    (executeOn missingFiles missingOptions).2.files.text? ["lib.rs"] = missingFiles.text? ["lib.rs"] := by
  have hexit : (executeOn missingFiles missingOptions).1 = .ok 1 := by rfl
  have hinput : missingFiles.locate missingOptions.input = .ok ["lib.rs"] := by rfl
  have hdump : missingFiles.locate "docs/ir.json" = .ok ["ir.json", "docs"] := by rfl
  have hapart : ∀ place, missingFiles.locate "docs/ir.json" = .ok place →
      missingFiles.locate missingOptions.input ≠ .ok place := by
    intro place h
    rw [hdump] at h
    cases h
    rw [hinput]
    exact fun he => absurd (Except.ok.inj he) (by decide)
  obtain ⟨hsame, -, -, hkept⟩ := executeOn_files missingFiles missingOptions
  refine ⟨hexit, hsame ?_ hexit, hinput, hkept _ hinput ?_⟩
  · intro path hpath
    obtain rfl : "docs/ir.json" = path := Option.some.inj hpath
    exact hapart
  · refine List.forall_mem_singleton.2 ?_
    rw [hdump]
    exact fun he => absurd (Except.ok.inj he) (by decide)

end RingBridge.Command
