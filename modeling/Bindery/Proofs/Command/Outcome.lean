import Bindery.Proofs.Command.Writing

/-!
What a command comes to where its log goes to no file: how it ends, and the files it leaves. Both
follow from the report, if there is one, and from writing its artifacts.
-/

set_option autoImplicit false

namespace Bindery

namespace Log

def Logger.WithoutFile (l : Logger) : Prop := ∀ s ∈ l.sinks, ∀ f format, s ≠ .file f format

theorem Sink.write_of_not_file {s : Sink} (hs : ∀ f format, s ≠ .file f format) (elapsed : Int)
    (r : Record) (c : Channels) :
    (s.write elapsed r c).1 = s ∧ (s.write elapsed r c).2.files = c.files := by
  cases s with
  | file f format => exact absurd rfl (hs f format)
  | _ => exact ⟨rfl, rfl⟩

theorem Sink.forAll_of_unchanged {act : Sink → Channels → Sink × Channels} {sinks : List Sink}
    (h : ∀ s ∈ sinks, ∀ c, (act s c).1 = s ∧ (act s c).2.files = c.files) (c : Channels) :
    (Sink.forAll act sinks c).1 = sinks ∧ (Sink.forAll act sinks c).2.files = c.files := by
  induction sinks generalizing c with
  | nil => exact ⟨rfl, rfl⟩
  | cons s ss ih =>
    obtain ⟨hs, hss⟩ := List.forall_mem_cons.mp h
    obtain ⟨hsink, hfiles⟩ := hs c
    obtain ⟨hsinks, hrest⟩ := ih hss (act s c).2
    rw [Sink.forAll]
    exact ⟨by rw [hsink, hsinks], hrest.trans hfiles⟩

namespace Logger

variable {l : Logger} (hl : l.WithoutFile) (c : Channels)
include hl

theorem WithoutFile.log (r : Record) :
    (l.log r c).1.WithoutFile ∧ (l.log r c).2.files = c.files := by
  unfold Logger.log
  split
  · obtain ⟨hsinks, hfiles⟩ := Sink.forAll_of_unchanged
      (fun s hs c => Sink.write_of_not_file (hl s hs) l.elapsed r c) c
    refine ⟨?_, hfiles⟩
    rw [WithoutFile, deliver, hsinks]
    exact hl
  · exact ⟨hl, rfl⟩

theorem WithoutFile.closeSinks : l.closeSinks c = c := by
  have hclose : ∀ sinks : List Sink, (∀ s ∈ sinks, ∀ f format, s ≠ .file f format) →
      sinks.foldl (fun c s => s.close c) c = c := by
    intro sinks
    induction sinks with
    | nil => exact fun _ => rfl
    | cons s ss ih =>
      intro h
      obtain ⟨hs, hss⟩ := List.forall_mem_cons.mp h
      have hsame : s.close c = c := by
        cases s with
        | file f format => exact absurd rfl (hs f format)
        | _ => rfl
      rw [List.foldl_cons, hsame]
      exact ih hss
  exact hclose l.sinks hl

end Logger

theorem Logger.start_withoutFile {config : Config} (hconfig : config.file = []) (terminal : Bool)
    (c : Channels) :
    (Logger.start {} config terminal c).1.WithoutFile ∧
      (Logger.start {} config terminal c).2 = c := by
  unfold Logger.start Logger.addFile
  rw [hconfig, List.isEmpty_nil, if_pos rfl]
  refine ⟨?_, rfl⟩
  dsimp only
  split <;> simp [Logger.WithoutFile, Logger.addSink, Logger.clearSinks]

end Log

namespace Command

/-- A session on files, with a log that goes to none of them. -/
structure Session.On (s : Session) (files : FileTree) : Prop where
  files : s.files = files
  logger : s.logger.WithoutFile

namespace Session.On

variable {s : Session} {files : FileTree} (h : s.On files)
include h

theorem say (text : Text) : (s.say text).On files := ⟨h.files, h.logger⟩

theorem print (text : Text) : (s.print text).On files := ⟨h.files, h.logger⟩

theorem withFiles (files' : FileTree) : (s.withFiles files').On files' := ⟨rfl, h.logger⟩

theorem log (r : Log.Record) : (s.log r).On files := by
  obtain ⟨hlogger, hfiles⟩ := h.logger.log s.channels r
  exact ⟨hfiles.trans h.files, hlogger⟩

theorem logAll (records : List Log.Record) : (s.logAll records).On files := by
  induction records generalizing s with
  | nil => exact h
  | cons r rest ih => exact ih (h.log r)

theorem finish : s.finish.files = files := by
  rw [Session.finish, h.logger.closeSinks]
  exact h.files

theorem closed (ending : Ending) : (Command.closed (s, ending)).files = files := by
  cases ending with
  | exit code => exact h.finish
  | brokenOff cause => exact h.files

end Session.On

theorem start_on {config : Log.Config} (hconfig : config.file = []) (files : FileTree)
    (terminal : Bool) : (Session.start files config terminal).On files := by
  obtain ⟨hlogger, hchannels⟩ := Log.Logger.start_withoutFile hconfig terminal { files }
  refine ⟨?_, hlogger⟩
  rw [Session.files, Session.start, hchannels]

theorem writeArtifacts_on {s : Session} {files : FileTree} (h : s.On files) (directory : Text)
    (artifacts : List Artifact) :
    (writeArtifacts directory artifacts s).1 = (files.writeAll directory artifacts).1 ∧
      (writeArtifacts directory artifacts s).2.On (files.writeAll directory artifacts).2 := by
  induction artifacts generalizing s files with
  | nil => exact ⟨rfl, h⟩
  | cons a rest ih =>
    rw [writeArtifacts, FileTree.writeAll, h.files]
    cases files.writeIfChanged (Path.join directory a.path) a.content with
    | mk result made =>
      cases result with
      | error fault => exact ⟨rfl, h.withFiles made⟩
      | ok new =>
        have hlogged := (h.withFiles made).log
          (if new then written (Path.join directory a.path)
            else unchanged (Path.join directory a.path))
        obtain ⟨hresult, hon⟩ := ih hlogged
        dsimp only
        generalize writeArtifacts directory rest _ = after at hresult hon
        generalize made.writeAll directory rest = all at hresult hon
        obtain ⟨result, s'⟩ := after
        obtain ⟨count, files'⟩ := all
        cases hresult
        cases result with
        | error fault => exact ⟨rfl, hon⟩
        | ok count => exact ⟨rfl, hon⟩

/-- The settings of a run and its report, where nothing went wrong on the way to it. -/
def produced (files : FileTree) (args : List Text) : Option (Settings × Report) :=
  match parseOptions files args with
  | .error _ => none
  | .ok o =>
    match (readDocument files o.settings.documentPath).2, Target.ofName? o.settings.target with
    | .ok registry, some target =>
      if (generate registry target o.settings.options).success then
        some (o.settings, generate registry target o.settings.options)
      else none
    | _, _ => none

/-- The files after a command. -/
def filesAfter (mode : Mode) (files : FileTree) (args : List Text) : FileTree :=
  match mode, produced files args with
  | .generate, some (settings, report) =>
    (files.writeAll settings.outputPath report.artifacts).2
  | _, _ => files

/-- Nothing goes wrong in a command. -/
def Works (mode : Mode) (files : FileTree) (args : List Text) : Prop :=
  ∃ settings report, produced files args = some (settings, report) ∧ (mode = .generate →
    ∃ count, (files.writeAll settings.outputPath report.artifacts).1 = .ok count)

/-- A run has ended with files as they are given, well or not. -/
structure Ends (e : Ended) (files : FileTree) (well : Prop) : Prop where
  on : e.1.On files
  code : e.2 = .exit 0 ↔ well

section
variable {files : FileTree} {args : List Text} (mode : Mode)

theorem filesAfter_of_none (h : produced files args = none) :
    filesAfter mode files args = files := by
  unfold filesAfter
  rw [h]
  cases mode <;> rfl

theorem filesAfter_of_some {settings : Settings} {report : Report}
    (h : produced files args = some (settings, report)) :
    filesAfter mode files args =
      if mode = .generate then (files.writeAll settings.outputPath report.artifacts).2
      else files := by
  unfold filesAfter
  rw [h]
  cases mode <;> rfl

theorem works_iff {settings : Settings} {report : Report}
    (h : produced files args = some (settings, report)) :
    Works mode files args ↔ (mode = .generate →
      ∃ count, (files.writeAll settings.outputPath report.artifacts).1 = .ok count) := by
  unfold Works
  rw [h]
  simp

variable {s : Session}

theorem failed_ends (h : s.On files) : Ends (failed s) files False := ⟨h, by simp [failed]⟩

/-- A run that produced nothing has failed, and files are as they were. -/
theorem Ends.of_none {e : Ended} (h : Ends e files False) (hnone : produced files args = none) :
    Ends e (filesAfter mode files args) (Works mode files args) := by
  rw [filesAfter_of_none mode hnone]
  refine ⟨h.on, h.code.trans ⟨False.elim, ?_⟩⟩
  rintro ⟨settings, report, hsome, -⟩
  rw [hnone] at hsome
  cases hsome

theorem withoutOptions_ends (h : s.On files) (fault : OptionFault) :
    Ends (withoutOptions fault s) files False := by
  cases fault with
  | usage fault => exact failed_ends (h.say _)
  | breakdown cause => exact ⟨h, by simp [withoutOptions]⟩

theorem logLoaded_on (h : s.On files) (path : Option Text) : (logLoaded path s).On files := by
  cases path with
  | none => exact h
  | some p => exact h.log _

theorem conclude_ends (h : s.On files) (printer : Diagnostic.Printer) (directory : Text)
    (report : Report) :
    Ends (conclude mode printer directory report s)
      (if mode = .generate then (files.writeAll directory report.artifacts).2 else files)
      (mode = .generate → ∃ count, (files.writeAll directory report.artifacts).1 = .ok count) := by
  cases mode with
  | check => exact ⟨h.say _, by simp [conclude, succeeded]⟩
  | symbols => exact ⟨h.print _, by simp [conclude, succeeded]⟩
  | generate =>
    obtain ⟨hresult, hon⟩ := writeArtifacts_on h directory report.artifacts
    rw [if_pos rfl]
    unfold conclude
    dsimp only
    split
    · rename_i fault s' hwrite
      rw [hwrite] at hresult hon
      exact ⟨hon.say _, by simp [failed, ← hresult]⟩
    · rename_i count s' hwrite
      rw [hwrite] at hresult hon
      exact ⟨(hon.log _).say _, by simp [succeeded, ← hresult]⟩

theorem execute_ends (h : s.On files) (env : Environment) {o : Options}
    (hparse : parseOptions files args = .ok o) :
    Ends (execute mode env o s) (filesAfter mode files args) (Works mode files args) := by
  have hbegun := h.log ⟨.info, source, "Reading IR from " ++ o.settings.documentPath⟩
  unfold execute
  dsimp only
  rw [hbegun.files]
  cases hread : readDocument files o.settings.documentPath with
  | mk records result =>
    have hrecords := hbegun.logAll records
    cases result with
    | error errors =>
      exact (failed_ends ((hrecords.say _).say _)).of_none mode (by simp [produced, hparse, hread])
    | ok registry =>
      cases htarget : Target.ofName? o.settings.target with
      | none =>
        exact (failed_ends (hrecords.say _)).of_none mode
          (by simp [produced, hparse, hread, htarget])
      | some target =>
        have hshown := (hrecords.logAll
          (registryRecord registry :: Journal.generation registry target o.settings.options)).say
          ((printerOf env o).listing (generate registry target o.settings.options).errors
            (generate registry target o.settings.options).omissions)
        dsimp only
        unfold produce
        dsimp only
        split
        · rename_i hsuccess
          have hproduced : produced files args =
              some (o.settings, generate registry target o.settings.options) := by
            simp [produced, hparse, hread, htarget, hsuccess]
          have hconclude := conclude_ends mode hshown (printerOf env o) o.settings.outputPath
            (generate registry target o.settings.options)
          rw [filesAfter_of_some mode hproduced]
          exact ⟨hconclude.on, hconclude.code.trans (works_iff mode hproduced).symm⟩
        · rename_i hfailed
          exact (failed_ends (hshown.say _)).of_none mode
            (by simp [produced, hparse, hread, htarget, hfailed])

theorem runMode_ends (h : s.On files) (env : Environment) (args : List Text) :
    Ends (runMode mode env args s) (filesAfter mode files args) (Works mode files args) := by
  unfold runMode
  rw [h.files]
  cases hinitial : initialSettings files args with
  | error fault =>
    exact (withoutOptions_ends h fault).of_none mode (by simp [produced, parseOptions, hinitial])
  | ok initial =>
    obtain ⟨path, settings⟩ := initial
    have hloaded := logLoaded_on h path
    dsimp only
    cases happly : applyArguments files.workingDirectory settings args with
    | error fault =>
      exact (withoutOptions_ends hloaded fault).of_none mode
        (by simp [produced, parseOptions, hinitial, happly])
    | ok o =>
      have hparse : parseOptions files args = .ok o := by
        simp only [parseOptions, hinitial, happly]
      exact execute_ends mode hloaded env hparse

end

theorem dispatch_unnamed {s : Session} {files : FileTree} (h : s.On files) (env : Environment)
    {command : Text} (hcommand : Mode.ofName? command = none) (rest : List Text) :
    (dispatch env (command :: rest) s).1.On files := by
  unfold dispatch
  dsimp only
  rw [hcommand]
  split
  · exact h.print _
  · split
    · exact h.print _
    · exact (h.log _).say _

theorem dispatch_named {s : Session} {files : FileTree} (h : s.On files) (env : Environment)
    (mode : Mode) (rest : List Text) :
    Ends (dispatch env (mode.name :: rest) s) (filesAfter mode files rest)
      (Works mode files rest) := by
  have hbegun := h.log ⟨.debug, source, "Command: " ++ mode.name⟩
  have hends := runMode_ends mode hbegun env rest
  cases mode <;> exact hends

theorem Mode.name_of_ofName? {command : Text} {mode : Mode} (h : ofName? command = some mode) :
    mode.name = command := by
  have hfound := List.find?_some h
  exact eq_of_beq hfound

section
variable {args : List Text} {env : Environment} (files : FileTree)
  (hlog : (Log.Config.ofArguments args env.logging).file = [])
include hlog

theorem run_named {mode : Mode} {rest : List Text} (hargs : args = mode.name :: rest) :
    (run args env files).files = filesAfter mode files rest ∧
      ((run args env files).ending = .exit 0 ↔ Works mode files rest) := by
  have hends := dispatch_named (start_on hlog files env.terminal) env mode rest
  rw [← hargs] at hends
  exact ⟨hends.on.closed _, hends.code⟩

theorem run_files_of_ne (hargs : args.head? ≠ some Mode.generate.name) :
    (run args env files).files = files := by
  have hstart := start_on hlog files env.terminal
  cases args with
  | nil => exact (hstart.print usageText).closed (.exit 0)
  | cons command rest =>
    cases hmode : Mode.ofName? command with
    | none => exact (dispatch_unnamed hstart env hmode rest).closed _
    | some mode =>
      have hname := Mode.name_of_ofName? hmode
      subst hname
      rw [(run_named files hlog rfl).1]
      cases mode with
      | generate => exact absurd rfl hargs
      | check => rfl
      | symbols => rfl

end

end Command

end Bindery
