import Bindery.Proofs.Command.Outcome
import Bindery.Proofs.Document.Faithful
import Bindery.Proofs.Generation.Includes

/-!
What the commands do to the files. Only `generate` writes, and only a report without errors: all of
its artifacts, nothing else, and none of them a second time.
-/

set_option autoImplicit false

namespace Bindery.Command

section
variable {name ext : Text} (hname : Identifier.isValid name = true)
include hname

theorem extended_isName (hslash : Byte.slash ∉ ext) (hzero : (0 : UInt8) ∉ ext)
    (hlength : 2 ≤ ext.length) (hlast : ext.getLast? ≠ defaultFile.getLast?) :
    Path.IsName (name ++ ext) ∧ name ++ ext ≠ defaultFile := by
  have hparts := all_isPart_of_isValid hname
  have hlong : 2 < (name ++ ext).length := by
    cases name with
    | nil => cases hname
    | cons c t =>
      rw [List.length_append, List.length_cons]
      omega
  have hne : ext ≠ [] := by
    rintro rfl
    simp at hlength
  refine ⟨⟨?_, ?_, ?_, ?_, ?_⟩, ?_⟩
  · exact List.append_ne_nil_of_right_ne_nil _ hne
  · rw [List.mem_append, not_or]
    exact ⟨notMem_of_all_isPart hparts (by decide), hslash⟩
  · rw [List.mem_append, not_or]
    exact ⟨notMem_of_all_isPart hparts (by decide), hzero⟩
  · intro heq
    rw [heq] at hlong
    exact absurd hlong (by decide)
  · intro heq
    rw [heq] at hlong
    exact absurd hlong (by decide)
  · intro heq
    rw [← heq, List.getLast?_append_of_ne_nil _ hne] at hlast
    exact hlast rfl

theorem unitFile_isName {target : Target} {file : Text} (hfile : file ∈ target.unitFiles name) :
    Path.IsName file ∧ file ≠ defaultFile := by
  have hfiles : file = UnitFile.declaration name ∨ file = UnitFile.functions name ∨
      file = UnitFile.hostDeclaration name ∨ file = UnitFile.hostDefinitions name := by
    cases target <;>
      simp only [Target.unitFiles, List.mem_cons, List.not_mem_nil, or_false] at hfile
    · exact hfile.imp_right .inl
    · exact hfile
  rcases hfiles with rfl | rfl | rfl | rfl
  · exact extended_isName hname (by decide) (by decide) (by decide) (by decide)
  · exact extended_isName hname (by decide) (by decide) (by decide) (by decide)
  · exact extended_isName hname (by decide) (by decide) (by decide) (by decide)
  · exact extended_isName hname (by decide) (by decide) (by decide) (by decide)

end

theorem artifact_isName {r : Registry} (hr : r.WellFormed) {target : Target} {o : Bindery.Options}
    (ho : o.problem? target = none) {a : Artifact} (ha : a ∈ (generate r target o).artifacts) :
    Path.IsName a.path ∧ a.path ≠ defaultFile := by
  rcases artifact_cases hr ho ha with hruntime | ⟨outcomes, rfl⟩ | ⟨t, ht, hheaders⟩
  · rcases runtime_cases hruntime with rfl | ⟨-, rfl⟩
    · exact ⟨by decide, by decide⟩
    · exact ⟨by decide, by decide⟩
  · have hmanifest : Path.IsName Manifest.file ∧ Manifest.file ≠ defaultFile := by decide
    exact hmanifest
  · have hpath := List.mem_map_of_mem (f := Artifact.path) hheaders
    rw [runHeaders, render_paths] at hpath
    exact unitFile_isName (hr.name_valid t (mem_types_of_survivors ht)) hpath

theorem settingsFile_again {files files' : FileTree} {args : List Text} {path : Text}
    (h : settingsFile files args = .ok (some path)) (hcontains : files'.contains path = true) :
    settingsFile files' args = .ok (some path) := by
  unfold settingsFile at h ⊢
  split at h
  · cases h
  · exact h
  · split at h
    · cases h
      rw [if_pos hcontains]
    · cases h

theorem settingsFile_eq_none {files : FileTree} {args : List Text}
    (h : settingsFile files args = .ok none) :
    namedFile none args = .ok none ∧ files.contains defaultFile = false := by
  unfold settingsFile at h
  split at h
  · cases h
  · cases h
  · rename_i hnamed
    split at h
    · cases h
    · rename_i habsent
      exact ⟨hnamed, by simpa using habsent⟩

section
variable {files files' : FileTree} {args : List Text} {directory : Text}
  {artifacts : List Artifact} (hleaves : files.Leaves directory artifacts files')
include hleaves

theorem loadSettings_again {path : Text} {settings : Settings}
    (h : loadSettings files path = .ok settings)
    (hapart : ∀ a ∈ artifacts, files'.sameFile (Path.join directory a.path) path = false) :
    loadSettings files' path = .ok settings ∧ files'.contains path = true := by
  unfold loadSettings at h
  split at h
  · rename_i p content hresolve
    have hagain := hleaves.resolve hresolve hapart
    rw [loadSettings, FileTree.contains, hagain]
    exact ⟨h, rfl⟩
  all_goals cases h

/-- The usual settings file is none of the artifacts, so where it was not there it is not there
now; there may be a directory of its name. -/
theorem loadSettings_default (hnames : ∀ a ∈ artifacts, a.path ≠ defaultFile)
    (habsent : files.contains defaultFile = false) (h : files'.contains defaultFile = true) :
    ∃ fault, loadSettings files' defaultFile = .error fault := by
  have hjoin : Path.join [] defaultFile = defaultFile := by decide
  have hname : Path.IsName defaultFile := by decide
  unfold FileTree.contains at h
  split at h
  · rename_i p hresolve
    rw [loadSettings, hresolve]
    exact ⟨_, rfl⟩
  · rename_i p content hresolve
    -- a file that was not there before would be an artifact
    rw [← hjoin, FileTree.resolve_eq_ok_iff List.not_mem_nil hname] at hresolve
    obtain ⟨hfits, d, hd, hspot⟩ := hresolve
    obtain ⟨rfl, hentry⟩ := FileTree.spotAt_eq_file_iff.mp hspot.symm
    have hchanged : files'.fileAt? (d ++ [defaultFile]) ≠ files.fileAt? (d ++ [defaultFile]) := by
      intro hsame
      rw [FileTree.fileAt?_eq_some_iff.mpr hentry, eq_comm, FileTree.fileAt?_eq_some_iff] at hsame
      have hbefore : files.Holder [] d := by
        rw [FileTree.Holder, FileTree.origin, ← hleaves.workingDirectory]
        cases hd
        exact .here
      have hfile : files.file? (Path.join [] defaultFile) = some content :=
        (FileTree.file?_eq_some_iff List.not_mem_nil hname).mpr ⟨hfits, d, hbefore, hsame⟩
      rw [hjoin] at hfile
      obtain ⟨q, hq⟩ := FileTree.file?_eq_some.mp hfile
      rw [FileTree.contains, hq] at habsent
      cases habsent
    obtain ⟨a, ha, e, heq, -⟩ := hleaves.changes _ hchanged
    exact absurd (List.singleton_injective (List.append_inj' heq rfl).2).symm (hnames a ha)
  · cases h

theorem initialSettings_again (hnames : ∀ a ∈ artifacts, a.path ≠ defaultFile)
    (hapart : ∀ path, settingsFile files args = .ok (some path) →
      ∀ a ∈ artifacts, files'.sameFile (Path.join directory a.path) path = false)
    {initial : Option Text × Settings} (h : initialSettings files args = .ok initial) :
    initialSettings files' args = .ok initial ∨
      ∃ fault, initialSettings files' args = .error fault := by
  unfold initialSettings at h
  split at h
  · cases h
  · rename_i hnone
    cases h
    obtain ⟨hnamed, habsent⟩ := settingsFile_eq_none hnone
    rw [initialSettings, settingsFile, hnamed]
    dsimp only
    split_ifs with hcontains
    · obtain ⟨fault, hfault⟩ := loadSettings_default hleaves hnames habsent hcontains
      exact .inr ⟨fault, by simp only [hfault]⟩
    · exact .inl rfl
  · rename_i path hsome
    split at h
    · cases h
    · rename_i settings hload
      cases h
      obtain ⟨hload', hcontains⟩ := loadSettings_again hleaves hload (hapart path hsome)
      left
      rw [initialSettings, settingsFile_again hsome hcontains]
      dsimp only
      rw [hload']

theorem readDocument_again {path : Text} {registry : Registry}
    (h : (readDocument files path).2 = .ok registry)
    (hapart : ∀ a ∈ artifacts, files'.sameFile (Path.join directory a.path) path = false) :
    (readDocument files' path).2 = .ok registry := by
  have hread : files'.read? path = files.read? path := by
    unfold readDocument FileTree.read? at h
    cases hresolve : files.resolve path with
    | error obstacle =>
      rw [hresolve] at h
      cases h
    | ok spot =>
      cases spot with
      | file p content =>
        rw [FileTree.read?, FileTree.read?, hleaves.resolve hresolve hapart, hresolve]
      | vacant p =>
        rw [hresolve] at h
        cases h
      | directory d =>
        -- there is nothing to read in a directory, and nothing is no document
        have hempty : ∃ errors, Document.read [] = .error errors := ⟨_, rfl⟩
        obtain ⟨errors, herror⟩ := hempty
        rw [hresolve] at h
        simp [herror] at h
  unfold readDocument at h ⊢
  rwa [hread]

theorem parseOptions_again (hnames : ∀ a ∈ artifacts, a.path ≠ defaultFile)
    (hapart : ∀ path, settingsFile files args = .ok (some path) →
      ∀ a ∈ artifacts, files'.sameFile (Path.join directory a.path) path = false)
    {o : Options} (h : parseOptions files args = .ok o) :
    parseOptions files' args = .ok o ∨ ∃ fault, parseOptions files' args = .error fault := by
  unfold parseOptions at h
  split at h
  · cases h
  · rename_i path settings hinitial
    rw [parseOptions, hleaves.workingDirectory]
    rcases initialSettings_again hleaves hnames hapart hinitial with hagain | ⟨fault, hfault⟩
    · rw [hagain]
      exact .inl h
    · rw [hfault]
      exact .inr ⟨fault, rfl⟩

/-- The second run comes to the same report, or, where a directory has taken the name of the usual
settings file, to none. -/
theorem produced_again (hnames : ∀ a ∈ artifacts, a.path ≠ defaultFile) {o : Options}
    {registry : Registry} (hparse : parseOptions files args = .ok o)
    (hread : (readDocument files o.settings.documentPath).2 = .ok registry)
    (hdocument : ∀ a ∈ artifacts,
      files'.sameFile (Path.join directory a.path) o.settings.documentPath = false)
    (hsettings : ∀ path, settingsFile files args = .ok (some path) →
      ∀ a ∈ artifacts, files'.sameFile (Path.join directory a.path) path = false) :
    produced files' args = produced files args ∨ produced files' args = none := by
  unfold produced
  rcases parseOptions_again hleaves hnames hsettings hparse with hagain | ⟨fault, hfault⟩
  · rw [hparse, hagain]
    dsimp only
    rw [hread, readDocument_again hleaves hread hdocument]
    exact .inl rfl
  · rw [hfault]
    exact .inr rfl

end

theorem exists_target {files : FileTree} {args : List Text} {o : Options}
    (h : parseOptions files args = .ok o) :
    ∃ target, Target.ofName? o.settings.target = some target := by
  have hvalid : o.settings.problems = [] := by
    unfold parseOptions applyArguments validated at h
    split at h
    · cases h
    · split at h
      · cases h
      · split at h
        · rename_i hproblems
          cases h
          exact hproblems
        · cases h
  unfold Settings.problems at hvalid
  simp only [List.append_eq_nil_iff] at hvalid
  cases htarget : Target.ofName? o.settings.target with
  | none => simp [htarget] at hvalid
  | some target => exact ⟨target, rfl⟩

theorem readDocument_wellFormed {files : FileTree} {path : Text} {registry : Registry}
    (h : (readDocument files path).2 = .ok registry) : registry.WellFormed := by
  unfold readDocument at h
  split at h
  · cases h
  · rename_i text htext
    cases hread : Document.read text with
    | error errors => simp [hread] at h
    | ok r =>
      simp only [hread, Except.ok.injEq] at h
      obtain ⟨v, -, hjson⟩ := (Document.read_eq_ok_iff text r).mp hread
      obtain ⟨library, types, -, hbuild⟩ := (Document.ofJson_eq_ok_iff v r).mp hjson
      rw [← h]
      exact Registry.build_wellFormed hbuild

/-- What `generate` does once it has a report without errors. -/
structure Delivers (args rest : List Text) (env : Environment) (files : FileTree)
    (settings : Settings) (report : Report) : Prop where
  /-- The run ends well if each artifact could be written. -/
  ending : (run args env files).ending = .exit 0 ↔
    ∀ a ∈ report.artifacts, files.Admits settings.outputPath a
  leaves : (run args env files).ending = .exit 0 →
    files.Leaves settings.outputPath report.artifacts (run args env files).files
  settled : (run args env files).ending = .exit 0 → ∀ a ∈ report.artifacts,
    (run args env files).files.writeIfChanged (Path.join settings.outputPath a.path) a.content =
      (.ok false, (run args env files).files)
  again : (run args env files).ending = .exit 0 →
    (∀ a ∈ report.artifacts, ∀ path,
      path = settings.documentPath ∨ settingsFile files rest = .ok (some path) →
      (run args env files).files.sameFile (Path.join settings.outputPath a.path) path = false) →
    (run args env (run args env files).files).files = (run args env files).files

section
variable {args rest : List Text} {env : Environment} {files : FileTree} {o : Options}
  {registry : Registry} {target : Target}
  (hlog : (Log.Config.ofArguments args env.logging).file = [])
  (hargs : args = Mode.generate.name :: rest) (hparse : parseOptions files rest = .ok o)
include hlog hargs

theorem run_files_of_none (h : produced files rest = none) :
    (run args env files).files = files := by
  rw [(run_named files hlog hargs).1, filesAfter_of_none .generate h]

include hparse

theorem run_delivers (hfiles : files.WellFormed)
    (hread : (readDocument files o.settings.documentPath).2 = .ok registry)
    (htarget : Target.ofName? o.settings.target = some target)
    (hsuccess : (generate registry target o.settings.options).success = true) :
    Delivers args rest env files o.settings (generate registry target o.settings.options) := by
  have hproduced : produced files rest =
      some (o.settings, generate registry target o.settings.options) := by
    simp [produced, hparse, hread, htarget, hsuccess]
  have hr := readDocument_wellFormed hread
  have ho := problem?_eq_none_of_success hsuccess
  generalize hreport : generate registry target o.settings.options = report at hproduced
  have hnames : ∀ a ∈ report.artifacts, Path.IsName a.path ∧ a.path ≠ defaultFile := by
    rw [← hreport]
    exact fun a ha => artifact_isName hr ho ha
  have hdistinct : (report.artifacts.map Artifact.path).Nodup := by
    have hlower := nodup_lower_paths hr ho
    rw [hreport] at hlower
    exact List.Nodup.of_map Text.lower (by rwa [List.map_map])
  obtain ⟨hafter, hending⟩ := run_named files hlog hargs
  rw [filesAfter_of_some .generate hproduced, if_pos rfl] at hafter
  have hcode : (run args env files).ending = .exit 0 ↔
      ∃ count, (files.writeAll o.settings.outputPath report.artifacts).1 = .ok count := by
    rw [hending, works_iff .generate hproduced]
    simp
  have hleaves : (run args env files).ending = .exit 0 →
      files.Leaves o.settings.outputPath report.artifacts (run args env files).files := by
    intro hexit
    obtain ⟨count, hcount⟩ := hcode.mp hexit
    rw [hafter]
    exact FileTree.writeAll_leaves (fun a ha => (hnames a ha).1) hdistinct hfiles
      (Prod.ext hcount rfl)
  refine ⟨?_, hleaves, ?_, ?_⟩
  · rw [hcode]
    exact FileTree.writeAll_isOk_iff (fun a ha => (hnames a ha).1) hfiles
  · intro hexit a ha
    rw [FileTree.writeIfChanged, if_pos ((hleaves hexit).holds a ha)]
  · intro hexit hapart
    rw [(run_named _ hlog hargs).1]
    rcases produced_again (hleaves hexit) (fun a ha => (hnames a ha).2) hparse hread
      (fun a ha => hapart a ha _ (.inl rfl))
      (fun path hpath a ha => hapart a ha path (.inr hpath)) with hagain | hnone
    · rw [hproduced] at hagain
      rw [filesAfter_of_some .generate hagain, if_pos rfl,
        FileTree.writeAll_of_holds (hleaves hexit).holds]
    · exact filesAfter_of_none .generate hnone

end

/-- What commands do to the files where the log goes to none of them. -/
theorem run_effects {files : FileTree} (hfiles : files.WellFormed) (args : List Text)
    (env : Environment) (hlog : (Log.Config.ofArguments args env.logging).file = []) :
    (args.head? ≠ some Mode.generate.name → (run args env files).files = files) ∧
    ∀ rest, args = Mode.generate.name :: rest →
      (∀ fault, parseOptions files rest = .error fault → (run args env files).files = files) ∧
      ∀ o, parseOptions files rest = .ok o →
        (∀ errors, (readDocument files o.settings.documentPath).2 = .error errors →
          (run args env files).files = files) ∧
        ∀ registry, (readDocument files o.settings.documentPath).2 = .ok registry →
          ∃ target, Target.ofName? o.settings.target = some target ∧
            ((generate registry target o.settings.options).success = false →
              (run args env files).files = files) ∧
            ((generate registry target o.settings.options).success = true →
              Delivers args rest env files o.settings
                (generate registry target o.settings.options)) := by
  refine ⟨run_files_of_ne files hlog, fun rest hargs => ⟨?_, fun o hparse => ⟨?_, ?_⟩⟩⟩
  · intro fault hfault
    exact run_files_of_none hlog hargs (by simp [produced, hfault])
  · intro errors herrors
    exact run_files_of_none hlog hargs (by simp [produced, hparse, herrors])
  · intro registry hread
    obtain ⟨target, htarget⟩ := exists_target hparse
    refine ⟨target, htarget, ?_, run_delivers hlog hargs hparse hfiles hread htarget⟩
    intro hfailed
    exact run_files_of_none hlog hargs (by simp [produced, hparse, hread, htarget, hfailed])

namespace Shelf

def book : TypeDef := ⟨3, "Book", [], [], .object []⟩

def registry : Registry := ⟨[], [book]⟩

def document : Text :=
  "\x7b\"types\":[\x7b\"id\":3,\"name\":\"Book\",\"kind\":\"opaque\"\x7d]\x7d"

def files : FileTree where
  root := .directory [("w", .directory [("api.json", .file document),
    ("gen", .directory [("Book.h", .file "old"), ("notes", .file "kept")])])]
  workingDirectory := "/w"

def rest : List Text := ["--ir", "api.json", "--backend", "c", "--out", "gen"]

def output : Place := ["w", "gen"]

def settings : Settings :=
  { document := "/w/api.json", target := "c", outputDirectory := "/w/gen" }

def report : Report := generate registry .c settings.options

def names : List Text := ["Book.d.h", "Book.h", "weld-manifest.json", "weld_runtime.h"]

theorem names_plain : ∀ name ∈ names, Path.IsName name ∧ name ≠ "api.json" := by decide

theorem names_fit : ∀ name ∈ names, FileTree.Fits settings.outputPath name ∧
    files.shown? (output ++ [name]) ≠ some .directory := by
  unfold FileTree.Fits
  decide +kernel

theorem registry_wellFormed : registry.WellFormed :=
  Registry.build_wellFormed (Registry.build_of_increasing _ (by decide) (by decide) :
    Registry.build [] [book] = .ok registry)

theorem paths_perm : (report.artifacts.map Artifact.path).Perm names := by
  rw [report, generate_eq registry_wellFormed (by decide), assembleReport, sortArtifacts]
  refine ((List.mergeSort_perm _ _).map _).trans (.of_eq ?_)
  decide +kernel

theorem holder : files.Holder settings.outputPath output :=
  FileTree.reaches_of_walk (by decide +kernel)

theorem files_wellFormed : files.WellFormed where
  ordered := by
    have hgen : FileNode.Ordered
        (.directory [("Book.h", .file "old"), ("notes", .file "kept")]) :=
      .directory (by unfold Sorted.KeysIncrease; decide)
        (by simp [FileNode.Ordered.file])
    have hw : FileNode.Ordered (.directory [("api.json", .file document),
        ("gen", .directory [("Book.h", .file "old"), ("notes", .file "kept")])]) :=
      .directory (by unfold Sorted.KeysIncrease; decide) (by simp [FileNode.Ordered.file, hgen])
    exact .directory (by unfold Sorted.KeysIncrease; decide) (by simp [hw])
  workingDirectory := by decide

end Shelf

theorem run_effects_shelf :
    (run ("check" :: Shelf.rest) {} Shelf.files).files = Shelf.files ∧
    (run ("generate" :: Shelf.rest) {} Shelf.files).ending = .exit 0 ∧
    (Shelf.report.artifacts.map Artifact.path).Perm Shelf.names ∧
    Delivers ("generate" :: Shelf.rest) Shelf.rest {} Shelf.files Shelf.settings Shelf.report ∧
    (run ("generate" :: Shelf.rest) {}
        (run ("generate" :: Shelf.rest) {} Shelf.files).files).files =
      (run ("generate" :: Shelf.rest) {} Shelf.files).files := by
  have hcheck := (run_effects Shelf.files_wellFormed ("check" :: Shelf.rest) {} (by decide)).1
    (by decide)
  have hgenerate := (run_effects Shelf.files_wellFormed ("generate" :: Shelf.rest) {}
    (by decide)).2 Shelf.rest rfl
  have hparse : parseOptions Shelf.files Shelf.rest = .ok { settings := Shelf.settings } := by
    decide +kernel
  have hread : (readDocument Shelf.files Shelf.settings.documentPath).2 = .ok Shelf.registry := by
    decide +kernel
  obtain ⟨target, htarget, -, hdelivers⟩ := (hgenerate.2 _ hparse).2 _ hread
  have hc : target = .c := Option.some.inj (htarget.symm.trans (by decide +kernel))
  subst hc
  have hdelivers := hdelivers (by decide +kernel)
  have hnames : ∀ a ∈ Shelf.report.artifacts, a.path ∈ Shelf.names := fun a ha =>
    Shelf.paths_perm.mem_iff.mp (List.mem_map_of_mem ha)
  have hexit : (run ("generate" :: Shelf.rest) {} Shelf.files).ending = .exit 0 := by
    rw [hdelivers.ending]
    intro a ha
    have hplain := Shelf.names_plain a.path (hnames a ha)
    have hready := FileTree.ready_of_holder (by decide) (by decide) Shelf.holder
    rw [hready.admits_iff (by decide) hplain.1]
    exact Shelf.names_fit a.path (hnames a ha)
  refine ⟨hcheck, hexit, Shelf.paths_perm, hdelivers, hdelivers.again hexit ?_⟩
  rintro a ha path (rfl | hsettings)
  · have hplain := Shelf.names_plain a.path (hnames a ha)
    have hdocument : Path.join "/w" "api.json" = Shelf.settings.documentPath := by decide
    rw [← hdocument]
    exact FileTree.sameFile_of_names (by decide) (by decide) hplain.1 (by decide) hplain.2
  · have hnone : settingsFile Shelf.files Shelf.rest = .ok none := by decide +kernel
    rw [hnone] at hsettings
    cases hsettings

end Bindery.Command
