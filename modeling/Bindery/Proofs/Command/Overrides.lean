import Bindery.Proofs.Command.Pieces
import Mathlib.Data.List.Induction

/-!
Options over settings. Where every option of the command line is written out with a value that fits
it, each setting is the one of the last option for it, and that of the settings file where there is
none. So options for different settings may stand in any order, and each in any of its forms.
-/

set_option autoImplicit false

namespace Bindery.Command

/-- How an option is written with its value: `--key=value`, `--key value` or `-j value`. -/
inductive Form where
  | joined
  | apart
  | short
  deriving DecidableEq, Repr

def Key.Fits : Key → Text → Prop
  | .document, value | .output, value => value ≠ []
  | .jobs, value | .pointerWidth, value => (integer? value).isSome = true
  | _, _ => True

instance : (key : Key) → (value : Text) → Decidable (key.Fits value)
  | .document, value | .output, value => inferInstanceAs (Decidable (value ≠ []))
  | .jobs, value | .pointerWidth, value =>
    inferInstanceAs (Decidable ((integer? value).isSome = true))
  | .config, _ | .target, _ | .feature, _ | .hostNamespace, _ => .isTrue trivial

/-- An option with its value. Only the number of jobs has a short form. -/
structure Valued where
  key : Key
  form : Form
  value : Text
  fits : key.Fits value := by decide
  plain : ¬ NamesFile value := by decide
  short : form = .short → key = .jobs := by decide

inductive Group where
  | valued (v : Valued)
  | withoutManifest
  | format (f : Diagnostic.Format)
  | logging (flag : Text) (h : Log.isOption flag = true)

def Valued.args (v : Valued) : List Text :=
  match v.form with
  | .joined => [v.key.flag ++ "=" ++ v.value]
  | .apart => [v.key.flag, v.value]
  | .short => ["-j", v.value]

namespace Group

def args : Group → List Text
  | valued v => v.args
  | withoutManifest => ["--no-manifest"]
  | format f => ["--diagnostic-format=" ++ f.name]
  | logging flag _ => [flag]

def value? (key : Key) : Group → Option Text
  | valued v => if v.key = key then some v.value else none
  | _ => none

def manifest? : Group → Option Bool
  | withoutManifest => some false
  | _ => none

def format? : Group → Option Diagnostic.Format
  | format f => some f
  | _ => none

end Group

/-- The arguments that the groups are written as. -/
def spelled (gs : List Group) : List Text := gs.flatMap Group.args

/-- What the last of the groups tells that tells anything. -/
def latest {β : Type} (tells : Group → Option β) (gs : List Group) : Option β :=
  (gs.filterMap tells).getLast?

/-- The options that groups lead to, each setting for itself: the last value given to it, or else
what it was at the start. Paths are taken from the working directory; features are collected. -/
def settled (directory : Text) (start : Settings) (gs : List Group) : Options where
  settings :=
    { document := ((latest (Group.value? .document) gs).map (Path.join directory)).getD
        start.document
      target := (latest (Group.value? .target) gs).getD start.target
      outputDirectory := ((latest (Group.value? .output) gs).map (Path.join directory)).getD
        start.outputDirectory
      features :=
        if gs.filterMap (Group.value? .feature) = [] then start.features
        else gs.filterMap (Group.value? .feature)
      jobs := ((latest (Group.value? .jobs) gs).bind integer?).getD start.jobs
      pointerWidth := ((latest (Group.value? .pointerWidth) gs).bind integer?).getD
        start.pointerWidth
      manifest := (latest Group.manifest? gs).getD start.manifest
      hostNamespace := (latest (Group.value? .hostNamespace) gs).getD start.hostNamespace
      base := start.base }
  format := (latest Group.format? gs).getD .text

namespace Group

def piece : Group → Piece
  | valued v => if v.form = .joined then .joined v.key v.value else .paired v.key v.value
  | withoutManifest => .single "--no-manifest"
  | format f => .single ("--diagnostic-format=" ++ f.name)
  | logging flag _ => .single flag

theorem ofText_logging {flag : Text} (h : Log.isOption flag = true) :
    Argument.ofText flag = .logging := by
  simp only [Argument.ofText, Argument.special?, h, if_true]

theorem ofText_format (f : Diagnostic.Format) :
    Argument.ofText ("--diagnostic-format=" ++ f.name) = .format f.name := by
  cases f <;> rfl

theorem ofName?_name (f : Diagnostic.Format) : Diagnostic.Format.ofName? f.name = some f := by
  cases f <;> rfl

theorem isSwitch_format (f : Diagnostic.Format) : IsSwitch ("--diagnostic-format=" ++ f.name) := by
  rw [IsSwitch, ofText_format]
  exact ⟨fun _ => Argument.noConfusion, fun _ _ => Argument.noConfusion⟩

theorem isSwitch_logging {flag : Text} (h : Log.isOption flag = true) : IsSwitch flag := by
  rw [IsSwitch, ofText_logging h]
  exact ⟨fun _ => Argument.noConfusion, fun _ _ => Argument.noConfusion⟩

theorem pieces_args (g : Group) (rest : List Text) :
    pieces (g.args ++ rest) = g.piece :: pieces rest := by
  cases g with
  | valued v =>
    obtain ⟨key, form, value, fits, plain, short⟩ := v
    cases form with
    | joined => exact pieces_inline (ofText_joined key value) rest
    | apart => exact pieces_separate (ofText_flag key) rest
    | short =>
      obtain rfl := short rfl
      exact pieces_separate rfl rest
  | withoutManifest => exact pieces_switch (isSwitch_of_special? rfl) rest
  | format f => exact pieces_switch (isSwitch_format f) rest
  | logging flag h => exact pieces_switch (isSwitch_logging h) rest

def change (directory : Text) : Group → Option Assignment
  | valued v =>
    match v.key with
    | .config => none
    | .document => some (.document (Path.join directory v.value))
    | .target => some (.target v.value)
    | .output => some (.output (Path.join directory v.value))
    | .feature => some (.feature v.value)
    | .hostNamespace => some (.hostNamespace v.value)
    | .jobs => (integer? v.value).map .jobs
    | .pointerWidth => (integer? v.value).map .pointerWidth
  | withoutManifest => some .withoutManifest
  | format f => some (.format f)
  | logging _ _ => none

theorem assignment_valued (directory : Text) (v : Valued) :
    assignment directory v.key v.value = .ok ((valued v).change directory) := by
  obtain ⟨key, form, value, fits, plain, short⟩ := v
  cases key with
  | document | output =>
    have hne : value.isEmpty = false := List.isEmpty_eq_false_iff.mpr fits
    simp only [assignment, requirePath, hne, change]
    rfl
  | jobs | pointerWidth =>
    obtain ⟨n, hn⟩ := Option.isSome_iff_exists.mp fits
    simp only [assignment, requireInteger, hn, change]
    rfl
  | _ => rfl

theorem change_piece (directory : Text) (g : Group) :
    g.piece.change directory = .ok (g.change directory) := by
  cases g with
  | valued v =>
    rw [piece]
    split_ifs <;> exact assignment_valued directory v
  | withoutManifest => rfl
  | format f =>
    rw [piece, Piece.change, ofText_format]
    simp only [formatAssignment, ofName?_name]
    rfl
  | logging flag h =>
    rw [piece, Piece.change, ofText_logging h]
    rfl

end Group

theorem pieces_spelled (gs : List Group) : pieces (spelled gs) = gs.map Group.piece := by
  induction gs with
  | nil => rfl
  | cons g gs ih => rw [spelled, List.flatMap_cons, Group.pieces_args, List.map_cons, ← ih, spelled]

theorem assignments_spelled (directory : Text) (gs : List Group) :
    assignments directory (spelled gs) = .ok (gs.filterMap (Group.change directory)) := by
  rw [assignments_eq_foldr, pieces_spelled]
  induction gs with
  | nil => rfl
  | cons g gs ih =>
    rw [List.map_cons, List.foldr_cons, ih, Group.change_piece]
    cases hg : g.change directory with
    | none => rw [List.filterMap_cons_none hg, followed_none]
    | some a =>
      rw [List.filterMap_cons_some hg]
      rfl

theorem not_disguised_piece (g : Group) : ¬ g.piece.Disguised := by
  cases g with
  | valued v =>
    rw [Group.piece]
    split_ifs
    · exact id
    · exact fun h => v.plain h.2
  | _ => exact id

theorem piece_ne_bare (g : Group) (key : Key) : g.piece ≠ .bare key := by
  cases g with
  | valued v =>
    rw [Group.piece]
    split_ifs <;> simp
  | _ => simp [Group.piece]

theorem file?_piece (g : Group) : g.piece.file? = g.value? .config := by
  cases g with
  | valued v =>
    rw [Group.piece]
    split_ifs <;> rfl
  | _ => rfl

theorem namedFile_spelled (gs : List Group) :
    namedFile none (spelled gs) = .ok (latest (Group.value? .config) gs) := by
  have hplain : ∀ p ∈ pieces (spelled gs), ¬ p.Disguised := by
    rw [pieces_spelled, List.forall_mem_map]
    exact fun g _ => not_disguised_piece g
  have hbare : Piece.bare .config ∉ gs.map Group.piece := by
    rw [List.mem_map]
    rintro ⟨g, -, hg⟩
    exact piece_ne_bare g .config hg
  have hfile : Piece.file? ∘ Group.piece = Group.value? .config := funext file?_piece
  rw [namedFile_eq_recognised hplain, recognised, pieces_spelled, if_neg hbare, Option.or_none,
    List.filterMap_map, hfile, latest]

theorem latest_concat {β : Type} (tells : Group → Option β) (gs : List Group) (g : Group) :
    latest tells (gs ++ [g]) = (tells g).or (latest tells gs) := by
  rw [latest, List.filterMap_append, List.getLast?_append, latest]
  cases hg : tells g <;> simp [hg]

theorem latest_bind {β γ : Type} {tells : Group → Option β} {f : β → Option γ} {gs : List Group}
    (h : ∀ g ∈ gs, ∀ b, tells g = some b → (f b).isSome = true) :
    latest (fun g => (tells g).bind f) gs = (latest tells gs).bind f := by
  induction gs using List.reverseRecOn with
  | nil => rfl
  | append_singleton gs g ih =>
    rw [latest_concat, latest_concat, ih fun g' hg' => h g' (by simp [hg'])]
    cases hg : tells g with
    | none => simp
    | some b =>
      obtain ⟨c, hc⟩ := Option.isSome_iff_exists.mp (h g (by simp) b hg)
      simp [hc]

theorem latest_map {β γ : Type} (tells : Group → Option β) (f : β → γ) (gs : List Group) :
    latest (fun g => (tells g).map f) gs = (latest tells gs).map f := by
  simp only [Option.map_eq_bind]
  exact latest_bind fun _ _ _ _ => rfl

theorem latest_number {key : Key} (hkey : key = .jobs ∨ key = .pointerWidth) (gs : List Group) :
    latest (fun g => (g.value? key).bind integer?) gs =
      (latest (Group.value? key) gs).bind integer? := by
  apply latest_bind
  intro g _ value hvalue
  cases g with
  | valued v =>
    rw [Group.value?, Option.ite_none_right_eq_some] at hvalue
    obtain ⟨rfl, ⟨⟩⟩ := hvalue
    have hfits := v.fits
    obtain hkey | hkey := hkey <;> rwa [hkey] at hfits
  | _ => cases hvalue

/-- A part of the options that changes give a value. Features are none, since they are collected. -/
inductive Slot where
  | document
  | target
  | output
  | hostNamespace
  | jobs
  | pointerWidth
  | manifest
  | format

namespace Slot

abbrev Value : Slot → Type
  | document | target | output | hostNamespace => Text
  | jobs | pointerWidth => Int
  | manifest => Bool
  | format => Diagnostic.Format

def get (o : Options) : (slot : Slot) → slot.Value
  | document => o.settings.document
  | target => o.settings.target
  | output => o.settings.outputDirectory
  | hostNamespace => o.settings.hostNamespace
  | jobs => o.settings.jobs
  | pointerWidth => o.settings.pointerWidth
  | manifest => o.settings.manifest
  | format => o.format

def given : (slot : Slot) → Assignment → Option slot.Value
  | document, .document path => some path
  | target, .target name => some name
  | output, .output path => some path
  | hostNamespace, .hostNamespace ns => some ns
  | jobs, .jobs count => some count
  | pointerWidth, .pointerWidth width => some width
  | manifest, .withoutManifest => some false
  | format, .format f => some f
  | _, _ => none

def told (directory : Text) : (slot : Slot) → Group → Option slot.Value
  | document, g => (g.value? .document).map (Path.join directory)
  | target, g => g.value? .target
  | output, g => (g.value? .output).map (Path.join directory)
  | hostNamespace, g => g.value? .hostNamespace
  | jobs, g => (g.value? .jobs).bind integer?
  | pointerWidth, g => (g.value? .pointerWidth).bind integer?
  | manifest, g => g.manifest?
  | format, g => g.format?

theorem get_apply (slot : Slot) (o : Options) (a : Assignment) :
    get (o.apply a) slot = (slot.given a).getD (get o slot) := by
  cases slot <;> cases a <;> rfl

theorem change_bind_given (directory : Text) (slot : Slot) (g : Group) :
    (g.change directory).bind slot.given = slot.told directory g := by
  cases g with
  | valued v =>
    obtain ⟨key, form, value, fits, plain, short⟩ := v
    cases key with
    | jobs | pointerWidth =>
      cases h : integer? value <;> cases slot <;>
        simp [Group.change, h, given, told, Group.value?, Group.manifest?, Group.format?]
    | _ => cases slot <;> rfl
  | _ => cases slot <;> rfl

theorem get_foldl_apply (slot : Slot) (changes : List Assignment) (o : Options) :
    get (changes.foldl Options.apply o) slot =
      (changes.filterMap slot.given).getLast?.getD (get o slot) := by
  induction changes generalizing o with
  | nil => rfl
  | cons a changes ih =>
    have hcons := getLast?_filterMap_cons slot.given a changes none
    rw [Option.or_none, Option.or_none] at hcons
    rw [List.foldl_cons, ih, get_apply, ← Option.getD_or, hcons]

theorem get_changes (directory : Text) (slot : Slot) (gs : List Group) (o : Options) :
    get ((gs.filterMap (Group.change directory)).foldl Options.apply o) slot =
      (latest (slot.told directory) gs).getD (get o slot) := by
  rw [get_foldl_apply, List.filterMap_filterMap, latest]
  simp only [change_bind_given]

theorem get_settled (directory : Text) (start : Settings) (slot : Slot) (gs : List Group) :
    get (settled directory start gs) slot =
      (latest (slot.told directory) gs).getD (get { settings := start } slot) := by
  cases slot with
  | document | output => exact congrArg (Option.getD · _) (latest_map _ _ gs).symm
  | jobs => exact congrArg (Option.getD · _) (latest_number (.inl rfl) gs).symm
  | pointerWidth => exact congrArg (Option.getD · _) (latest_number (.inr rfl) gs).symm
  | _ => rfl

end Slot

theorem options_eq {o p : Options} (hslots : ∀ slot, Slot.get o slot = Slot.get p slot)
    (hfeatures : o.settings.features = p.settings.features)
    (hbase : o.settings.base = p.settings.base) : o = p := by
  have hdocument := hslots .document
  have htarget := hslots .target
  have houtput := hslots .output
  have hnamespace := hslots .hostNamespace
  have hjobs := hslots .jobs
  have hwidth := hslots .pointerWidth
  have hmanifest := hslots .manifest
  have hformat := hslots .format
  obtain ⟨⟨_, _, _, _, _, _, _, _, _⟩, _⟩ := o
  obtain ⟨⟨_, _, _, _, _, _, _, _, _⟩, _⟩ := p
  simp_all [Slot.get]

theorem features_change (directory : Text) (gs : List Group) :
    (gs.filterMap (Group.change directory)).filterMap Assignment.feature? =
      gs.filterMap (Group.value? .feature) := by
  rw [List.filterMap_filterMap]
  congr 1
  funext g
  cases g with
  | valued v =>
    obtain ⟨key, form, value, fits, plain, short⟩ := v
    cases key with
    | jobs | pointerWidth => cases h : integer? value <;> simp [Group.change, h] <;> rfl
    | _ => rfl
  | _ => rfl

theorem foldl_apply_unchanged (changes : List Assignment) (o : Options) :
    (changes.foldl Options.apply o).settings.features = o.settings.features ∧
      (changes.foldl Options.apply o).settings.base = o.settings.base := by
  induction changes generalizing o with
  | nil => exact ⟨rfl, rfl⟩
  | cons a changes ih =>
    have hstep : (o.apply a).settings.features = o.settings.features ∧
        (o.apply a).settings.base = o.settings.base := by cases a <;> exact ⟨rfl, rfl⟩
    rw [List.foldl_cons, (ih _).1, (ih _).2]
    exact hstep

theorem get_withFeatures (o : Options) (features : List Text) (slot : Slot) :
    Slot.get (withFeatures o features) slot = Slot.get o slot := by
  unfold withFeatures
  split_ifs
  · rfl
  · cases slot <;> rfl

/-- The groups lead from any settings to those in which each is settled for itself. -/
theorem changed_spelled (directory : Text) (start : Settings) (gs : List Group) :
    changed start (gs.filterMap (Group.change directory)) = settled directory start gs := by
  obtain ⟨hfeatures, hbase⟩ := foldl_apply_unchanged (gs.filterMap (Group.change directory))
    { settings := start }
  apply options_eq
  · intro slot
    rw [changed, get_withFeatures, Slot.get_changes, Slot.get_settled]
  · rw [changed, features_change, withFeatures, settled]
    by_cases h : gs.filterMap (Group.value? .feature) = []
    · simp [h, hfeatures]
    · simp [h]
  · rw [changed, withFeatures]
    split_ifs <;> exact hbase

theorem parseOptions_spelled (files : FileTree) (gs : List Group) :
    parseOptions files (spelled gs) =
      (startFrom files (latest (Group.value? .config) gs)).bind fun start =>
        validated (settled files.workingDirectory start gs) := by
  rw [parseOptions_eq, namedFile_spelled, Except.bind]
  simp only [applyArguments, assignments_spelled, changed_spelled]

inductive Topic where
  | option (key : Key)
  | manifest
  | format
  | logging (flag : Text)
  deriving DecidableEq

def Group.topic : Group → Topic
  | valued v => .option v.key
  | withoutManifest => .manifest
  | format _ => .format
  | logging flag _ => .logging flag

/-- Neighbours about different options change places, and options are written in another form. -/
inductive Rearranged : List Group → List Group → Prop where
  | refl (gs : List Group) : Rearranged gs gs
  | swap (g g' : Group) (gs : List Group) :
    g.topic ≠ g'.topic → Rearranged (g :: g' :: gs) (g' :: g :: gs)
  | respell (v v' : Valued) (gs : List Group) :
    v.key = v'.key → v.value = v'.value → Rearranged (.valued v :: gs) (.valued v' :: gs)
  | cons (g : Group) {gs gs' : List Group} :
    Rearranged gs gs' → Rearranged (g :: gs) (g :: gs')
  | trans {gs gs' gs'' : List Group} :
    Rearranged gs gs' → Rearranged gs' gs'' → Rearranged gs gs''

/-- Only groups about one topic tell anything, and what they tell is in their values. -/
structure About {β : Type} (topic : Topic) (tells : Group → Option β) : Prop where
  topic_eq {g : Group} {b : β} : tells g = some b → g.topic = topic
  respelled {v v' : Valued} :
    v.key = v'.key → v.value = v'.value → tells (.valued v) = tells (.valued v')

theorem about_value (key : Key) : About (.option key) (Group.value? key) where
  topic_eq {g b} h := by
    cases g with
    | valued v =>
      rw [Group.value?, Option.ite_none_right_eq_some] at h
      exact congrArg Topic.option h.1
    | _ => cases h
  respelled hkey hvalue := by rw [Group.value?, hkey, hvalue, Group.value?]

theorem about_manifest : About .manifest Group.manifest? where
  topic_eq {g b} h := by
    cases g with
    | withoutManifest => rfl
    | _ => cases h
  respelled _ _ := rfl

theorem about_format : About .format Group.format? where
  topic_eq {g b} h := by
    cases g with
    | format f => rfl
    | _ => cases h
  respelled _ _ := rfl

theorem About.filterMap_eq {β : Type} {topic : Topic} {tells : Group → Option β}
    (h : About topic tells) {gs gs' : List Group} (hgs : Rearranged gs gs') :
    gs'.filterMap tells = gs.filterMap tells := by
  induction hgs with
  | refl gs => rfl
  | swap g g' gs hne =>
    cases hg : tells g with
    | none => simp only [List.filterMap_cons, hg]
    | some b =>
      cases hg' : tells g' with
      | none => simp only [List.filterMap_cons, hg, hg']
      | some b' => exact absurd ((h.topic_eq hg).trans (h.topic_eq hg').symm) hne
  | respell v v' gs hkey hvalue => simp only [List.filterMap_cons, h.respelled hkey hvalue]
  | cons g _ ih => simp only [List.filterMap_cons, ih]
  | trans _ _ ih ih' => exact ih'.trans ih

theorem About.latest_eq {β : Type} {topic : Topic} {tells : Group → Option β}
    (h : About topic tells) {gs gs' : List Group} (hgs : Rearranged gs gs') :
    latest tells gs' = latest tells gs := by
  rw [latest, h.filterMap_eq hgs, latest]

theorem Rearranged.settled_eq {gs gs' : List Group} (h : Rearranged gs gs') (directory : Text)
    (start : Settings) : settled directory start gs' = settled directory start gs := by
  simp only [settled, (about_value _).latest_eq h, (about_value _).filterMap_eq h,
    about_manifest.latest_eq h, about_format.latest_eq h]

theorem Rearranged.parseOptions_eq {gs gs' : List Group} (h : Rearranged gs gs')
    (files : FileTree) : parseOptions files (spelled gs') = parseOptions files (spelled gs) := by
  simp only [parseOptions_spelled, (about_value _).latest_eq h, h.settled_eq]

/-- Options written out with values that fit them change any settings to those in which each is the
last value given to it, or else as it was. So it is with the settings of the file that the last
option for it names. Options that are written in another form, or change places with options for
other settings, come to the same. -/
theorem options_override (gs : List Group) :
    (∀ directory, ∃ changes, assignments directory (spelled gs) = .ok changes ∧
      ∀ start, changed start changes = settled directory start gs) ∧
    (∀ files, parseOptions files (spelled gs) =
      (startFrom files (latest (Group.value? .config) gs)).bind fun start =>
        validated (settled files.workingDirectory start gs)) ∧
    ∀ gs', Rearranged gs gs' →
      (∀ directory start, settled directory start gs' = settled directory start gs) ∧
      ∀ files, parseOptions files (spelled gs') = parseOptions files (spelled gs) :=
  ⟨fun directory => ⟨_, assignments_spelled directory gs, fun start => changed_spelled _ start gs⟩,
    fun files => parseOptions_spelled files gs,
    fun _ h => ⟨h.settled_eq, h.parseOptions_eq⟩⟩

namespace Crossing

def jobs : Group := .valued { key := .jobs, form := .joined, value := "2" }

def jobsAgain : Group := .valued { key := .jobs, form := .short, value := "8" }

def feature : Valued := { key := .feature, form := .apart, value := "--ir" }

def featureJoined : Valued := { key := .feature, form := .joined, value := "--ir" }

def verbose : Group := .logging "-vv" rfl

def start : Settings := { features := ["tides"], jobs := 3, manifest := true }

theorem rearranged : Rearranged [jobs, .valued feature, verbose, .withoutManifest, jobsAgain]
    [.valued featureJoined, jobs, verbose, jobsAgain, .withoutManifest] :=
  .trans (.swap jobs (.valued feature) _ (by decide)) (.trans
    (.respell feature featureJoined _ rfl rfl)
    (.cons _ (.cons _ (.cons _ (.swap .withoutManifest jobsAgain [] (by decide))))))

end Crossing

theorem options_override_crossing :
    spelled [Crossing.jobs, .valued Crossing.feature, Crossing.verbose, .withoutManifest,
      Crossing.jobsAgain] = ["--jobs=2", "--feature", "--ir", "-vv", "--no-manifest", "-j", "8"] ∧
    settled "/sea" Crossing.start [.valued Crossing.featureJoined, Crossing.jobs, Crossing.verbose,
      Crossing.jobsAgain, .withoutManifest] =
        ⟨{ features := ["--ir"], jobs := 8, manifest := false }, .text⟩ ∧
    ∀ files, parseOptions files ["--feature=--ir", "--jobs=2", "-vv", "-j", "8", "--no-manifest"] =
      parseOptions files ["--jobs=2", "--feature", "--ir", "-vv", "--no-manifest", "-j", "8"] :=
  ⟨rfl, rfl, ((options_override _).2.2 _ Crossing.rearranged).2⟩

end Bindery.Command
