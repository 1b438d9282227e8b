import Bindery.Command.Options
import Bindery.Proofs.Json.Numerals

/-!
The two passes over the arguments of a command. The pass that changes the settings cuts the
arguments into pieces, where an option and the argument that is its value are one piece. The pass
before it, which looks for the settings file, takes every argument for itself. The two agree on the
file unless the value of another option looks like the option that names one.
-/

set_option autoImplicit false

namespace Bindery.Command

/-- An option with its value behind an equals sign, an option with the next argument as its value,
an option at the end of the arguments, where no value follows, or any other argument. -/
inductive Piece where
  | joined (key : Key) (value : Text)
  | paired (key : Key) (value : Text)
  | bare (key : Key)
  | single (arg : Text)
  deriving DecidableEq, Repr

/-- The pieces that the pass over the settings cuts the arguments into. -/
def pieces : List Text → List Piece
  | [] => []
  | arg :: rest =>
    match Argument.ofText arg with
    | .inline key value => .joined key value :: pieces rest
    | .separate key =>
      match rest with
      | [] => [.bare key]
      | value :: rest => .paired key value :: pieces rest
    | _ => .single arg :: pieces rest

namespace Piece

def change (directory : Text) : Piece → Except OptionFault (Option Assignment)
  | joined key value => assignment directory key value
  | paired key value => assignment directory key value
  | bare key => if key = .config then .ok none else .error (.usage (.valueRequired key))
  | single arg =>
    match Argument.ofText arg with
    | .withoutManifest => .ok (some .withoutManifest)
    | .format name => formatAssignment name
    | .unknown => .error (.usage (.unknownOption arg))
    | _ => .ok none

def key? : Piece → Option Key
  | joined key _ | paired key _ | bare key => some key
  | single _ => none

def file? : Piece → Option Text
  | joined key value | paired key value => if key = .config then some value else none
  | bare _ | single _ => none

end Piece

/-- An argument that the search for the settings file takes for the option that names it. -/
def NamesFile (arg : Text) : Prop :=
  arg = Key.config.flag ∨ ∃ path, arg = Key.config.flag ++ "=" ++ path

/-- The value of another option that looks like the option that names the settings file. -/
def Piece.Disguised : Piece → Prop
  | paired key value => key ≠ .config ∧ NamesFile value
  | _ => False

instance (arg : Text) : Decidable (NamesFile arg) :=
  decidable_of_iff (arg = Key.config.flag ∨ (Text.after? "--config=" arg).isSome)
    (or_congr_right (by simp only [Option.isSome_iff_exists, Json.after?_eq_some_iff]; rfl))

instance : DecidablePred Piece.Disguised
  | .paired key value => inferInstanceAs (Decidable (key ≠ .config ∧ NamesFile value))
  | .joined _ _ | .bare _ | .single _ => .isFalse id

theorem followed_none (others : Except OptionFault (List Assignment)) :
    followed (.ok none) others = others := by
  cases others <;> rfl

/-- The pass over the settings takes the pieces one after the other and stops at the first fault. -/
theorem assignments_eq_foldr (directory : Text) (args : List Text) :
    assignments directory args =
      (pieces args).foldr (fun p rest => followed (p.change directory) rest) (.ok []) := by
  fun_induction pieces args with
  | case1 => rfl
  | case2 arg rest key value harg ih =>
    rw [assignments, harg, List.foldr_cons, ← ih, Piece.change]
  | case3 arg key harg =>
    rw [assignments, harg, List.foldr_cons, List.foldr_nil, Piece.change]
    dsimp only
    split_ifs <;> rfl
  | case4 arg key harg value rest ih =>
    rw [assignments, harg, List.foldr_cons, ← ih, Piece.change]
  | case5 arg rest hinline hseparate ih =>
    rw [assignments, List.foldr_cons, ← ih, Piece.change]
    cases h : Argument.ofText arg with
    | inline key value => exact absurd h (hinline key value)
    | separate key => exact absurd h (hseparate key)
    | logging => exact (followed_none _).symm
    | _ => rfl

theorem ofText_flag (key : Key) : Argument.ofText key.flag = .separate key := by
  cases key <;> rfl

theorem ofText_joined (key : Key) (value : Text) :
    Argument.ofText (key.flag ++ "=" ++ value) = .inline key value := by
  cases key <;> rfl

/-- An argument that `ofText` takes neither for an option without its value nor for one with it. -/
def IsSwitch (arg : Text) : Prop :=
  (∀ key, Argument.ofText arg ≠ .separate key) ∧
    ∀ key value, Argument.ofText arg ≠ .inline key value

theorem exists_of_separate? {arg : Text} {a : Argument} (h : Argument.separate? arg = some a) :
    ∃ key, a = .separate key ∧ (arg = key.flag ∨ arg = "-j" ∧ key = .jobs) := by
  unfold Argument.separate? at h
  split_ifs at h with hshort
  · exact ⟨.jobs, (Option.some.inj h).symm, .inr ⟨hshort, rfl⟩⟩
  · obtain ⟨key, hkey, rfl⟩ := Option.map_eq_some_iff.mp h
    have hflag := List.find?_some (p := fun k => Key.flag k == arg) hkey
    exact ⟨key, rfl, .inl (beq_iff_eq.mp hflag).symm⟩

theorem exists_of_inline? {arg : Text} {a : Argument} (h : Argument.inline? arg = some a) :
    ∃ key value, a = .inline key value ∧ arg = key.flag ++ "=" ++ value := by
  obtain ⟨key, -, hkey⟩ := List.exists_of_findSome?_eq_some h
  obtain ⟨value, hvalue, rfl⟩ := Option.map_eq_some_iff.mp hkey
  exact ⟨key, value, rfl, Json.after?_eq_some_iff.mp hvalue⟩

theorem isSwitch_of_special? {arg : Text} {a : Argument} (h : Argument.special? arg = some a) :
    IsSwitch arg := by
  have harg : Argument.ofText arg = a := by rw [Argument.ofText, h]
  rw [IsSwitch, harg]
  unfold Argument.special? at h
  split_ifs at h with hlog hmanifest
  · cases h
    exact ⟨fun _ => Argument.noConfusion, fun _ _ => Argument.noConfusion⟩
  · cases h
    exact ⟨fun _ => Argument.noConfusion, fun _ _ => Argument.noConfusion⟩
  · obtain ⟨name, -, rfl⟩ := Option.map_eq_some_iff.mp h
    exact ⟨fun _ => Argument.noConfusion, fun _ _ => Argument.noConfusion⟩

theorem ofText_cases (arg : Text) :
    (∃ key, Argument.ofText arg = .separate key ∧ (arg = key.flag ∨ arg = "-j" ∧ key = .jobs)) ∨
      (∃ key value, Argument.ofText arg = .inline key value ∧ arg = key.flag ++ "=" ++ value) ∨
      IsSwitch arg := by
  cases hspecial : Argument.special? arg with
  | some a => exact .inr (.inr (isSwitch_of_special? hspecial))
  | none =>
    cases hseparate : Argument.separate? arg with
    | some a =>
      obtain ⟨key, rfl, harg⟩ := exists_of_separate? hseparate
      exact .inl ⟨key, by simp only [Argument.ofText, hspecial, hseparate], harg⟩
    | none =>
      cases hinline : Argument.inline? arg with
      | some a =>
        obtain ⟨key, value, rfl, harg⟩ := exists_of_inline? hinline
        refine .inr (.inl ⟨key, value, ?_, harg⟩)
        simp only [Argument.ofText, hspecial, hseparate, hinline, Option.getD_some]
      | none =>
        have harg : Argument.ofText arg = .unknown := by
          simp only [Argument.ofText, hspecial, hseparate, hinline, Option.getD_none]
        refine .inr (.inr ?_)
        rw [IsSwitch, harg]
        exact ⟨fun _ => Argument.noConfusion, fun _ _ => Argument.noConfusion⟩

section
variable {arg value : Text} {key : Key}

theorem pieces_inline (h : Argument.ofText arg = .inline key value) (rest : List Text) :
    pieces (arg :: rest) = .joined key value :: pieces rest := by
  rw [pieces.eq_def]
  simp only [h]

theorem pieces_separate (h : Argument.ofText arg = .separate key) (rest : List Text) :
    pieces (arg :: value :: rest) = .paired key value :: pieces rest := by
  rw [pieces.eq_def]
  simp only [h]

theorem pieces_switch (h : IsSwitch arg) (rest : List Text) :
    pieces (arg :: rest) = .single arg :: pieces rest := by
  rw [pieces.eq_def]
  dsimp only
  cases harg : Argument.ofText arg with
  | separate key => exact absurd harg (h.1 key)
  | inline key value => exact absurd harg (h.2 key value)
  | _ => rfl

end

theorem NamesFile.ofText {arg : Text} (h : NamesFile arg) :
    Argument.ofText arg = .separate .config ∨
      ∃ path, Argument.ofText arg = .inline .config path := by
  obtain rfl | ⟨path, rfl⟩ := h
  · exact .inl (ofText_flag .config)
  · exact .inr ⟨path, ofText_joined .config path⟩

theorem eq_flag_of_separate {arg : Text} (h : Argument.ofText arg = .separate .config) :
    arg = Key.config.flag := by
  obtain ⟨key, hkey, harg⟩ | ⟨key, value, hkey, -⟩ | hswitch := ofText_cases arg
  · obtain rfl : key = .config := by simpa [hkey] using h
    simpa using harg
  · simp [hkey] at h
  · exact absurd h (hswitch.1 _)

theorem eq_joined_of_inline {arg value : Text} {key : Key}
    (h : Argument.ofText arg = .inline key value) : arg = key.flag ++ "=" ++ value := by
  obtain ⟨key', hkey, -⟩ | ⟨key', value', hkey, harg⟩ | hswitch := ofText_cases arg
  · simp [hkey] at h
  · obtain ⟨rfl, rfl⟩ : key' = key ∧ value' = value := by simpa [hkey] using h
    exact harg
  · exact absurd h (hswitch.2 _ _)

theorem namedFile_skip {arg : Text} (h : ¬ NamesFile arg) (found : Option Text)
    (rest : List Text) : namedFile found (arg :: rest) = namedFile found rest := by
  have hflag : arg ≠ Key.config.flag := fun harg => h (.inl harg)
  have hjoined : Text.after? "--config=" arg = none := by
    rw [Option.eq_none_iff_forall_ne_some]
    exact fun path hpath => h (.inr ⟨path, Json.after?_eq_some_iff.mp hpath⟩)
  rw [namedFile.eq_def]
  dsimp only
  rw [if_neg hflag, hjoined]

theorem namedFile_flag (found : Option Text) (path : Text) (rest : List Text) :
    namedFile found (Key.config.flag :: path :: rest) = namedFile (some path) rest := by
  rw [namedFile, if_pos rfl]

theorem namedFile_joined (found : Option Text) (path : Text) (rest : List Text) :
    namedFile found ((Key.config.flag ++ "=" ++ path) :: rest) = namedFile (some path) rest := by
  have hjoined : Text.after? "--config=" (Key.config.flag ++ "=" ++ path) = some path :=
    Json.after?_eq_some_iff.mpr rfl
  rw [namedFile.eq_def]
  dsimp only
  rw [if_neg (by simp [ascii]), hjoined]

theorem namedFile_ne_none {found : Option Text} (h : found ≠ none) (args : List Text) :
    namedFile found args ≠ .ok none := by
  fun_induction namedFile found args with
  | case1 => simpa using h
  | case2 => simp
  | case3 _ _ _ ih => exact ih (by simp)
  | case4 _ _ _ _ _ _ ih => exact ih (by simp)
  | case5 _ _ _ _ _ ih => exact ih h

section
variable {arg value : Text} {key : Key} {rest : List Text}

theorem namedFile_of_inline (h : Argument.ofText arg = .inline key value) (found : Option Text) :
    namedFile found (arg :: rest) = namedFile ((Piece.joined key value).file?.or found) rest := by
  by_cases hkey : key = .config
  · subst hkey
    rw [eq_joined_of_inline h, namedFile_joined]
    rfl
  · have hskip : ¬ NamesFile arg := by
      intro hnames
      obtain hflag | ⟨path, hjoined⟩ := hnames.ofText
      · simp [hflag] at h
      · simp [hjoined, Ne.symm hkey] at h
    rw [namedFile_skip hskip, Piece.file?, if_neg hkey, Option.none_or]

theorem namedFile_of_switch (h : IsSwitch arg) (found : Option Text) :
    namedFile found (arg :: rest) = namedFile found rest := by
  apply namedFile_skip
  intro hnames
  obtain hflag | ⟨path, hjoined⟩ := hnames.ofText
  · exact h.1 _ hflag
  · exact h.2 _ _ hjoined

theorem not_namesFile_of_separate (h : Argument.ofText arg = .separate key)
    (hkey : key ≠ .config) : ¬ NamesFile arg := by
  intro hnames
  obtain hflag | ⟨path, hjoined⟩ := hnames.ofText
  · simp [hflag, Ne.symm hkey] at h
  · simp [hjoined] at h

theorem namedFile_of_bare (h : Argument.ofText arg = .separate key) (found : Option Text) :
    namedFile found [arg] =
      if key = .config then .error (.usage (.valueRequired .config)) else .ok found := by
  split_ifs with hkey
  · subst hkey
    rw [eq_flag_of_separate h]
    rfl
  · rw [namedFile_skip (not_namesFile_of_separate h hkey)]
    rfl

theorem namedFile_of_separate (h : Argument.ofText arg = .separate key)
    (hvalue : ¬ (Piece.paired key value).Disguised) (found : Option Text) :
    namedFile found (arg :: value :: rest) =
      namedFile ((Piece.paired key value).file?.or found) rest := by
  by_cases hkey : key = .config
  · subst hkey
    rw [eq_flag_of_separate h, namedFile_flag]
    rfl
  · have hskip : ¬ NamesFile value := fun hnames => hvalue ⟨hkey, hnames⟩
    rw [namedFile_skip (not_namesFile_of_separate h hkey), namedFile_skip hskip, Piece.file?,
      if_neg hkey, Option.none_or]

/-- The search takes a disguised value for the option, whatever comes behind it. -/
theorem namedFile_of_disguised (h : Argument.ofText arg = .separate key)
    (hvalue : (Piece.paired key value).Disguised) (found : Option Text) :
    namedFile found (arg :: value :: rest) ≠ .ok none := by
  obtain ⟨hkey, hnames⟩ := hvalue
  rw [namedFile_skip (not_namesFile_of_separate h hkey)]
  obtain rfl | ⟨path, rfl⟩ := hnames
  · cases rest with
    | nil => simp [namedFile]
    | cons path rest =>
      rw [namedFile_flag]
      exact namedFile_ne_none (by simp) rest
  · rw [namedFile_joined]
    exact namedFile_ne_none (by simp) rest

end

theorem getLast?_filterMap_cons {α β : Type} (f : α → Option β) (a : α) (l : List α)
    (b : Option β) :
    ((a :: l).filterMap f).getLast?.or b = (l.filterMap f).getLast?.or ((f a).or b) := by
  cases hfa : f a with
  | none => rw [List.filterMap_cons_none hfa, Option.none_or]
  | some c =>
    rw [List.filterMap_cons_some hfa, List.getLast?_cons, Option.some_or, Option.some_or]
    cases (l.filterMap f).getLast? <;> rfl

/-- The file that the pieces name, the last one where there are several. -/
def recognised (found : Option Text) (ps : List Piece) : Except OptionFault (Option Text) :=
  if .bare .config ∈ ps then .error (.usage (.valueRequired .config))
  else .ok ((ps.filterMap Piece.file?).getLast?.or found)

theorem recognised_cons {p : Piece} (hp : ∀ key, p ≠ .bare key) (found : Option Text)
    (ps : List Piece) : recognised found (p :: ps) = recognised (p.file?.or found) ps := by
  have hbare : Piece.bare .config ∈ p :: ps ↔ Piece.bare .config ∈ ps := by
    simp [Ne.symm (hp .config)]
  simp only [recognised, hbare, getLast?_filterMap_cons]

theorem namedFile_eq_recognised {args : List Text} (h : ∀ p ∈ pieces args, ¬ p.Disguised)
    (found : Option Text) : namedFile found args = recognised found (pieces args) := by
  fun_induction pieces args generalizing found with
  | case1 => rfl
  | case2 arg rest key value harg ih =>
    rw [List.forall_mem_cons] at h
    rw [namedFile_of_inline harg, ih h.2, recognised_cons (by simp)]
  | case3 arg key harg =>
    rw [namedFile_of_bare harg]
    simp [recognised, eq_comm, Piece.file?]
  | case4 arg key harg value rest ih =>
    rw [List.forall_mem_cons] at h
    rw [namedFile_of_separate harg h.1, ih h.2, recognised_cons (by simp)]
  | case5 arg rest hinline hseparate ih =>
    rw [List.forall_mem_cons] at h
    rw [namedFile_of_switch ⟨hseparate, hinline⟩, ih h.2, recognised_cons (by simp)]
    rfl

/-- The search comes back without a file and without a fault exactly if no piece is the option that
names one, and no value of another option looks like it. -/
theorem namedFile_eq_none_iff (args : List Text) :
    namedFile none args = .ok none ↔
      ∀ p ∈ pieces args, p.key? ≠ some .config ∧ ¬ p.Disguised := by
  have hfile : ∀ key value rest, namedFile (if key = Key.config then some value else none) rest =
      .ok none ↔ key ≠ .config ∧ namedFile none rest = .ok none := by
    intro key value rest
    by_cases hkey : key = .config
    · simp [hkey, namedFile_ne_none]
    · simp [hkey]
  fun_induction pieces args with
  | case1 => simp [namedFile]
  | case2 arg rest key value harg ih =>
    rw [namedFile_of_inline harg, Option.or_none, Piece.file?, hfile, List.forall_mem_cons]
    exact and_congr (by simp [Piece.key?, Piece.Disguised]) ih
  | case3 arg key harg =>
    rw [namedFile_of_bare harg]
    by_cases hkey : key = .config <;> simp [hkey, Piece.key?, Piece.Disguised]
  | case4 arg key harg value rest ih =>
    rw [List.forall_mem_cons]
    by_cases hvalue : (Piece.paired key value).Disguised
    · simp [hvalue, namedFile_of_disguised harg hvalue]
    · rw [namedFile_of_separate harg hvalue, Option.or_none, Piece.file?, hfile]
      exact and_congr (by simp [hvalue, Piece.key?]) ih
  | case5 arg rest hinline hseparate ih =>
    rw [namedFile_of_switch ⟨hseparate, hinline⟩, List.forall_mem_cons,
      and_iff_right (by simp [Piece.key?, Piece.Disguised])]
    exact ih

/-- The settings that a run starts from: those of the named file, or else of the usual one if it is
there. -/
def startFrom (files : FileTree) : Option Text → Except OptionFault Settings
  | some path => loadSettings files path
  | none => if files.contains defaultFile then loadSettings files defaultFile else .ok {}

theorem parseOptions_eq (files : FileTree) (args : List Text) :
    parseOptions files args = (namedFile none args).bind fun file =>
      (startFrom files file).bind fun start =>
        applyArguments files.workingDirectory start args := by
  unfold parseOptions initialSettings settingsFile
  cases namedFile none args with
  | error fault => rfl
  | ok file =>
    cases file with
    | some path => cases h : loadSettings files path <;> simp [Except.bind, startFrom, h]
    | none =>
      by_cases hfile : files.contains defaultFile
      · cases h : loadSettings files defaultFile <;> simp [Except.bind, startFrom, h, hfile]
      · simp [Except.bind, startFrom, hfile]

/-- The pass over the settings takes the pieces in order; what is loaded before it is the file that
the search finds. That is the one which the pieces name, if no value of another option is
disguised, and the search finds none and misses none exactly if no piece is the option and no value
is disguised. -/
theorem settings_file_recognised (args : List Text) :
    (∀ directory, assignments directory args =
      (pieces args).foldr (fun p rest => followed (p.change directory) rest) (.ok [])) ∧
    (∀ files, parseOptions files args = (namedFile none args).bind fun file =>
      (startFrom files file).bind fun start =>
        applyArguments files.workingDirectory start args) ∧
    ((∀ p ∈ pieces args, ¬ p.Disguised) → namedFile none args = recognised none (pieces args)) ∧
    (namedFile none args = .ok none ↔
      ∀ p ∈ pieces args, p.key? ≠ some .config ∧ ¬ p.Disguised) :=
  ⟨fun directory => assignments_eq_foldr directory args, fun files => parseOptions_eq files args,
    fun h => namedFile_eq_recognised h none, namedFile_eq_none_iff args⟩

def plainArguments : List Text :=
  ["--config=a.toml", "--feature", "-v", "-j", "2", "--config", "--ir", "--feature=--config=x"]

theorem settings_file_recognised_plain :
    (∀ p ∈ pieces plainArguments, ¬ p.Disguised) ∧
    recognised none (pieces plainArguments) = .ok (some "--ir") ∧
    namedFile none plainArguments = .ok (some "--ir") :=
  have hplain : ∀ p ∈ pieces plainArguments, ¬ p.Disguised := by decide
  ⟨hplain, rfl, (settings_file_recognised plainArguments).2.2.1 hplain⟩

/-- A feature with the name of the option is taken for it, and then a file is read, or missed, that
no piece names. -/
theorem disguised_value_named :
    (pieces ["--feature", "--config=x"] = [.paired .feature "--config=x"] ∧
      namedFile none ["--feature", "--config=x"] = .ok (some "x")) ∧
    (pieces ["--feature", "--config"] = [.paired .feature "--config"] ∧
      namedFile none ["--feature", "--config"] = .error (.usage (.valueRequired .config))) ∧
    ¬ ∀ args, namedFile none args = recognised none (pieces args) := by
  refine ⟨⟨rfl, rfl⟩, ⟨rfl, rfl⟩, fun h => ?_⟩
  have hfeature := h ["--feature", "--config=x"]
  cases hfeature

end Bindery.Command
