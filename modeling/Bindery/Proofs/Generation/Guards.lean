import Bindery.Proofs.Generation.Artifacts
import Bindery.Proofs.Mapping.Spelling

/-!
Include guards. The guard of a header is its path in upper case with underscores for the dots, so
that a dot and an underscore are not told apart: the declaration header of a type has the guard of
the function header of a type that is called the same with `_d` behind it. No other two headers of
a report share a guard.
-/

set_option autoImplicit false

namespace Bindery

theorem guardByte_toLower : ∀ c, guardByte (Byte.toLower c) = guardByte c :=
  forall_byte (by decide +kernel)

/-- On what identifiers are made of, a guard forgets the case and nothing else. -/
theorem toLower_guardByte :
    ∀ c, Identifier.isPart c = true → Byte.toLower (guardByte c) = Byte.toLower c :=
  forall_byte (by decide +kernel)

def guardPart (t : Text) : Text := t.map guardByte

theorem guardPart_append (s t : Text) : guardPart (s ++ t) = guardPart s ++ guardPart t :=
  List.map_append

theorem guardName_eq (file : Text) : guardName file = guardPart "WELD_" ++ guardPart file :=
  guardPart_append _ _

theorem guardName_eq_iff (p q : Text) : guardName p = guardName q ↔ guardPart p = guardPart q := by
  rw [guardName_eq, guardName_eq, List.append_cancel_left_eq]

theorem guardPart_lower (t : Text) : guardPart (Text.lower t) = guardPart t := by
  rw [guardPart, Text.lower, List.map_map]
  exact List.map_congr_left fun c _ => guardByte_toLower c

theorem lower_eq_of_guardPart {s t : Text} (hs : s.all Identifier.isPart = true)
    (ht : t.all Identifier.isPart = true) (h : guardPart s = guardPart t) :
    Text.lower s = Text.lower t := by
  have hlower : ∀ u : Text, u.all Identifier.isPart = true →
      Text.lower (guardPart u) = Text.lower u := by
    intro u hu
    rw [guardPart, Text.lower, List.map_map]
    exact List.map_congr_left fun c hc => toLower_guardByte c (List.all_eq_true.mp hu c hc)
  rw [← hlower s hs, ← hlower t ht, h]

/-- A function header, and the declaration header of a type whose name lacks the `_d` at the end of
the other's. -/
def GuardTwins (p q : Text) : Prop :=
  ∃ name other : Text, Text.lower other = Text.lower name ++ ascii "_d" ∧
    (p = UnitFile.declaration name ∧ q = UnitFile.functions other ∨
      p = UnitFile.hostDeclaration name ∧ q = UnitFile.hostDefinitions other)

theorem GuardTwins.guardName_eq {p q : Text} (h : GuardTwins p q) : guardName p = guardName q := by
  obtain ⟨name, other, hname, hpaths⟩ := h
  have hother : guardPart other = guardPart name ++ guardPart "_d" := by
    rw [← guardPart_lower other, hname, guardPart_append, guardPart_lower]
  rw [guardName_eq_iff]
  rcases hpaths with ⟨rfl, rfl⟩ | ⟨rfl, rfl⟩
  · rw [UnitFile.declaration, UnitFile.functions, guardPart_append, guardPart_append, hother,
      List.append_assoc]
    rfl
  · rw [UnitFile.hostDeclaration, UnitFile.hostDefinitions, guardPart_append, guardPart_append,
      hother, List.append_assoc]
    rfl

def extension (isDecl isHost : Bool) : Text :=
  (if isDecl then ascii ".d" else []) ++ if isHost then ascii ".hpp" else ascii ".h"

structure HeaderPath (path name : Text) (isDecl isHost : Bool) : Prop where
  path : path = name ++ extension isDecl isHost
  name : name.all Identifier.isPart = true

theorem guardPart_extension (isDecl isHost : Bool) :
    guardPart (extension isDecl isHost) =
      guardPart (if isDecl then ascii "_d" else []) ++
        guardPart (if isHost then ascii ".hpp" else ascii ".h") := by
  cases isDecl <;> cases isHost <;> rfl

theorem guardTwins_of_lower {name other : Text} (isHost : Bool)
    (h : Text.lower other = Text.lower name ++ Text.lower "_d") :
    GuardTwins (name ++ extension true isHost) (other ++ extension false isHost) := by
  refine ⟨name, other, h, ?_⟩
  cases isHost with
  | false => exact .inl ⟨rfl, rfl⟩
  | true => exact .inr ⟨rfl, rfl⟩

theorem getLast?_guard (t : Text) (isHost : Bool) :
    (t ++ guardPart (if isHost then ascii ".hpp" else ascii ".h")).getLast? =
      some (if isHost then 80 else 72) := by
  rw [List.getLast?_append]
  cases isHost <;> rfl

/-- Guards that are equal come from paths that are equal but for their case, or from twins. -/
theorem lower_eq_or_twins {p q s t : Text} {isDecl isHost isDecl' isHost' : Bool}
    (hp : HeaderPath p s isDecl isHost) (hq : HeaderPath q t isDecl' isHost')
    (h : guardName p = guardName q) :
    Text.lower p = Text.lower q ∨ GuardTwins p q ∨ GuardTwins q p := by
  obtain ⟨rfl, hs⟩ := hp
  obtain ⟨rfl, ht⟩ := hq
  rw [guardName_eq_iff, guardPart_append, guardPart_append, guardPart_extension,
    guardPart_extension, ← List.append_assoc, ← List.append_assoc] at h
  have hhost : isHost = isHost' := by
    have hlast := congrArg List.getLast? h
    rw [getLast?_guard, getLast?_guard] at hlast
    revert hlast
    cases isHost <;> cases isHost' <;> decide
  subst hhost
  have hstem := List.append_cancel_right h
  rw [← guardPart_append, ← guardPart_append] at hstem
  have hpart : (ascii "_d").all Identifier.isPart = true := by decide
  have hlower := lower_eq_of_guardPart (by cases isDecl <;> simp [hs, hpart])
    (by cases isDecl' <;> simp [ht, hpart]) hstem
  rw [lower_append, lower_append] at hlower
  by_cases hdecl : isDecl = isDecl'
  · subst hdecl
    left
    rw [lower_append, lower_append, List.append_cancel_right hlower]
  · right
    cases isDecl with
    | false =>
      obtain rfl : isDecl' = true := by simpa using hdecl
      have hnames : Text.lower s ++ [] = Text.lower t ++ Text.lower "_d" := hlower
      exact .inr (guardTwins_of_lower isHost (by rwa [List.append_nil] at hnames))
    | true =>
      obtain rfl : isDecl' = false := by simpa using hdecl
      have hnames : Text.lower s ++ Text.lower "_d" = Text.lower t ++ [] := hlower
      exact .inl (guardTwins_of_lower isHost (by rw [hnames, List.append_nil]))

/-- The guard a file opens with: what follows the first directive on its line. -/
def openingGuard? (content : Text) : Option Text :=
  (Text.after? (banner ++ "#ifndef ") content).map fun rest => rest.takeWhile (· != Byte.newline)

theorem openingGuard?_header (file rest : Text) :
    openingGuard? (banner ++ openGuard file ++ rest) = some (guardName file) := by
  have hcontent : banner ++ openGuard file ++ rest =
      (banner ++ ascii "#ifndef ") ++ (guardName file ++ Byte.newline ::
        (ascii "#define " ++ guardName file ++ ascii "\n\n" ++ rest)) := by
    have hdefine : ascii "\n#define " = Byte.newline :: ascii "#define " := rfl
    simp only [openGuard, hdefine, List.append_assoc, List.cons_append]
  rw [openingGuard?, hcontent, Json.after?_eq_some_iff.mpr rfl, Option.map_some,
    List.takeWhile_append_of_pos]
  · simp
  · intro c hc
    obtain ⟨b, -, rfl⟩ := List.mem_map.mp hc
    exact bne_iff_ne.mpr (guardByte_ne_newline b)

theorem openingGuard?_render {δ : Type} (declText : δ → Text) (h : Header δ) :
    openingGuard? (h.render declText) = some (guardName h.file) := by
  rw [Header.render]
  simp only [List.append_assoc]
  rw [← List.append_assoc banner]
  exact openingGuard?_header h.file _

def Artifact.IsHeader (a : Artifact) : Prop :=
  ascii ".h" <:+ a.path ∨ ascii ".hpp" <:+ a.path

section
variable {r : Registry} {target : Target} {o : Options} {a : Artifact}

theorem header_path_guard (hr : r.WellFormed) (ho : o.problem? target = none)
    (ha : a ∈ (generate r target o).artifacts) (hheader : a.IsHeader) :
    (∃ name isDecl isHost, HeaderPath a.path name isDecl isHost) ∧
      openingGuard? a.content = some (guardName a.path) := by
  rcases artifact_cases hr ho ha with hruntime | ⟨outcomes, rfl⟩ | ⟨t, ht, hrendered⟩
  · have hname : (ascii "weld_runtime").all Identifier.isPart = true := by decide
    rcases runtime_cases hruntime with rfl | ⟨-, rfl⟩
    · exact ⟨⟨_, false, false, rfl, hname⟩, openingGuard?_render _ _⟩
    · exact ⟨⟨_, false, true, rfl, hname⟩, openingGuard?_render _ _⟩
  · have hmanifest : ¬ (ascii ".h" <:+ Manifest.file ∨ ascii ".hpp" <:+ Manifest.file) := by decide
    exact absurd hheader hmanifest
  · have hname : (runPlan r target o t).type.name.all Identifier.isPart = true :=
      all_isPart_of_isValid (hr.name_valid t (mem_types_of_survivors ht))
    rcases render_cases hrendered with rfl | rfl | ⟨-, rfl⟩ | ⟨-, rfl⟩
    · exact ⟨⟨_, true, false, rfl, hname⟩, openingGuard?_render _ _⟩
    · exact ⟨⟨_, false, false, rfl, hname⟩, openingGuard?_render _ _⟩
    · exact ⟨⟨_, true, true, rfl, hname⟩, openingGuard?_render _ _⟩
    · exact ⟨⟨_, false, true, rfl, hname⟩, openingGuard?_render _ _⟩

end

/-- Every header of a report opens with the guard of its path, and two of them have the same guard
exactly if one is the declaration header of a type and the other a function header of the type that
has `_d` at the end of its name. -/
theorem generate_guards {library : Text} {types : List TypeDef} {r : Registry}
    (hr : Registry.build library types = .ok r) (target : Target) (o : Options) {a b : Artifact}
    (ha : a ∈ (generate r target o).artifacts) (hb : b ∈ (generate r target o).artifacts)
    (hheader : a.IsHeader) (hheader' : b.IsHeader) (hne : a ≠ b) :
    openingGuard? a.content = some (guardName a.path) ∧
    openingGuard? b.content = some (guardName b.path) ∧
    (guardName a.path = guardName b.path ↔
      GuardTwins a.path b.path ∨ GuardTwins b.path a.path) := by
  have hwf := Registry.build_wellFormed hr
  have ho := problem?_eq_none_of_mem ha
  obtain ⟨⟨s, isDecl, isHost, hs⟩, hguard⟩ := header_path_guard hwf ho ha hheader
  obtain ⟨⟨t, isDecl', isHost', ht⟩, hguard'⟩ := header_path_guard hwf ho hb hheader'
  refine ⟨hguard, hguard', fun h => ?_, fun h => ?_⟩
  · -- paths that differ in case only are withdrawn as clashing
    rcases lower_eq_or_twins hs ht h with hlower | htwins
    · exact absurd (eq_of_lower_path_eq hwf ha hb hlower) hne
    · exact htwins
  · exact h.elim (·.guardName_eq) (·.guardName_eq.symm)

namespace Twins

def gauge : TypeDef := ⟨1, "Gauge", [], [], .object []⟩

def gaugeD : TypeDef := ⟨2, "Gauge_d", [], [], .object []⟩

def registry : Registry := ⟨"twins", [gauge, gaugeD]⟩

def options : Options := ⟨[], 64, [], 0, false⟩

theorem build_registry : Registry.build "twins" [gauge, gaugeD] = .ok registry :=
  Registry.build_of_increasing _ (by decide) (by decide)

theorem exists_headers : ∃ a ∈ (generate registry .c options).artifacts,
    ∃ b ∈ (generate registry .c options).artifacts,
      a.path = "Gauge.d.h" ∧ b.path = "Gauge_d.h" ∧ a.IsHeader ∧ b.IsHeader ∧ a ≠ b := by
  have hwf := Registry.build_wellFormed build_registry
  have hgauge : gauge ∈ survivors registry .c options := by decide +kernel
  have hgaugeD : gaugeD ∈ survivors registry .c options := by decide +kernel
  refine ⟨_, mem_artifacts_of_headers hwf (by decide) hgauge (List.mem_cons_self ..), _,
    mem_artifacts_of_headers hwf (by decide) hgaugeD
      (List.mem_cons_of_mem _ (List.mem_singleton_self _)), rfl, rfl, ?_, ?_, fun h => ?_⟩
  · exact .inl ⟨"Gauge.d", rfl⟩
  · exact .inl ⟨"Gauge_d", rfl⟩
  · have hpath : ascii "Gauge.d.h" = ascii "Gauge_d.h" := congrArg Artifact.path h
    exact absurd hpath (by decide)

end Twins

theorem generate_guards_twins :
    ∃ a ∈ (generate Twins.registry .c Twins.options).artifacts,
      ∃ b ∈ (generate Twins.registry .c Twins.options).artifacts,
        openingGuard? a.content = some "WELD_GAUGE_D_H" ∧
        openingGuard? b.content = some "WELD_GAUGE_D_H" ∧
        (GuardTwins a.path b.path ∨ GuardTwins b.path a.path) := by
  obtain ⟨a, ha, b, hb, hpath, hpath', hheader, hheader', hne⟩ := Twins.exists_headers
  obtain ⟨hguard, hguard', htwins⟩ :=
    generate_guards Twins.build_registry .c Twins.options ha hb hheader hheader' hne
  rw [hpath] at hguard
  rw [hpath'] at hguard'
  refine ⟨a, ha, b, hb, hguard, hguard', htwins.mp ?_⟩
  rw [hpath, hpath']
  decide

/-- A successful report in which two headers open with the same guard. -/
theorem guards_not_distinct :
    Registry.build "twins" [Twins.gauge, Twins.gaugeD] = .ok Twins.registry ∧
    (generate Twins.registry .c Twins.options).success = true ∧
    ¬ ∀ a ∈ (generate Twins.registry .c Twins.options).artifacts,
      ∀ b ∈ (generate Twins.registry .c Twins.options).artifacts,
        a.IsHeader → b.IsHeader → a ≠ b → openingGuard? a.content ≠ openingGuard? b.content := by
  refine ⟨Twins.build_registry, by decide +kernel, fun h => ?_⟩
  have hwf := Registry.build_wellFormed Twins.build_registry
  obtain ⟨a, ha, b, hb, hpath, hpath', hheader, hheader', hne⟩ := Twins.exists_headers
  have hguard := (header_path_guard hwf (by decide) ha hheader).2
  have hguard' := (header_path_guard hwf (by decide) hb hheader').2
  have hsame : guardName a.path = guardName b.path := by
    rw [hpath, hpath']
    decide
  exact h a ha b hb hheader hheader' hne (by rw [hguard, hguard', hsame])

end Bindery
