import Bindery.Proofs.Generation.Guards

/-!
Names of the types against names of the support code. The identifiers a type declares are its name,
or its name with an underscore and more behind it; since no type is called with a prefix of the
support code, they keep away from its names. The one way around is a type whose whole name is the
prefix without its underscore: a method or a constant then completes it.
-/

set_option autoImplicit false

namespace Bindery

theorem prefix_stem {p stem rest : Text} {c : UInt8}
    (h : p ++ [c] <+: stem ++ Byte.underscore :: rest) (hp : Byte.underscore ∉ p) :
    p ++ [c] <+: stem ∨ stem = p ∧ c = Byte.underscore := by
  induction p generalizing stem with
  | nil =>
    cases stem with
    | nil => exact .inr ⟨rfl, (List.cons_prefix_cons.mp h).1⟩
    | cons s stem =>
      obtain ⟨rfl, -⟩ := List.cons_prefix_cons.mp h
      exact .inl (List.cons_prefix_cons.mpr ⟨rfl, List.nil_prefix⟩)
  | cons b p ih =>
    simp only [List.mem_cons, not_or] at hp
    cases stem with
    | nil => exact absurd (List.cons_prefix_cons.mp h).1.symm hp.1
    | cons s stem =>
      obtain ⟨rfl, htail⟩ := List.cons_prefix_cons.mp h
      rcases ih htail hp.2 with hstem | ⟨rfl, hc⟩
      · exact .inl (List.cons_prefix_cons.mpr ⟨rfl, hstem⟩)
      · exact .inr ⟨rfl, hc⟩

theorem usesSupportPrefix_iff (name : Text) :
    usesSupportPrefix name = true ↔
      (∃ c, Byte.isUpper c = true ∧ ascii "Weld" ++ [c] <+: name) ∨
        ascii "weld" ++ [Byte.underscore] <+: Text.lower name := by
  rw [usesSupportPrefix, Bool.or_eq_true, Text.startsWith, List.isPrefixOf_iff_prefix]
  refine or_congr ?_ Iff.rfl
  constructor
  · intro h
    split at h
    · next c rest hafter =>
      refine ⟨c, h, rest, ?_⟩
      rw [Json.after?_eq_some_iff.mp hafter, List.append_assoc]
      rfl
    · cases h
  · rintro ⟨c, hc, rest, rfl⟩
    rw [List.append_assoc, Json.after?_eq_some_iff.mpr rfl]
    exact hc

section
variable {a : Availability} {t : TypeDef} {name : Text}

theorem declaredIdentifiers_stem (h : name ∈ a.declaredIdentifiers t) :
    name = t.name ∨ ∃ rest, name = t.name ++ Byte.underscore :: rest := by
  simp only [Availability.declaredIdentifiers, definitionIdentifiers, Availability.exportedSymbols,
    List.mem_append, List.mem_cons, List.mem_map] at h
  rcases h with (((rfl | ⟨v, -, rfl⟩) | hoption) | ⟨m, -, rfl⟩) | ⟨m, -, rfl⟩ | hdestructor
  · exact .inl rfl
  · exact .inr ⟨v.name, List.append_assoc ..⟩
  · split_ifs at hoption
    · obtain rfl := List.mem_singleton.mp hoption
      exact .inr ⟨"option", rfl⟩
    · exact absurd hoption List.not_mem_nil
  · refine .inr ⟨m.name ++ ascii "_result", ?_⟩
    rw [resultName, methodSymbol, List.append_assoc, List.append_assoc]
    rfl
  · exact .inr ⟨m.name, List.append_assoc ..⟩
  · split_ifs at hdestructor
    · obtain rfl := List.mem_singleton.mp hdestructor
      exact .inr ⟨"destroy", rfl⟩
    · exact absurd hdestructor List.not_mem_nil

theorem lower_name_of_usesSupportPrefix (h : name ∈ a.declaredIdentifiers t)
    (htype : usesSupportPrefix t.name = false) (hname : usesSupportPrefix name = true) :
    Text.lower t.name = ascii "weld" ∧ ∃ rest, name = t.name ++ Byte.underscore :: rest := by
  rw [Bool.eq_false_iff, ne_eq, usesSupportPrefix_iff, not_or] at htype
  obtain ⟨hcapital, hlower⟩ := htype
  rw [usesSupportPrefix_iff] at hname
  rcases declaredIdentifiers_stem h with rfl | ⟨rest, rfl⟩
  · exact absurd hname (not_or.mpr ⟨hcapital, hlower⟩)
  · refine ⟨?_, rest, rfl⟩
    rcases hname with ⟨c, hc, hpre⟩ | hpre
    · rcases prefix_stem hpre (by decide) with hstem | ⟨-, rfl⟩
      · exact absurd ⟨c, hc, hstem⟩ hcapital
      · exact absurd hc (by decide)
    · rw [lower_append] at hpre
      rcases prefix_stem hpre (by decide) with hstem | ⟨hstem, -⟩
      · exact absurd hstem hlower
      · exact hstem

theorem name_eq_take_of_usesSupportPrefix (h : name ∈ a.declaredIdentifiers t)
    (htype : usesSupportPrefix t.name = false) (hname : usesSupportPrefix name = true) :
    t.name = name.take 4 ∧ name[4]? = some Byte.underscore := by
  obtain ⟨hlower, rest, rfl⟩ := lower_name_of_usesSupportPrefix h htype hname
  have hlength : t.name.length = 4 := by simpa [Text.lower, ascii] using congrArg List.length hlower
  rw [← hlength]
  exact ⟨by simp, by simp⟩

/-- All names of the runtime have a support prefix, and only its two functions have the one with an
underscore. -/
theorem runtime_usesSupportPrefix : ∀ n ∈ CRuntime.header.names, usesSupportPrefix n = true ∧
    (n[4]? = some Byte.underscore →
      n ∈ [ascii "weld_writeable_write", ascii "weld_writeable_flush"]) := by
  decide +kernel

theorem guardName_usesSupportPrefix (file : Text) : usesSupportPrefix (guardName file) = true := by
  rw [usesSupportPrefix_iff, guardName_eq, lower_append]
  exact .inr (List.prefix_append _ _)

theorem mem_runtime_iff (h : name ∈ a.declaredIdentifiers t)
    (htype : usesSupportPrefix t.name = false) :
    name ∈ CRuntime.header.names ↔
      t.name = "weld" ∧ (name = "weld_writeable_write" ∨ name = "weld_writeable_flush") := by
  constructor
  · intro hruntime
    obtain ⟨hsupport, hfunction⟩ := runtime_usesSupportPrefix name hruntime
    obtain ⟨htake, hunderscore⟩ := name_eq_take_of_usesSupportPrefix h htype hsupport
    rcases List.mem_pair.mp (hfunction hunderscore) with rfl | rfl
    · exact ⟨htake, .inl rfl⟩
    · exact ⟨htake, .inr rfl⟩
  · rintro ⟨-, rfl | rfl⟩ <;> decide +kernel

theorem eq_guardName_iff (h : name ∈ a.declaredIdentifiers t)
    (htype : usesSupportPrefix t.name = false) (file : Text) :
    guardName file = name ↔ t.name = "WELD" ∧ name = "WELD_" ++ guardPart file := by
  constructor
  · rintro rfl
    refine ⟨?_, guardName_eq file⟩
    exact (name_eq_take_of_usesSupportPrefix h htype (guardName_usesSupportPrefix file)).1
  · rintro ⟨-, rfl⟩
    exact guardName_eq file

end

section
variable {r : Registry} {target : Target} {o : Options} {t : TypeDef}

theorem mem_survivors_of_unit (hr : r.WellFormed) (ht : t ∈ r.types)
    (hunit : (generate r target o).unitsFor t ≠ []) :
    o.problem? target = none ∧ t ∈ survivors r target o := by
  have ho : o.problem? target = none := by
    cases ho : o.problem? target with
    | none => rfl
    | some message => simp [generate, ho, Report.failed, Report.unitsFor] at hunit
  refine ⟨ho, ?_⟩
  rw [← survivors_eq hr ho]
  exact List.mem_filter.mpr ⟨ht, by simpa using hunit⟩

theorem not_usesSupportPrefix_of_survivor (hr : r.WellFormed) (ht : t ∈ survivors r target o) :
    usesSupportPrefix t.name = false :=
  not_usesSupportPrefix (mem_cleanTypes.mp ((mem_survivors hr).mp ht).1).2

end

/-- A name that a type of a report declares is one of the runtime's exactly if the type is called
`weld` and the name completes it to one of the two support functions, and it is the guard of a
header of the report exactly if the type is called `WELD` and the name completes it to that. -/
theorem generate_support_names {library : Text} {types : List TypeDef} {r : Registry}
    (hr : Registry.build library types = .ok r) (target : Target) (o : Options) {t : TypeDef}
    (ht : t ∈ r.types) (hunit : (generate r target o).unitsFor t ≠ []) {name : Text}
    (hname : name ∈ (runAvailability target o).declaredIdentifiers t) :
    (name ∈ CRuntime.header.names ↔
      t.name = "weld" ∧ (name = "weld_writeable_write" ∨ name = "weld_writeable_flush")) ∧
    ∀ a ∈ (generate r target o).artifacts, a.IsHeader →
      (openingGuard? a.content = some name ↔
        t.name = "WELD" ∧ name = "WELD_" ++ guardPart a.path) := by
  have hwf := Registry.build_wellFormed hr
  obtain ⟨ho, hsurvives⟩ := mem_survivors_of_unit hwf ht hunit
  have htype := not_usesSupportPrefix_of_survivor hwf hsurvives
  refine ⟨mem_runtime_iff hname htype, fun a ha hheader => ?_⟩
  rw [(header_path_guard hwf ho ha hheader).2, Option.some.injEq]
  exact eq_guardName_iff hname htype a.path

namespace Unprefixed

def lower : TypeDef :=
  ⟨1, "weld", [], [], .object [⟨"writeable_write", [], [], .absent, [], .unit⟩]⟩

def upper : TypeDef := ⟨2, "WELD", [], [], .enumeration [⟨"WELD_H", [], 0⟩]⟩

def options : Options := ⟨[], 64, [], 1, false⟩

def functions : Registry := ⟨"functions", [lower]⟩

def guards : Registry := ⟨"guards", [upper]⟩

theorem build_functions : Registry.build "functions" [lower] = .ok functions :=
  Registry.build_of_increasing _ (by decide) (by decide)

theorem build_guards : Registry.build "guards" [upper] = .ok guards :=
  Registry.build_of_increasing _ (by decide) (by decide)

theorem run_functions : (generate functions .c options).success = true ∧
    (generate functions .c options).unitsFor lower ≠ [] := by decide +kernel

theorem run_guards : (generate guards .c options).success = true ∧
    (generate guards .c options).unitsFor upper ≠ [] := by decide +kernel

theorem function_declared : ascii "weld_writeable_write" ∈
    (runAvailability .c options).declaredIdentifiers lower := by decide

theorem guard_declared : ascii "WELD_WELD_H" ∈
    (runAvailability .c options).declaredIdentifiers upper := by decide

theorem exists_header : ∃ a ∈ (generate guards .c options).artifacts,
    a.IsHeader ∧ a.path = "WELD.h" := by
  have hwf := Registry.build_wellFormed build_guards
  obtain ⟨ho, hupper⟩ := mem_survivors_of_unit hwf (List.mem_singleton_self _) run_guards.2
  refine ⟨_, mem_artifacts_of_headers hwf ho hupper
    (List.mem_cons_of_mem _ (List.mem_singleton_self _)), ?_, rfl⟩
  exact .inl ⟨"WELD", rfl⟩

end Unprefixed

theorem generate_support_names_unprefixed :
    ascii "weld_writeable_write" ∈ CRuntime.header.names ∧
    ∃ a ∈ (generate Unprefixed.guards .c Unprefixed.options).artifacts,
      openingGuard? a.content = some "WELD_WELD_H" := by
  have hfunction := generate_support_names Unprefixed.build_functions .c Unprefixed.options
    (List.mem_singleton_self _) Unprefixed.run_functions.2 Unprefixed.function_declared
  have hguard := generate_support_names Unprefixed.build_guards .c Unprefixed.options
    (List.mem_singleton_self _) Unprefixed.run_guards.2 Unprefixed.guard_declared
  obtain ⟨a, ha, hheader, hpath⟩ := Unprefixed.exists_header
  refine ⟨hfunction.1.mpr ⟨rfl, .inl rfl⟩, a, ha, (hguard.2 a ha hheader).mpr ⟨rfl, ?_⟩⟩
  rw [hpath]
  decide

/-- Two successful reports: in the one a type declares a function of the runtime, in the other a
type declares the guard of a header. -/
theorem support_names_declared :
    (generate Unprefixed.functions .c Unprefixed.options).success = true ∧
    (¬ ∀ name ∈ (runAvailability .c Unprefixed.options).declaredIdentifiers Unprefixed.lower,
      name ∉ CRuntime.header.names) ∧
    (generate Unprefixed.guards .c Unprefixed.options).success = true ∧
    ¬ ∀ name ∈ (runAvailability .c Unprefixed.options).declaredIdentifiers Unprefixed.upper,
      ∀ a ∈ (generate Unprefixed.guards .c Unprefixed.options).artifacts,
        openingGuard? a.content ≠ some name := by
  refine ⟨Unprefixed.run_functions.1, fun h => ?_, Unprefixed.run_guards.1, fun h => ?_⟩
  · exact h _ Unprefixed.function_declared (by decide +kernel)
  · obtain ⟨a, ha, hheader, hpath⟩ := Unprefixed.exists_header
    have hwf := Registry.build_wellFormed Unprefixed.build_guards
    refine h _ Unprefixed.guard_declared a ha ?_
    rw [(header_path_guard hwf (by decide) ha hheader).2, hpath]
    decide

end Bindery
