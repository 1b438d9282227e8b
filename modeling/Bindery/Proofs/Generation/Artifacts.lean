import Bindery.Proofs.Generation.SharedAbi

/-!
Where the artifacts of a report come from: the runtime, the manifest, or the plan of a type that
has come through the run.
-/

set_option autoImplicit false

namespace Bindery

def runPlan (r : Registry) (target : Target) (o : Options) (t : TypeDef) : TypePlan :=
  (draftType (runContext r target o) t).plan

def runHeaders (r : Registry) (target : Target) (o : Options) (t : TypeDef) : List Artifact :=
  target.render (runPlan r target o t) (runContext r target o).names o.hostNamespace

theorem render_cases {target : Target} {p : TypePlan} {names : Names} {ns : Text} {a : Artifact}
    (ha : a ∈ target.render p names ns) :
    a = Target.cArtifact (p.declarationHeader names) p.type.id ∨
    a = Target.cArtifact (p.functionHeader names) p.type.id ∨
    target = .cpp ∧ a = Target.cppArtifact (p.hostDeclarationHeader names ns) p.type.id ∨
    target = .cpp ∧ a = Target.cppArtifact (p.hostDefinitionHeader names ns) p.type.id := by
  cases target with
  | c =>
    rcases (by simpa [Target.render] using ha) with rfl | rfl
    · exact .inl rfl
    · exact .inr (.inl rfl)
  | cpp => simpa [Target.render] using ha

theorem runtime_cases {target : Target} {a : Artifact} (ha : a ∈ target.runtime) :
    a = Target.cArtifact CRuntime.header 0 ∨
    target = .cpp ∧ a = Target.cppArtifact CppRuntime.header 0 := by
  cases target with
  | c => exact .inl (List.mem_singleton.mp ha)
  | cpp => simpa [Target.runtime] using ha

section
variable {r : Registry} {target : Target} {o : Options} {t : TypeDef} {a : Artifact}

theorem mem_types_of_survivors (ht : t ∈ survivors r target o) : t ∈ r.types :=
  (mem_runTypes.mp (List.mem_filter.mp ht).1).1

theorem processType_of_mem_survivors (hr : r.WellFormed) (ht : t ∈ survivors r target o) :
    (draftType (runContext r target o) t).errors = [] ∧
      (processType (runContext r target o) t).artifacts = runHeaders r target o t := by
  have hclean := (mem_cleanTypes.mp ((mem_survivors hr).mp ht).1).2
  rcases processType_cases (runContext r target o) t with ⟨hdraft, hp⟩ | ⟨errors, hne, -, hp⟩
  · rw [hp]
    exact ⟨hdraft, rfl⟩
  · rw [hp] at hclean
    exact absurd hclean hne

theorem mem_artifacts_of_headers (hr : r.WellFormed) (ho : o.problem? target = none)
    (ht : t ∈ survivors r target o) (ha : a ∈ runHeaders r target o t) :
    a ∈ (generate r target o).artifacts := by
  apply mem_artifacts_of_survivor hr ho ht
  rwa [(processType_of_mem_survivors hr ht).2]

theorem artifact_cases (hr : r.WellFormed) (ho : o.problem? target = none)
    (ha : a ∈ (generate r target o).artifacts) :
    a ∈ target.runtime ∨ (∃ outcomes, a = Manifest.artifact r target o outcomes) ∨
      ∃ t ∈ survivors r target o, a ∈ runHeaders r target o t := by
  rw [generate_eq hr ho, assembleReport] at ha
  simp only [sortArtifacts, List.mem_mergeSort, List.mem_append] at ha
  rcases ha with (ha | ha) | ha
  · obtain ⟨_, hsettled, ha⟩ := List.mem_flatMap.mp ha
    obtain ⟨t, ht, rfl⟩ := List.mem_map.mp hsettled
    -- only a type that has been rendered has any artifact
    have hgenerated : (settled r target o t).generated.isSome = true := by
      cases h : (settled r target o t).generated with
      | none => simp [h] at ha
      | some u => rfl
    have hsurvives : t ∈ survivors r target o := List.mem_filter.mpr ⟨ht, hgenerated⟩
    refine .inr (.inr ⟨t, hsurvives, ?_⟩)
    rw [← (processType_of_mem_survivors hr hsurvives).2, ← settled_of_mem_survivors hsurvives]
    exact ha
  · refine .inr (.inl ?_)
    split_ifs at ha with hmanifest
    · exact ⟨_, List.mem_singleton.mp ha⟩
    · exact absurd ha List.not_mem_nil
  · exact .inl ha

/-- A run that cannot start has no artifacts. -/
theorem problem?_eq_none_of_mem (ha : a ∈ (generate r target o).artifacts) :
    o.problem? target = none := by
  cases ho : o.problem? target with
  | none => rfl
  | some message => simp [generate, ho, Report.failed] at ha

theorem eq_of_lower_path_eq (hr : r.WellFormed) {b : Artifact}
    (ha : a ∈ (generate r target o).artifacts) (hb : b ∈ (generate r target o).artifacts)
    (h : Text.lower a.path = Text.lower b.path) : a = b :=
  List.inj_on_of_nodup_map (nodup_lower_paths hr (problem?_eq_none_of_mem ha)) ha hb h

end

end Bindery
