import Bindery.Proofs.Generation.Accounting

/-!
Nothing a run puts out is called the same twice: no C identifier, no exported symbol, and no path,
not even where case is ignored. The prefix that types may not use keeps their files apart from
those of the runtime.
-/

set_option autoImplicit false

namespace Bindery

theorem startsWith_of_append {name ext shared : Text} (h : name ++ ext = shared)
    (hlen : ext.length + 5 ≤ shared.length) (hshared : ascii "weld_" <+: shared) :
    Text.startsWith name "weld_" = true := by
  have hname : name <+: shared := ⟨ext, h⟩
  have hle : (ascii "weld_").length ≤ name.length := by
    have hsum := congrArg List.length h
    rw [List.length_append] at hsum
    show 5 ≤ name.length
    omega
  exact List.isPrefixOf_iff_prefix.mpr (List.prefix_of_prefix_length_le hshared hname hle)

theorem lower_append (s t : Text) : Text.lower (s ++ t) = Text.lower s ++ Text.lower t :=
  List.map_append

theorem sharedPaths_nodup (target : Target) : (target.sharedPaths.map Text.lower).Nodup := by
  cases target <;> decide

theorem mem_fileKeys {target : Target} {t : TypeDef} {key : Text} (h : key ∈ target.fileKeys t) :
    ∃ ext ∈ [ascii ".d.h", ascii ".h", ascii ".d.hpp", ascii ".hpp"],
      key = Text.lower t.name ++ ext := by
  cases target <;>
    simp only [Target.fileKeys, Target.unitFiles, List.map_cons, List.map_nil, List.mem_cons,
      List.not_mem_nil, or_false, UnitFile.declaration, UnitFile.functions,
      UnitFile.hostDeclaration, UnitFile.hostDefinitions, lower_append] at h
  · rcases h with rfl | rfl
    · exact ⟨".d.h", by simp, rfl⟩
    · exact ⟨".h", by simp, rfl⟩
  · rcases h with rfl | rfl | rfl | rfl
    · exact ⟨".d.h", by simp, rfl⟩
    · exact ⟨".h", by simp, rfl⟩
    · exact ⟨".d.hpp", by simp, rfl⟩
    · exact ⟨".hpp", by simp, rfl⟩

/-- The prefix kept from types keeps their files away from the shared ones. -/
theorem fileKeys_ne_shared {target : Target} {t : TypeDef} (h : usesSupportPrefix t.name = false)
    {key : Text} (hkey : key ∈ target.fileKeys t) : key ∉ target.sharedPaths.map Text.lower := by
  have hname : Text.startsWith (Text.lower t.name) "weld_" = false :=
    (Bool.or_eq_false_iff.mp h).2
  -- the manifest is told apart by its last letter, the runtime headers by their first ones
  have hshared : ∀ s ∈ target.sharedPaths.map Text.lower,
      s.getLast? = some 110 ∨ ascii "weld_" <+: s ∧ 11 ≤ s.length := by
    cases target <;> decide
  obtain ⟨ext, hext, rfl⟩ := mem_fileKeys hkey
  have hends : ext.length ≤ 6 ∧ ∃ c, ext.getLast? = some c ∧ c ≠ 110 := by
    simp only [List.mem_cons, List.not_mem_nil, or_false] at hext
    rcases hext with rfl | rfl | rfl | rfl <;> exact ⟨by decide, _, rfl, by decide⟩
  obtain ⟨hlen, c, hlast, hc⟩ := hends
  intro hmem
  rcases hshared _ hmem with hlast' | ⟨hpre, hlong⟩
  · rw [List.getLast?_append, hlast] at hlast'
    exact hc (Option.some.inj hlast')
  · have hstarts := startsWith_of_append rfl (by omega) hpre
    rw [hname] at hstarts
    exact absurd hstarts (by decide)

section
variable {r : Registry} {target : Target} {o : Options}

theorem pairwise_sortArtifacts (artifacts : List Artifact) :
    (sortArtifacts artifacts).Pairwise fun a b => Text.notAfter a.path b.path = true := by
  apply List.pairwise_mergeSort
  · intro a b c hab hbc
    exact Text.notAfter_trans hab hbc
  · intro a b
    exact Text.notAfter_total a.path b.path

theorem paths_increase {artifacts : List Artifact}
    (h : ((sortArtifacts artifacts).map Artifact.path).Nodup) :
    ((sortArtifacts artifacts).map Artifact.path).Pairwise fun a b => Text.before a b = true := by
  refine List.pairwise_map.mpr ?_
  exact (pairwise_sortArtifacts artifacts).imp₂ (fun a b hle hne => Text.before_of_notAfter hle hne)
    (List.pairwise_map.mp h)

theorem nodup_lower_paths (hr : r.WellFormed) (ho : o.problem? target = none) :
    ((generate r target o).artifacts.map fun a => Text.lower a.path).Nodup := by
  obtain ⟨shared, hshared, -, hperm⟩ := artifacts_perm hr ho
  have hsub := hshared.map Text.lower
  rw [List.map_map] at hsub
  rw [(hperm.map _).nodup_iff, List.map_append, fileKeys_settled hr, List.nodup_append]
  refine ⟨nodup_fileKeys_survivors hr, (sharedPaths_nodup target).sublist hsub, ?_⟩
  rintro key hkey other hother rfl
  obtain ⟨t, ht, hkey⟩ := List.mem_flatMap.mp hkey
  have hclean := (mem_cleanTypes.mp ((mem_survivors hr).mp ht).1).2
  exact fileKeys_ne_shared (not_usesSupportPrefix hclean) hkey (hsub.subset hother)

theorem nodup_allSymbols (hr : r.WellFormed) (ho : o.problem? target = none) :
    (generate r target o).allSymbols.Nodup := by
  have hperm := List.mergeSort_perm ((generate r target o).units.flatMap UnitSymbols.symbols)
    Text.notAfter
  rw [Report.allSymbols, hperm.nodup_iff, generate_eq hr ho, assembleReport]
  simp only [unitsOf_settled hr, List.flatMap_map]
  refine (nodup_declared_survivors hr).sublist (List.Sublist.flatMap_right _ fun t _ => ?_)
  exact List.sublist_append_right _ _

theorem survivors_eq (hr : r.WellFormed) (ho : o.problem? target = none) :
    (r.types.filter fun t => !((generate r target o).unitsFor t).isEmpty) =
      survivors r target o := by
  rw [survivors, runTypes, List.filter_filter]
  apply List.filter_congr
  intro t ht
  rw [unitsFor_generate hr ho ht]
  cases (runAvailability target o).enables t.rules with
  | false => simp
  | true => cases h : (settled r target o t).generated <;> simp [TypeOutcome.unit, h]

end

/-- No name is given twice in a run, and a type nothing else is wrong with is withdrawn exactly if
one of its names is. -/
theorem generate_distinct {library : Text} {types : List TypeDef} {r : Registry}
    (hr : Registry.build library types = .ok r) (target : Target) (o : Options)
    (ho : o.problem? target = none) :
    ((r.types.filter fun t => !((generate r target o).unitsFor t).isEmpty).flatMap
      (runAvailability target o).declaredIdentifiers).Nodup ∧
    (generate r target o).allSymbols.Nodup ∧
    ((generate r target o).artifacts.map fun a => Text.lower a.path).Nodup ∧
    (((generate r target o).artifacts.map Artifact.path).Pairwise
      fun a b => Text.before a b = true) ∧
    ∀ t ∈ cleanTypes r target o,
      ((generate r target o).unitsFor t = [] ↔ Clashes r target o t) ∧
      ((generate r target o).errorsFor t ≠ [] ↔ Clashes r target o t) ∧
      ∀ d ∈ (generate r target o).errorsFor t, d.kind = .namingConflict := by
  have hwf := Registry.build_wellFormed hr
  have hpaths := nodup_lower_paths hwf ho
  refine ⟨?_, nodup_allSymbols hwf ho, hpaths, ?_, fun t ht => ?_⟩
  · rw [survivors_eq hwf ho]
    exact nodup_declared_survivors hwf
  · have hdistinct : ((generate r target o).artifacts.map Artifact.path).Nodup :=
      List.Nodup.of_map Text.lower (by rwa [List.map_map])
    rw [generate_eq hwf ho] at hdistinct ⊢
    exact paths_increase hdistinct
  · obtain ⟨hrun, -⟩ := mem_cleanTypes.mp ht
    obtain ⟨hmem, henabled⟩ := mem_runTypes.mp hrun
    rw [unitsFor_generate hwf ho hmem, errorsFor_generate hwf ho hmem, if_pos henabled,
      if_pos henabled, Availability.ruleErrors_of_enables henabled, List.nil_append]
    rcases settled_cases hwf hrun with ⟨-, hclash, u, -, heq⟩ | ⟨hclash, hrefused⟩
    · simp [heq, TypeOutcome.unit, hclash]
    · obtain ⟨hclash, hkind⟩ := hclash ht
      refine ⟨?_, ?_, hkind⟩
      · simp [TypeOutcome.unit, hrefused.generated, hclash]
      · simp [hrefused.errors, hclash]

namespace Crowded

def point : TypeDef :=
  ⟨1, "Point", [], [], .record [⟨"x", [], .primitive .u8⟩]
    [⟨"option", [], [], .shared, [], .unit⟩]⟩

def upper : TypeDef := ⟨2, "Gauge", [], [], .object []⟩

def lower : TypeDef := ⟨3, "gauge", [], [], .synonym .u32⟩

def alone : TypeDef := ⟨4, "Level", [], [], .enumeration [⟨"low", [], 0⟩, ⟨"high", [], 1⟩]⟩

def registry : Registry := ⟨"crowded", [point, upper, lower, alone]⟩

def options : Options := ⟨[], 32, [], 0, true⟩

theorem build_registry : Registry.build "crowded" [point, upper, lower, alone] = .ok registry :=
  Registry.build_of_increasing _ (by decide) (by decide)

end Crowded

theorem generate_distinct_crowded :
    Clashes Crowded.registry .c Crowded.options Crowded.point ∧
    Clashes Crowded.registry .c Crowded.options Crowded.lower ∧
    ¬ Clashes Crowded.registry .c Crowded.options Crowded.alone ∧
    ((generate Crowded.registry .c Crowded.options).artifacts.map
      fun a => Text.lower a.path).Nodup := by
  have h := generate_distinct Crowded.build_registry .c Crowded.options rfl
  have hclean := h.2.2.2.2
  have hrun : Crowded.point ∈ cleanTypes Crowded.registry .c Crowded.options ∧
      Crowded.lower ∈ cleanTypes Crowded.registry .c Crowded.options ∧
      Crowded.alone ∈ cleanTypes Crowded.registry .c Crowded.options ∧
      (generate Crowded.registry .c Crowded.options).unitsFor Crowded.point = [] ∧
      (generate Crowded.registry .c Crowded.options).unitsFor Crowded.lower = [] ∧
      (generate Crowded.registry .c Crowded.options).unitsFor Crowded.alone ≠ [] := by
    decide +kernel
  obtain ⟨hpoint, hlower, halone, hno, hno', hunit⟩ := hrun
  exact ⟨(hclean _ hpoint).1.mp hno, (hclean _ hlower).1.mp hno',
    fun hclash => hunit ((hclean _ halone).1.mpr hclash), h.2.2.1⟩

end Bindery
