import Bindery.Availability
import Mathlib.Data.List.Basic
import Mathlib.Tactic.SplitIfs
import Mathlib.Tactic.Tauto

/-!
What a list of rules comes to, said rule by rule. A rule with an empty name spoils the list wherever
it stands and whether or not it applies. Otherwise the rules that count have to agree, and which of
them count does not depend on their order, on repetitions, or on features no rule asks for.
-/

set_option autoImplicit false

namespace Bindery

namespace Rule

/-- The rule is for no target or asks for a feature without a name. -/
def HasEmptyName (r : Rule) : Prop := r.target = [] ∨ [] ∈ r.features

/-- The features of the rule are active, and the target is among those it speaks about. -/
structure Applies (r : Rule) (target : Text) (active : List Text) : Prop where
  features : ∀ f ∈ r.features, f ∈ active
  target : r.target = target ∨ r.target = "*"

/-- A rule that applies counts if it names the target; one for every target counts if no rule that
applies names it. -/
structure Counts (rules : List Rule) (target : Text) (active : List Text) (r : Rule) : Prop where
  mem : r ∈ rules
  applies : r.Applies target active
  exact_first : r.target = target ∨ ∀ s ∈ rules, s.Applies target active → s.target ≠ target

variable {r : Rule} {active : List Text}

theorem malformed?_eq_none_iff : r.malformed? = none ↔ ¬ r.HasEmptyName := by
  unfold malformed? HasEmptyName
  have hfeatures : r.features.any List.isEmpty = true ↔ [] ∈ r.features := by
    simp [List.any_eq_true]
  by_cases htarget : r.target = []
  · simp [htarget]
  · rw [if_neg (by simpa using htarget)]
    by_cases hempty : [] ∈ r.features
    · rw [if_pos (hfeatures.mpr hempty)]
      simp [hempty]
    · rw [if_neg (mt hfeatures.mp hempty)]
      simp [htarget, hempty]

theorem appliesUnder_iff : r.appliesUnder active = true ↔ ∀ f ∈ r.features, f ∈ active := by
  simp [appliesUnder]

end Rule

section
variable {rules rules' : List Rule} {target : Text} {active active' : List Text} {r : Rule}

theorem mem_consideredRules :
    r ∈ consideredRules rules target active ↔ r.Counts rules target active := by
  have hexact : ((rules.filter fun s => s.appliesUnder active).filter fun s =>
      s.target == target) = [] ↔ ∀ s ∈ rules, s.Applies target active → s.target ≠ target := by
    simp only [List.filter_eq_nil_iff, List.mem_filter, Rule.appliesUnder_iff, beq_iff_eq]
    constructor
    · exact fun h s hs ha => h s ⟨hs, ha.features⟩
    · exact fun h s hs htarget => h s hs.1 ⟨hs.2, .inl htarget⟩ htarget
  unfold consideredRules
  simp only [List.isEmpty_iff]
  split_ifs with hnone
  · have hno := hexact.mp hnone
    simp only [List.mem_filter, Rule.appliesUnder_iff, beq_iff_eq]
    constructor
    · exact fun h => ⟨h.1.1, ⟨h.1.2, .inr h.2⟩, .inr hno⟩
    · intro h
      have hother := h.applies.target.resolve_left (hno r h.mem h.applies)
      exact ⟨⟨h.mem, h.applies.features⟩, hother⟩
  · simp only [List.mem_filter, Rule.appliesUnder_iff, beq_iff_eq]
    constructor
    · exact fun h => ⟨h.1.1, ⟨h.1.2, .inl h.2⟩, .inl h.2⟩
    · intro h
      have hnames := h.exact_first.resolve_right (mt hexact.mpr hnone)
      exact ⟨⟨h.mem, h.applies.features⟩, hnames⟩

/-- Two rules that count say different things. -/
def Contradict (rules : List Rule) (target : Text) (active : List Text) : Prop :=
  ∃ r s : Rule, r.Counts rules target active ∧ s.Counts rules target active ∧ r.enabled ≠ s.enabled

theorem not_contradict_of_agree {b : Bool}
    (h : ∀ r : Rule, r.Counts rules target active → r.enabled = b) :
    ¬ Contradict rules target active := by
  rintro ⟨r, s, hr, hs, hne⟩
  exact hne ((h r hr).trans (h s hs).symm)

/-- The three ways resolving a list can end. -/
theorem resolveRules_cases (rules : List Rule) (target : Text) (active : List Text) :
    (∃ fault, resolveRules rules target active = .error fault ∧
      (fault = .emptyTarget ∨ fault = .emptyFeature) ∧ ∃ r ∈ rules, r.HasEmptyName) ∨
    (∀ r ∈ rules, ¬ r.HasEmptyName) ∧ (
      resolveRules rules target active = .error (.contradiction target) ∧
        Contradict rules target active ∨
      ∃ b, resolveRules rules target active = .ok b ∧
        (∀ r : Rule, r.Counts rules target active → r.enabled = b) ∧
        ((∃ r : Rule, r.Counts rules target active) ∨ b = true)) := by
  unfold resolveRules
  cases hfind : rules.findSome? Rule.malformed? with
  | some fault =>
    obtain ⟨r, hr, hfault⟩ := List.exists_of_findSome?_eq_some hfind
    have hempty : r.HasEmptyName := by
      by_contra hnone
      rw [Rule.malformed?_eq_none_iff.mpr hnone] at hfault
      exact absurd hfault (by simp)
    refine .inl ⟨fault, rfl, ?_, r, hr, hempty⟩
    unfold Rule.malformed? at hfault
    split_ifs at hfault <;> simp_all
  | none =>
    have hnamed : ∀ r ∈ rules, ¬ r.HasEmptyName := fun r hr =>
      Rule.malformed?_eq_none_iff.mp (List.findSome?_eq_none_iff.mp hfind r hr)
    refine .inr ⟨hnamed, ?_⟩
    simp only [← mem_consideredRules, Contradict]
    cases consideredRules rules target active with
    | nil => exact .inr ⟨true, rfl, by simp, .inr rfl⟩
    | cons r rs =>
      dsimp only
      split_ifs with hagree
      · simp only [List.all_eq_true, beq_iff_eq] at hagree
        refine .inr ⟨r.enabled, rfl, ?_, .inl ⟨r, List.mem_cons_self⟩⟩
        exact List.forall_mem_cons.mpr ⟨rfl, hagree⟩
      · simp only [List.all_eq_true, beq_iff_eq, not_forall] at hagree
        obtain ⟨s, hs, hne⟩ := hagree
        exact .inl ⟨rfl, s, r, List.mem_cons_of_mem r hs, List.mem_cons_self, hne⟩

theorem resolveRules_eq_ok_iff {b : Bool} : resolveRules rules target active = .ok b ↔
    (∀ r ∈ rules, ¬ r.HasEmptyName) ∧ (∀ r : Rule, r.Counts rules target active → r.enabled = b) ∧
      ((∃ r : Rule, r.Counts rules target active) ∨ b = true) := by
  rcases resolveRules_cases rules target active with
    ⟨fault, h, -, r, hr, hbad⟩ | ⟨hnamed, ⟨h, hne⟩ | ⟨b', h, hagree, hsome⟩⟩
  · rw [h]
    exact iff_of_false (by simp) fun hok => hok.1 r hr hbad
  · rw [h]
    exact iff_of_false (by simp) fun hok => not_contradict_of_agree hok.2.1 hne
  · rw [h, Except.ok.injEq]
    constructor
    · rintro rfl
      exact ⟨hnamed, hagree, hsome⟩
    · rintro ⟨-, hagree', hsome'⟩
      rcases hsome with ⟨r, hr⟩ | rfl
      · exact (hagree r hr).symm.trans (hagree' r hr)
      · rcases hsome' with ⟨r, hr⟩ | rfl
        · exact (hagree r hr).symm.trans (hagree' r hr)
        · rfl

theorem resolveRules_eq_contradiction_iff {named : Text} :
    resolveRules rules target active = .error (.contradiction named) ↔
      named = target ∧ (∀ r ∈ rules, ¬ r.HasEmptyName) ∧ Contradict rules target active := by
  rcases resolveRules_cases rules target active with
    ⟨fault, h, hfault, r, hr, hbad⟩ | ⟨hnamed, ⟨h, hne⟩ | ⟨b, h, hagree, -⟩⟩
  · rw [h]
    refine iff_of_false ?_ fun hall => hall.2.1 r hr hbad
    rcases hfault with rfl | rfl <;> simp
  · rw [h, Except.error.injEq, RuleFault.contradiction.injEq]
    exact ⟨fun h => ⟨h.symm, hnamed, hne⟩, fun hall => hall.1.symm⟩
  · rw [h]
    exact iff_of_false (by simp) fun hall => not_contradict_of_agree hagree hall.2.2

theorem resolveRules_isError_iff : (∃ fault, resolveRules rules target active = .error fault) ↔
    (∃ r ∈ rules, r.HasEmptyName) ∨ Contradict rules target active := by
  rcases resolveRules_cases rules target active with
    ⟨fault, h, -, hbad⟩ | ⟨hnamed, ⟨h, hne⟩ | ⟨b, h, hagree, -⟩⟩
  · exact iff_of_true ⟨fault, h⟩ (.inl hbad)
  · exact iff_of_true ⟨_, h⟩ (.inr hne)
  · refine iff_of_false (by simp [h]) ?_
    rintro (⟨r, hr, hbad⟩ | hne)
    · exact hnamed r hr hbad
    · exact not_contradict_of_agree hagree hne

theorem Rule.Counts.congr_mem (h : ∀ r, r ∈ rules' ↔ r ∈ rules) :
    r.Counts rules' target active ↔ r.Counts rules target active := by
  constructor
  · exact fun hr => ⟨(h r).mp hr.mem, hr.applies,
      hr.exact_first.imp_right fun hno s hs => hno s ((h s).mpr hs)⟩
  · exact fun hr => ⟨(h r).mpr hr.mem, hr.applies,
      hr.exact_first.imp_right fun hno s hs => hno s ((h s).mp hs)⟩

theorem resolveRules_congr_mem (h : ∀ r, r ∈ rules' ↔ r ∈ rules) :
    (resolveRules rules' target active).toOption = (resolveRules rules target active).toOption := by
  have hok : ∀ b, resolveRules rules' target active = .ok b ↔
      resolveRules rules target active = .ok b := by
    intro b
    simp only [resolveRules_eq_ok_iff, Rule.Counts.congr_mem h, h]
  cases hr : resolveRules rules target active with
  | ok b => rw [(hok b).mpr hr]
  | error fault =>
    cases hr' : resolveRules rules' target active with
    | error fault' => rfl
    | ok b => exact absurd (hr.symm.trans ((hok b).mp hr')) (by simp)

theorem consideredRules_congr_active
    (h : ∀ r ∈ rules, ∀ f ∈ r.features, f ∈ active' ↔ f ∈ active) :
    consideredRules rules target active' = consideredRules rules target active := by
  have happlies : ∀ r ∈ rules, r.appliesUnder active' = r.appliesUnder active := by
    intro r hr
    rw [Bool.eq_iff_iff, Rule.appliesUnder_iff, Rule.appliesUnder_iff]
    exact forall₂_congr fun f hf => h r hr f hf
  unfold consideredRules
  rw [List.filter_congr happlies]

end

/-- Resolving fails exactly if a name is empty in some rule or the rules that count disagree, and an
empty name is reported first. Otherwise the result is what the rules that count say, and the item is
available if none does. Rules may be reordered and repeated, and features that no rule asks for may
come and go; in the last case even the message of a failure is the same. -/
theorem resolveRules_decides (rules : List Rule) (target : Text) (active : List Text) :
    ((∃ fault, resolveRules rules target active = .error fault) ↔
      (∃ r ∈ rules, r.HasEmptyName) ∨ Contradict rules target active) ∧
    (∀ named, resolveRules rules target active = .error (.contradiction named) ↔
      named = target ∧ (∀ r ∈ rules, ¬ r.HasEmptyName) ∧ Contradict rules target active) ∧
    (∀ b, resolveRules rules target active = .ok b ↔
      (∀ r ∈ rules, ¬ r.HasEmptyName) ∧ (∀ r : Rule, r.Counts rules target active → r.enabled = b) ∧
        ((∃ r : Rule, r.Counts rules target active) ∨ b = true)) ∧
    (∀ rules' : List Rule, (∀ r, r ∈ rules' ↔ r ∈ rules) →
      (resolveRules rules' target active).toOption =
        (resolveRules rules target active).toOption) ∧
    ∀ active' : List Text, (∀ r ∈ rules, ∀ f ∈ r.features, f ∈ active' ↔ f ∈ active) →
      resolveRules rules target active' = resolveRules rules target active := by
  refine ⟨resolveRules_isError_iff, fun named => resolveRules_eq_contradiction_iff,
    fun b => resolveRules_eq_ok_iff, fun rules' h => resolveRules_congr_mem h, ?_⟩
  intro active' h
  rw [resolveRules, consideredRules_congr_active h, resolveRules]

namespace Rule

def guarded : List Rule := [⟨"*", [], false⟩, ⟨"c", ["simd"], true⟩, ⟨"cpp", [], true⟩]

def shuffled : List Rule :=
  [⟨"c", ["simd"], true⟩, ⟨"*", [], false⟩, ⟨"*", [], false⟩, ⟨"cpp", [], true⟩, ⟨"*", [], false⟩]

end Rule

theorem resolveRules_decides_shuffled :
    (resolveRules Rule.shuffled "c" ["simd"]).toOption = some true ∧
    resolveRules Rule.guarded "c" ["logs", "simd"] = .ok true ∧
    resolveRules Rule.guarded "c" ["logs"] = .ok false ∧
    Rule.Counts Rule.guarded "c" ["simd"] ⟨"c", ["simd"], true⟩ := by
  obtain ⟨-, -, -, hsame, hactive⟩ := resolveRules_decides Rule.guarded "c" ["simd"]
  obtain ⟨-, -, -, -, hidle⟩ := resolveRules_decides Rule.guarded "c" []
  refine ⟨(hsame Rule.shuffled ?_).trans rfl, (hactive ["logs", "simd"] (by decide)).trans rfl,
    (hidle ["logs"] (by decide)).trans rfl, mem_consideredRules.mp (by decide)⟩
  intro r
  simp only [Rule.shuffled, Rule.guarded, List.mem_cons, List.not_mem_nil, or_false]
  tauto

end Bindery
