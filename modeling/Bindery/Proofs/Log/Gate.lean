import Bindery.Log.Logger
import Bindery.Proofs.Sorted
import Mathlib.Tactic.SplitIfs
import Mathlib.Tactic.Tauto

/-!
The level a gate looks at first, against the filter behind it. Starting a logger and setting its
filter take that level from the filter, so nothing is lost there. Setting the level alone raises it
over the levels that sources have of their own, and what these sources send below it is lost until
the next start or filter.
-/

set_option autoImplicit false

namespace Bindery.Log

theorem Level.lesser_rank_le_iff (a b : Level) (n : Nat) :
    (a.lesser b).rank ≤ n ↔ a.rank ≤ n ∨ b.rank ≤ n := by
  unfold lesser
  split_ifs <;> omega

namespace Filter

theorem minLevel_rank_le_iff (f : Filter) (n : Nat) :
    f.minLevel.rank ≤ n ↔ f.default.rank ≤ n ∨ ∃ e ∈ f.levels, e.2.rank ≤ n := by
  have hfold : ∀ (levels : List (Text × Level)) (least : Level),
      (levels.foldl (fun least e => e.2.lesser least) least).rank ≤ n ↔
        least.rank ≤ n ∨ ∃ e ∈ levels, e.2.rank ≤ n := by
    intro levels
    induction levels with
    | nil => simp
    | cons e levels ih =>
      intro least
      simp only [List.foldl_cons, ih, Level.lesser_rank_le_iff, List.mem_cons, exists_eq_or_imp]
      tauto
  exact hfold f.levels f.default

theorem le_minLevel_rank_iff (f : Filter) (n : Nat) :
    n ≤ f.minLevel.rank ↔ n ≤ f.default.rank ∧ ∀ e ∈ f.levels, n ≤ e.2.rank := by
  rcases n with _ | n
  · simp
  · have hiff := not_congr (f.minLevel_rank_le_iff n)
    simpa [not_or, Nat.succ_le_iff] using hiff

theorem accepts_eq_true_iff (f : Filter) (level : Level) (source : Text) :
    f.accepts level source = true ↔ (f.threshold source).rank ≤ level.rank :=
  decide_eq_true_iff

/-- One level at most for each source. -/
def Tidy (f : Filter) : Prop := Sorted.KeysIncrease Text.before f.levels

theorem parse_tidy (f : Filter) (filter : Text) : (f.parse filter).Tidy := by
  have hfold : ∀ (directives : List Directive) (g : Filter), g.Tidy →
      (directives.foldl apply g).Tidy := by
    intro directives
    induction directives with
    | nil => exact fun _ h => h
    | cons d directives ih =>
      intro g hg
      refine ih (g.apply d) ?_
      cases d with
      | source name level => exact Sorted.put_increasing Text.before_isOrder name level hg
      | default level => exact hg
  exact hfold _ _ List.Pairwise.nil

end Filter

namespace Gate

/-- What holds of a gate at all times: its filter is tidy, and no source without a level of its own
wants more than the gate lets pass. -/
structure Sound (g : Gate) : Prop where
  tidy : g.filter.Tidy
  level_le_default : g.level.rank ≤ g.filter.default.rank

/-- Nothing the filter wants is below the level of the gate. -/
def IsOpen (g : Gate) : Prop := g.level.rank ≤ g.filter.minLevel.rank

theorem isOpen_of_minLevel {g : Gate} (h : g.level = g.filter.minLevel) : g.IsOpen :=
  Nat.le_of_eq (congrArg Level.rank h)

theorem IsOpen.level_le_default {g : Gate} (h : g.IsOpen) :
    g.level.rank ≤ g.filter.default.rank := ((g.filter.le_minLevel_rank_iff _).mp h).1

theorem ofConfig_isOpen (level : Level) (filter : Text) : (ofConfig level filter).IsOpen := by
  unfold ofConfig
  split_ifs
  · exact isOpen_of_minLevel rfl
  · exact isOpen_of_minLevel rfl

theorem ofConfig_sound (level : Level) (filter : Text) : (ofConfig level filter).Sound := by
  refine ⟨?_, (ofConfig_isOpen level filter).level_le_default⟩
  unfold ofConfig
  split_ifs
  · exact List.Pairwise.nil
  · exact Filter.parse_tidy _ filter

theorem setFilter_isOpen (g : Gate) (filter : Text) : (g.setFilter filter).IsOpen :=
  isOpen_of_minLevel rfl

theorem setFilter_sound (g : Gate) (filter : Text) : (g.setFilter filter).Sound :=
  ⟨Filter.parse_tidy _ filter, (g.setFilter_isOpen filter).level_le_default⟩

theorem setLevel_sound {g : Gate} (h : g.Sound) (level : Level) : (g.setLevel level).Sound :=
  ⟨h.tidy, Nat.le_refl _⟩

theorem Sound.isOpen_iff {g : Gate} (h : g.Sound) :
    g.IsOpen ↔ ∀ e ∈ g.filter.levels, g.level.rank ≤ e.2.rank := by
  rw [IsOpen, Filter.le_minLevel_rank_iff, and_iff_right h.level_le_default]

/-- A record is lost between filter and gate exactly if its source has a level of its own that it
reaches, and it is below the level of the gate. -/
theorem Sound.dropped_iff {g : Gate} (h : g.Sound) (level : Level) (source : Text) :
    (g.filter.accepts level source = true ∧ g.passes level source = false) ↔
      ∃ own, g.filter.levels.lookup source = some own ∧ own.rank ≤ level.rank ∧
        level.rank < g.level.rank := by
  have hpasses : g.filter.accepts level source = true →
      (g.passes level source = false ↔ level.rank < g.level.rank) := by
    intro haccepts
    simp [passes, haccepts, Level.reaches]
  rw [and_congr_right hpasses, Filter.accepts_eq_true_iff, Filter.threshold]
  have hdefault := h.level_le_default
  cases g.filter.levels.lookup source with
  | none =>
    refine iff_of_false ?_ (by simp)
    rw [Option.getD_none]
    omega
  | some own => simp

theorem Sound.not_dropped {g : Gate} (h : g.Sound) (hopen : g.IsOpen) (level : Level)
    (source : Text) :
    ¬ (g.filter.accepts level source = true ∧ g.passes level source = false) := by
  rw [h.dropped_iff]
  rintro ⟨own, hown, hle, hlt⟩
  have hmem := (Sorted.lookup_eq_some_iff Text.before_isOrder h.tidy).mp hown
  have hlevel : g.level.rank ≤ own.rank := h.isOpen_iff.mp hopen _ hmem
  omega

/-- Looking at the level first makes no difference exactly if the gate is open. A record that is
lost otherwise is found at the level of some source. -/
theorem Sound.passes_eq_accepts_iff {g : Gate} (h : g.Sound) :
    (∀ level source, level ≠ .off → g.passes level source = g.filter.accepts level source) ↔
      g.IsOpen := by
  constructor
  · intro hsame
    refine h.isOpen_iff.mpr fun e he => ?_
    by_contra hlow
    have hown : g.filter.levels.lookup e.1 = some e.2 :=
      (Sorted.lookup_eq_some_iff Text.before_isOrder h.tidy).mpr he
    have hlevel : e.2 ≠ .off := by
      -- no gate is above `off`
      rintro hoff
      rw [hoff] at hlow
      have hrank : g.level.rank ≤ Level.off.rank := by cases g.level <;> decide
      exact hlow hrank
    obtain ⟨haccepts, hpasses⟩ :=
      (h.dropped_iff e.2 e.1).mpr ⟨e.2, hown, Nat.le_refl _, Nat.lt_of_not_le hlow⟩
    rw [hsame e.2 e.1 hlevel, haccepts] at hpasses
    cases hpasses
  · intro hopen level source _
    have hkept := h.not_dropped hopen level source
    cases haccepts : g.filter.accepts level source with
    | false => simp [passes, haccepts]
    | true => simpa [haccepts] using hkept

end Gate

/-- A call that changes what a logger lets through. -/
inductive Adjustment where
  | start (config : Config) (terminal : Bool)
  | setLevel (level : Level)
  | setFilter (filter : Text)
  deriving DecidableEq, Repr

namespace Logger

def adjust (s : Logger × Channels) : Adjustment → Logger × Channels
  | .start config terminal => s.1.start config terminal s.2
  | .setLevel level => ({ s.1 with gate := s.1.gate.setLevel level }, s.2)
  | .setFilter filter => ({ s.1 with gate := s.1.gate.setFilter filter }, s.2)

/-- The gate of a new logger after some calls. -/
def gateAfter (c : Channels) (calls : List Adjustment) : Gate :=
  (calls.foldl adjust ({}, c)).1.gate

theorem start_gate (l : Logger) (config : Config) (terminal : Bool) (c : Channels) :
    (l.start config terminal c).1.gate = .ofConfig config.level config.filter := by
  have hfile : ∀ (l : Logger) (c : Channels), (l.addFile config c).1.gate = l.gate := by
    intro l c
    unfold addFile
    split_ifs
    · rfl
    · cases LogFile.open? c.files config.file .append <;> rfl
  unfold start
  dsimp only
  rw [hfile]
  split_ifs <;> rfl

theorem adjust_sound {s : Logger × Channels} (h : s.1.gate.Sound) (call : Adjustment) :
    (adjust s call).1.gate.Sound := by
  cases call with
  | start config terminal =>
    rw [adjust, start_gate]
    exact Gate.ofConfig_sound _ _
  | setLevel level => exact Gate.setLevel_sound h level
  | setFilter filter => exact Gate.setFilter_sound _ filter

theorem gateAfter_sound (c : Channels) (calls : List Adjustment) : (gateAfter c calls).Sound := by
  have hrun : ∀ s : Logger × Channels, s.1.gate.Sound →
      (calls.foldl adjust s).1.gate.Sound := by
    induction calls with
    | nil => exact fun _ h => h
    | cons call calls ih => exact fun s h => ih (adjust s call) (adjust_sound h call)
  exact hrun _ ⟨List.Pairwise.nil, Nat.le_refl _⟩

/-- Only a level set last leaves a gate that may not be open. -/
theorem gateAfter_cases (c : Channels) (calls : List Adjustment) :
    (gateAfter c calls).IsOpen ∧ (∀ level, calls.getLast? ≠ some (.setLevel level)) ∨
      ∃ level, calls.getLast? = some (.setLevel level) ∧ (gateAfter c calls).level = level := by
  rcases List.eq_nil_or_concat calls with rfl | ⟨before, call, rfl⟩
  · exact .inl ⟨Gate.isOpen_of_minLevel rfl, by simp⟩
  · rw [gateAfter, List.concat_eq_append, List.foldl_concat, List.getLast?_concat]
    cases call with
    | start config terminal =>
      rw [adjust, start_gate]
      exact .inl ⟨Gate.ofConfig_isOpen _ _, by simp⟩
    | setLevel level => exact .inr ⟨level, rfl, rfl⟩
    | setFilter filter => exact .inl ⟨Gate.setFilter_isOpen _ filter, by simp⟩

/-- After any calls, the level looked at first makes no difference exactly if it is not above the
least level of the filter, and that is so unless the last call set a level above that of some
source. The records lost then are those of such sources that reach their level and not the one
set. -/
theorem passes_eq_accepts_unless (c : Channels) (calls : List Adjustment) :
    ((∀ level source, level ≠ .off → (gateAfter c calls).passes level source =
        (gateAfter c calls).filter.accepts level source) ↔
      (gateAfter c calls).level.rank ≤ (gateAfter c calls).filter.minLevel.rank) ∧
    ((gateAfter c calls).level.rank ≤ (gateAfter c calls).filter.minLevel.rank ↔
      ∀ floor, calls.getLast? = some (.setLevel floor) →
        ∀ e ∈ (gateAfter c calls).filter.levels, floor.rank ≤ e.2.rank) ∧
    ∀ level source,
      ((gateAfter c calls).filter.accepts level source = true ∧
        (gateAfter c calls).passes level source = false) ↔
      ∃ floor own, calls.getLast? = some (.setLevel floor) ∧
        (gateAfter c calls).filter.levels.lookup source = some own ∧ own.rank ≤ level.rank ∧
        level.rank < floor.rank := by
  have hsound := gateAfter_sound c calls
  refine ⟨hsound.passes_eq_accepts_iff, ?_, fun level source => ?_⟩
  · rcases gateAfter_cases c calls with ⟨hopen, hother⟩ | ⟨floor, hlast, hlevel⟩
    · exact iff_of_true hopen fun floor hlast => absurd hlast (hother floor)
    · have hiff := hsound.isOpen_iff
      rw [Gate.IsOpen] at hiff
      rw [hiff, hlevel, hlast]
      simp
  · rcases gateAfter_cases c calls with ⟨hopen, hother⟩ | ⟨floor, hlast, hlevel⟩
    · refine iff_of_false (hsound.not_dropped hopen level source) ?_
      exact fun ⟨floor, own, hlast, _⟩ => hother floor hlast
    · rw [hsound.dropped_iff, hlevel, hlast]
      simp

/-- A logger started with a level for one source, and then given a level of its own, drops what its
filter accepts from that source. -/
theorem gate_drops_accepted :
    ¬ ∀ (c : Channels) (calls : List Adjustment) (level : Level) (source : Text), level ≠ .off →
      (gateAfter c calls).passes level source =
        (gateAfter c calls).filter.accepts level source := by
  intro h
  have hsame := h { files := { workingDirectory := [] } }
    [.start { filter := "emit=trace" } false, .setLevel .warn] .trace "emit" (by decide)
  revert hsame
  decide

end Logger

end Bindery.Log
