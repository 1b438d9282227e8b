import Bindery.Proofs.Json.Numerals
import Bindery.Proofs.Log.Gate
import Mathlib.Data.Fintype.EquivFin

/-!
What a filter lets through. Its least level is reached by just the records that some source can
send, since there is always a source that has no level of its own. A written filter gives a source
the level of the last token that names it. A token is cut at its first equals sign, so a source
whose name has one is named by none.
-/

set_option autoImplicit false

namespace Bindery.Log

namespace Directive

theorem sides?_of_notMem {token : Text} (h : Byte.equals ∉ token) : sides? token = none := by
  have hdrop : token.dropWhile (· != Byte.equals) = [] :=
    List.dropWhile_eq_nil_iff.mpr fun c hc => bne_iff_ne.mpr (ne_of_mem_of_not_mem hc h)
  rw [sides?, hdrop]

theorem sides?_append {name : Text} (h : Byte.equals ∉ name) (word : Text) :
    sides? (name ++ Byte.equals :: word) = some (name, word) := by
  have hname : ∀ c ∈ name, (c != Byte.equals) = true := by
    intro c hc
    exact bne_iff_ne.mpr (ne_of_mem_of_not_mem hc h)
  simp [sides?, List.dropWhile_append_of_pos hname, List.takeWhile_append_of_pos hname]

theorem token_cases (token : Text) :
    Byte.equals ∉ token ∨
      ∃ name word, Byte.equals ∉ name ∧ token = name ++ Byte.equals :: word := by
  by_cases h : Byte.equals ∈ token
  · obtain ⟨name, word, htoken, hname⟩ := List.eq_append_cons_of_mem h
    exact .inr ⟨name, word, hname, htoken⟩
  · exact .inl h

def levelFor? (source : Text) : Directive → Option Level
  | .source name level => if name = source then some level else none
  | .default _ => none

def levelForOthers? : Directive → Option Level
  | .source _ _ => none
  | .default level => some level

def written? (name token : Text) : Option Level :=
  (Text.after? (name ++ [Byte.equals]) token).bind Level.ofName?

def asked? (source token : Text) : Option Level :=
  if token = source then some .trace else written? source token

theorem written?_of_notMem {token : Text} (h : Byte.equals ∉ token) (name : Text) :
    written? name token = none := by
  cases hafter : Text.after? (name ++ [Byte.equals]) token with
  | none => rw [written?, hafter, Option.bind_none]
  | some word =>
    rw [Json.after?_eq_some_iff] at hafter
    simp [hafter] at h

theorem written?_append {name other : Text} (hname : Byte.equals ∉ name)
    (hother : Byte.equals ∉ other) (word : Text) :
    written? other (name ++ Byte.equals :: word) =
      if name = other then Level.ofName? word else none := by
  split_ifs with heq
  · have hafter : Text.after? (other ++ [Byte.equals]) (name ++ Byte.equals :: word) = some word :=
      Json.after?_eq_some_iff.mpr (by simp [heq])
    rw [written?, hafter, Option.bind_some]
  · cases hafter : Text.after? (other ++ [Byte.equals]) (name ++ Byte.equals :: word) with
    | none => rw [written?, hafter, Option.bind_none]
    | some word' =>
      -- the same token would be cut at two places
      have htoken := Json.after?_eq_some_iff.mp hafter
      have hcut := sides?_append hname word
      rw [htoken, List.append_assoc, List.singleton_append, sides?_append hother] at hcut
      simp only [Option.some.injEq, Prod.mk.injEq] at hcut
      exact absurd hcut.1.symm heq

theorem ofToken?_bare {token : Text} (h : Byte.equals ∉ token) :
    ofToken? token = if token.isEmpty then none else some (.source token .trace) := by
  rw [ofToken?, sides?_of_notMem h]

theorem ofToken?_append {name : Text} (h : Byte.equals ∉ name) (word : Text) :
    ofToken? (name ++ Byte.equals :: word) = (Level.ofName? word).map (ofSides name) := by
  rw [ofToken?, sides?_append h]

theorem levelFor?_ofSides {source : Text} (hstar : source ≠ "*") (name : Text) (level : Level) :
    (ofSides name level).levelFor? source = if name = source then some level else none := by
  by_cases hall : name = "*"
  · simp [ofSides, hall, levelFor?, Ne.symm hstar]
  · simp [ofSides, hall, levelFor?]

theorem levelForOthers?_ofSides (name : Text) (level : Level) :
    (ofSides name level).levelForOthers? = if name = "*" then some level else none := by
  by_cases hall : name = "*"
  · simp [ofSides, hall, levelForOthers?]
  · simp [ofSides, hall, levelForOthers?]

theorem levelFor?_ofToken? {source : Text} (hne : source ≠ []) (hstar : source ≠ "*")
    (hequals : Byte.equals ∉ source) (token : Text) :
    (ofToken? token).bind (levelFor? source) = asked? source token := by
  rcases token_cases token with hbare | ⟨name, word, hname, rfl⟩
  · rw [ofToken?_bare hbare, asked?, written?_of_notMem hbare]
    by_cases htoken : token = source
    · simp [htoken, hne, levelFor?]
    · by_cases hempty : token.isEmpty = true
      · simp [hempty, htoken]
      · simp [hempty, htoken, levelFor?]
  · have htoken : name ++ Byte.equals :: word ≠ source := by
      rintro rfl
      simp at hequals
    rw [ofToken?_append hname, asked?, if_neg htoken, written?_append hname hequals]
    simp only [Option.bind_map, Function.comp_def, levelFor?_ofSides hstar]
    by_cases heq : name = source <;> simp [heq]

/-- No token is about a source with an equals sign in its name. -/
theorem levelFor?_ofToken?_of_mem {source : Text} (hequals : Byte.equals ∈ source)
    (token : Text) : (ofToken? token).bind (levelFor? source) = none := by
  rcases token_cases token with hbare | ⟨name, word, hname, rfl⟩
  · have htoken : token ≠ source := (ne_of_mem_of_not_mem' hequals hbare).symm
    rw [ofToken?_bare hbare]
    by_cases hempty : token.isEmpty = true
    · simp [hempty]
    · simp [hempty, levelFor?, htoken]
  · have hother : name ≠ source := (ne_of_mem_of_not_mem' hequals hname).symm
    have hstar : source ≠ "*" := ne_of_mem_of_not_mem' hequals (by decide)
    rw [ofToken?_append hname]
    simp [Option.bind_map, levelFor?_ofSides hstar, hother]

theorem levelForOthers?_ofToken? (token : Text) :
    (ofToken? token).bind levelForOthers? = written? "*" token := by
  rcases token_cases token with hbare | ⟨name, word, hname, rfl⟩
  · rw [ofToken?_bare hbare, written?_of_notMem hbare]
    by_cases hempty : token.isEmpty = true
    · simp [hempty]
    · simp [hempty, levelForOthers?]
  · rw [ofToken?_append hname, written?_append hname (by decide)]
    simp only [Option.bind_map, Function.comp_def, levelForOthers?_ofSides]
    by_cases hall : name = "*" <;> simp [hall]

end Directive

namespace Filter

open Directive

def tokens (filter : Text) : List Text := Text.splitOn Byte.comma filter

/-- The level that a written filter leaves to the sources it does not name: that of the last token
for all sources, or the one held before. -/
def levelForOthers (f : Filter) (filter : Text) : Level :=
  ((tokens filter).filterMap (written? "*")).getLast?.getD f.default

/-- The level that a written filter gives a source: that of the last token that names it. -/
def levelFor (f : Filter) (filter source : Text) : Level :=
  ((tokens filter).filterMap (asked? source)).getLast?.getD (f.levelForOthers filter)

theorem foldl_apply_default (directives : List Directive) (f : Filter) :
    (directives.foldl apply f).default =
      (directives.filterMap levelForOthers?).getLast?.getD f.default := by
  induction directives using List.reverseRecOn with
  | nil => rfl
  | append_singleton directives d ih =>
    rw [List.foldl_concat, List.filterMap_append, List.getLast?_append]
    cases d with
    | source name level => simpa [apply, levelForOthers?] using ih
    | default level => simp [apply, levelForOthers?]

theorem lookup_foldl_apply (source : Text) (directives : List Directive) (f : Filter) :
    (directives.foldl apply f).levels.lookup source =
      (directives.filterMap (levelFor? source)).getLast?.or (f.levels.lookup source) := by
  induction directives using List.reverseRecOn with
  | nil => rfl
  | append_singleton directives d ih =>
    rw [List.foldl_concat, List.filterMap_append, List.getLast?_append]
    cases d with
    | source name level =>
      rw [apply, Sorted.lookup_put Text.before_isOrder, ih]
      by_cases hname : name = source
      · simp [levelFor?, hname]
      · simp [levelFor?, hname, Ne.symm hname]
    | default level => simpa [apply, levelFor?] using ih

theorem parse_default (f : Filter) (filter : Text) :
    (f.parse filter).default = f.levelForOthers filter := by
  rw [parse, ofText, foldl_apply_default, List.filterMap_filterMap]
  simp only [levelForOthers?_ofToken?]
  rfl

/-- A source has the level of the last token whose directive is about it. -/
theorem threshold_parse (f : Filter) (filter source : Text) :
    (f.parse filter).threshold source =
      ((tokens filter).filterMap fun token =>
        (ofToken? token).bind (levelFor? source)).getLast?.getD (f.levelForOthers filter) := by
  rw [threshold, parse_default, parse, ofText, lookup_foldl_apply, List.filterMap_filterMap]
  simp [tokens]

theorem threshold_parse_of_notMem {source : Text} (hne : source ≠ []) (hstar : source ≠ "*")
    (hequals : Byte.equals ∉ source) (f : Filter) (filter : Text) :
    (f.parse filter).threshold source = f.levelFor filter source := by
  simp only [threshold_parse, levelFor?_ofToken? hne hstar hequals]
  rfl

theorem threshold_parse_of_mem {source : Text} (hequals : Byte.equals ∈ source) (f : Filter)
    (filter : Text) : (f.parse filter).threshold source = f.levelForOthers filter := by
  rw [threshold_parse]
  simp [levelFor?_ofToken?_of_mem hequals]

/-- There is always a source without a level of its own. -/
theorem exists_unlisted (f : Filter) : ∃ source, f.levels.lookup source = none := by
  obtain ⟨source, hsource⟩ := Infinite.exists_notMem_finset (f.levels.map Prod.fst).toFinset
  refine ⟨source, List.lookup_eq_none_iff.mpr fun e he => ?_⟩
  rw [bne_iff_ne]
  rintro rfl
  exact hsource (List.mem_toFinset.mpr (List.mem_map_of_mem he))

theorem Tidy.reaches_minLevel_iff {f : Filter} (h : f.Tidy) (level : Level) :
    level.reaches f.minLevel = true ↔ ∃ source, f.accepts level source = true := by
  simp only [accepts_eq_true_iff, Level.reaches, decide_eq_true_eq, minLevel_rank_le_iff]
  constructor
  · rintro (hdefault | ⟨⟨source, own⟩, hmem, hown⟩)
    · obtain ⟨source, hsource⟩ := f.exists_unlisted
      exact ⟨source, by rwa [threshold, hsource]⟩
    · have hlookup := (Sorted.lookup_eq_some_iff Text.before_isOrder h).mpr hmem
      exact ⟨source, by rwa [threshold, hlookup]⟩
  · rintro ⟨source, hsource⟩
    rw [threshold] at hsource
    cases hlookup : f.levels.lookup source with
    | none =>
      rw [hlookup] at hsource
      exact .inl hsource
    | some own =>
      rw [hlookup] at hsource
      exact .inr ⟨_, (Sorted.lookup_eq_some_iff Text.before_isOrder h).mp hlookup, hsource⟩

/-- A call that changes a filter. -/
inductive Change where
  | parse (filter : Text)
  | setDefault (level : Level)
  deriving DecidableEq, Repr

def change (f : Filter) : Change → Filter
  | .parse filter => f.parse filter
  | .setDefault level => { f with default := level }

/-- A new filter after some calls. -/
def after (changes : List Change) : Filter := changes.foldl change {}

theorem change_tidy {f : Filter} (h : f.Tidy) (c : Change) : (f.change c).Tidy := by
  cases c with
  | parse filter => exact parse_tidy f filter
  | setDefault level => exact h

theorem after_tidy (changes : List Change) : (after changes).Tidy := by
  induction changes using List.reverseRecOn with
  | nil => exact List.Pairwise.nil
  | append_singleton changes c ih =>
    rw [after, List.foldl_concat]
    exact change_tidy ih c

/-- The least level of a filter is exact after any calls. A written filter gives a source the level
of the last token that is its name, or its name with a known level; it leaves all others, among them
those with an equals sign in their name, what the last token for all says or what was held. -/
theorem minLevel_exact :
    (∀ (changes : List Change) (level : Level),
      level.reaches (after changes).minLevel = true ↔
        ∃ source, (after changes).accepts level source = true) ∧
    ∀ (f : Filter) (filter source : Text), source ≠ [] → source ≠ "*" → ∀ level,
      (Byte.equals ∉ source →
        (f.parse filter).accepts level source = level.reaches (f.levelFor filter source)) ∧
      (Byte.equals ∈ source →
        (f.parse filter).accepts level source = level.reaches (f.levelForOthers filter)) := by
  refine ⟨fun changes => (after_tidy changes).reaches_minLevel_iff, ?_⟩
  intro f filter source hne hstar level
  constructor
  · intro hequals
    rw [accepts, threshold_parse_of_notMem hne hstar hequals]
  · intro hequals
    rw [accepts, threshold_parse_of_mem hequals]

theorem minLevel_exact_overlaid :
    (parse {} "emit=info,*=debug,emit,emit=loud,,*=warn").accepts .trace "emit" = true ∧
    (parse {} "emit=info,*=debug,emit,emit=loud,,*=warn").accepts .info "abi" = false ∧
    (parse {} "a=b=error").accepts .info "a=b" = true ∧
    ∃ source, (after [.parse "emit=off,*=warn", .setDefault .debug]).accepts .debug source =
      true := by
  obtain ⟨hleast, hwritten⟩ := minLevel_exact
  have hemit := (hwritten {} "emit=info,*=debug,emit,emit=loud,,*=warn" "emit" (by decide)
    (by decide) .trace).1 (by decide)
  have habi := (hwritten {} "emit=info,*=debug,emit,emit=loud,,*=warn" "abi" (by decide)
    (by decide) .info).1 (by decide)
  have hequals := (hwritten {} "a=b=error" "a=b" (by decide) (by decide) .info).2 (by decide)
  exact ⟨hemit.trans (by decide), habi.trans (by decide), hequals.trans (by decide),
    (hleast _ .debug).mp (by decide)⟩

/-- The token `a=b=error` is cut behind `a`, so it is not about the source `a=b`. -/
theorem source_with_equals_unnamed :
    ¬ ∀ (f : Filter) (filter source : Text), source ≠ [] → source ≠ "*" → ∀ level,
      (f.parse filter).accepts level source = level.reaches (f.levelFor filter source) := by
  intro h
  have hsame := h {} "a=b=error" "a=b" (by decide) (by decide) .info
  revert hsame
  decide

end Filter

end Bindery.Log
