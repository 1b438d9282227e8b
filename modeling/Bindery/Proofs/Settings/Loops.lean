import Bindery.Proofs.Settings.Keys

/-!
The loops of the settings reader. Every round takes at least one byte, so the fuel that bounds a
loop is never used up, and each loop satisfies an equation that does not mention fuel.
-/

set_option autoImplicit false

namespace Bindery.Settings

namespace Cursor

variable (c : Cursor)

theorem skipSpaceFrom_suffix (line : Nat) (t : Text) : (skipSpaceFrom line t).rest <:+ t := by
  induction t generalizing line with
  | nil => exact List.suffix_refl _
  | cons b t ih =>
    rw [skipSpaceFrom]
    split_ifs
    · exact (ih _).trans (List.suffix_cons b t)
    · exact List.suffix_refl _

theorem skipSpace_suffix : c.skipSpace.rest <:+ c.rest := skipSpaceFrom_suffix c.line c.rest

theorem skipComment_suffix : c.skipComment.rest <:+ c.rest := by
  unfold skipComment
  split_ifs
  · exact List.dropWhile_suffix _
  · exact List.suffix_refl _

theorem skipLead_suffix : c.skipLead.rest <:+ c.rest :=
  ((skipSpace_suffix _).trans (skipComment_suffix _)).trans (skipSpace_suffix c)

theorem skipTriviaFrom_suffix (comment : Bool) (line : Nat) (t : Text) :
    (skipTriviaFrom comment line t).rest <:+ t := by
  induction t generalizing comment line with
  | nil => cases comment <;> exact List.suffix_refl _
  | cons b t ih =>
    have hstep : ∀ comment line, (skipTriviaFrom comment line t).rest <:+ b :: t :=
      fun comment line => (ih comment line).trans (List.suffix_cons b t)
    cases comment <;> rw [skipTriviaFrom] <;> split_ifs
    · exact hstep _ _
    · exact hstep _ _
    · exact List.suffix_refl _
    · exact hstep _ _
    · exact hstep _ _

theorem skipTrivia_suffix : c.skipTrivia.rest <:+ c.rest :=
  skipTriviaFrom_suffix false c.line c.rest

theorem skipOne_suffix : c.skipOne.rest <:+ c.rest := List.drop_suffix 1 c.rest

theorem skipInline_suffix : c.skipInline.rest <:+ c.rest := List.dropWhile_suffix _

variable {c}

theorem nextIs_iff {byte : UInt8} : c.nextIs byte = true ↔ ∃ rest, c.rest = byte :: rest := by
  rw [nextIs, peek?, beq_iff_eq, List.head?_eq_some_iff]

theorem skipOne_lt {byte : UInt8} (h : c.nextIs byte = true) :
    c.skipOne.rest.length < c.rest.length := by
  obtain ⟨rest, hrest⟩ := nextIs_iff.mp h
  simp [skipOne, hrest]

end Cursor

open Cursor

theorem word_suffix (c : Cursor) : (word c).2.rest <:+ c.rest := List.dropWhile_suffix _

theorem word_lt {c : Cursor} (h : (word c).1 ≠ []) : (word c).2.rest.length < c.rest.length := by
  have hsplit := congrArg List.length
    (List.takeWhile_append_dropWhile (p := isWordByte) (l := c.rest))
  rw [List.length_append] at hsplit
  have hpos := List.length_pos_iff.mpr h
  simp only [word] at hpos ⊢
  omega

theorem stringBody_quote (t : Text) : stringBody (Byte.quote :: t) = some ([], t) := by
  cases t <;> rfl

theorem stringBody_newline (t : Text) : stringBody (Byte.newline :: t) = none := by
  cases t <;> rfl

theorem stringBody_escape (e : UInt8) (t : Text) : stringBody (Byte.backslash :: e :: t) =
    (stringBody t).map fun r => (unescape e :: r.1, r.2) := rfl

theorem stringBody_plain {b : UInt8} (t : Text) (hquote : b ≠ Byte.quote)
    (hbreak : b ≠ Byte.newline) (hslash : b ≠ Byte.backslash) :
    stringBody (b :: t) = (stringBody t).map fun r => (b :: r.1, r.2) := by
  cases t <;> simp [stringBody, hquote, hbreak, hslash]

theorem stringBody_suffix {t value rest : Text} (h : stringBody t = some (value, rest)) :
    rest <:+ t := by
  fun_induction stringBody t generalizing value with
  | case1 => cases h
  | case2 t =>
    obtain ⟨-, rfl⟩ := Prod.mk.inj (Option.some.inj h)
    exact List.suffix_cons _ t
  | case3 => cases h
  | case4 => cases h
  | case5 e t _ _ ih =>
    obtain ⟨read, hread, heq⟩ := Option.map_eq_some_iff.mp h
    obtain ⟨-, rfl⟩ := Prod.mk.inj heq
    exact (ih hread).trans ((List.suffix_cons e t).trans (List.suffix_cons _ _))
  | case6 b t _ _ _ ih =>
    obtain ⟨read, hread, heq⟩ := Option.map_eq_some_iff.mp h
    obtain ⟨-, rfl⟩ := Prod.mk.inj heq
    exact (ih hread).trans (List.suffix_cons b t)

theorem stringValue_eq_ok {c after : Cursor} {value : Text}
    (h : stringValue c = .ok (value, after)) :
    ∃ body, c.rest = Byte.quote :: body ∧ stringBody body = some (value, after.rest) ∧
      after.line = c.line := by
  unfold stringValue at h
  split at h
  · cases h
  · rename_i b rest hc
    split_ifs at h with hquote
    split at h
    · rename_i hbody
      cases h
      exact ⟨rest, hquote ▸ hc, hbody, rfl⟩
    · cases h

theorem stringValue_suffix {c after : Cursor} {value : Text}
    (h : stringValue c = .ok (value, after)) : after.rest <:+ c.rest := by
  obtain ⟨body, hc, hbody, -⟩ := stringValue_eq_ok h
  rw [hc]
  exact (stringBody_suffix hbody).trans (List.suffix_cons _ body)

theorem stringValue_lt {c after : Cursor} {value : Text} (h : stringValue c = .ok (value, after)) :
    after.rest.length < c.rest.length := by
  obtain ⟨body, hc, hbody, -⟩ := stringValue_eq_ok h
  rw [hc]
  exact Nat.lt_succ_of_le (stringBody_suffix hbody).length_le

theorem skipComma_suffix (c : Cursor) : (skipComma c).rest <:+ c.rest := by
  unfold skipComma
  split_ifs
  · exact (skipSpace_suffix _).trans (skipOne_suffix c)
  · exact List.suffix_refl _

section
variable {σ α : Type} {size : σ → Nat} {round : (σ → α) → σ → α} (loop : Nat → σ → α)
  (hround : ∀ n x, loop (n + 1) x = round (loop n) x)
  (hsmaller : ∀ (f g : σ → α) (x : σ), (∀ y, size y < size x → f y = g y) → round f x = round g x)

include hround hsmaller in
/-- A loop whose rounds go on only with something smaller does not depend on its fuel. -/
theorem loop_congr {f g : Nat} {x : σ} (hf : size x < f) (hg : size x < g) :
    loop f x = loop g x := by
  induction f generalizing g x with
  | zero => omega
  | succ f ih =>
    obtain ⟨g, rfl⟩ : ∃ n, g = n + 1 := ⟨g - 1, by omega⟩
    rw [hround, hround]
    exact hsmaller _ _ _ fun y hy => ih (by omega) (by omega)

include hround hsmaller in
/-- With fuel enough at every start, one round is followed by the same loop. -/
theorem loop_unroll (x : σ) :
    loop (size x + 1) x = round (fun y => loop (size y + 1) y) x := by
  rw [hround]
  exact hsmaller _ _ _ fun y hy => loop_congr loop hround hsmaller hy (Nat.lt_succ_self _)

end

def itemsRound (next : Cursor → Result (List Text)) (c : Cursor) : Result (List Text) :=
  if c.atEnd then .error (c.fault .expectedArrayEnd)
  else if c.nextIs Byte.closeBracket then .ok ([], c.skipOne)
  else if c.skipLead.nextIs Byte.quote then
    match stringValue c.skipLead with
    | .error fault => .error fault
    | .ok (item, after) =>
      match next (skipComma after.skipSpace) with
      | .error fault => .error fault
      | .ok (rest, final) => .ok (item :: rest, final)
  else if c.skipLead.nextIs Byte.closeBracket then next c.skipLead
  else .error (c.skipLead.fault .expectedItem)

theorem items_succ (fuel : Nat) (c : Cursor) : items (fuel + 1) c = itemsRound (items fuel) c := rfl

theorem afterItem_lt {c after : Cursor} {item : Text}
    (h : stringValue c.skipLead = .ok (item, after)) :
    (skipComma after.skipSpace).rest.length < c.rest.length :=
  calc (skipComma after.skipSpace).rest.length
    _ ≤ after.rest.length := ((skipComma_suffix _).trans (skipSpace_suffix after)).length_le
    _ < c.skipLead.rest.length := stringValue_lt h
    _ ≤ c.rest.length := (skipLead_suffix c).length_le

/-- A byte that comes first only after blanks and a comment has bytes before it. -/
theorem skipLead_lt {c : Cursor} {byte : UInt8} (h : c.skipLead.nextIs byte = true)
    (hnot : ¬ c.nextIs byte = true) : c.skipLead.rest.length < c.rest.length := by
  refine Nat.lt_of_le_of_ne (skipLead_suffix c).length_le fun hlength => hnot ?_
  rw [nextIs, peek?, ← (skipLead_suffix c).eq_of_length hlength]
  exact h

theorem itemsRound_congr (f g : Cursor → Result (List Text)) (c : Cursor)
    (h : ∀ d : Cursor, d.rest.length < c.rest.length → f d = g d) :
    itemsRound f c = itemsRound g c := by
  unfold itemsRound
  split_ifs with hend hclose hquote hlead
  · rfl
  · rfl
  · cases hread : stringValue c.skipLead with
    | error fault => rfl
    | ok read => simp only [h _ (afterItem_lt hread)]
  · exact h _ (skipLead_lt hlead hclose)
  · rfl

def allItems (c : Cursor) : Result (List Text) := items (c.rest.length + 1) c

theorem allItems_eq (c : Cursor) : allItems c = itemsRound allItems c :=
  loop_unroll items items_succ itemsRound_congr c

theorem listValue_eq (c : Cursor) : listValue c =
    if c.nextIs Byte.openBracket then allItems c.skipOne.skipSpace
    else .error (c.fault .expectedArray) := by
  have hle := ((skipSpace_suffix _).trans (skipOne_suffix c)).length_le
  have hitems : items (c.rest.length + 1) c.skipOne.skipSpace = allItems c.skipOne.skipSpace :=
    loop_congr items items_succ itemsRound_congr (Nat.lt_succ_of_le hle) (Nat.lt_succ_self _)
  rw [listValue, hitems]

theorem itemsRound_suffix {next : Cursor → Result (List Text)} {c final : Cursor}
    {values : List Text}
    (hnext : ∀ d values, next d = .ok (values, final) → final.rest <:+ d.rest)
    (h : itemsRound next c = .ok (values, final)) : final.rest <:+ c.rest := by
  unfold itemsRound at h
  split_ifs at h
  · cases h
    exact skipOne_suffix c
  · split at h
    · cases h
    · rename_i item after hread
      split at h
      · cases h
      · rename_i rest final' hrest
        cases h
        have hafter := stringValue_suffix hread
        exact (hnext _ _ hrest).trans ((skipComma_suffix _).trans
          ((skipSpace_suffix after).trans (hafter.trans (skipLead_suffix c))))
  · exact (hnext _ _ h).trans (skipLead_suffix c)

theorem items_suffix {fuel : Nat} {c final : Cursor} {values : List Text}
    (h : items fuel c = .ok (values, final)) : final.rest <:+ c.rest := by
  induction fuel generalizing c values with
  | zero => cases h
  | succ fuel ih => exact itemsRound_suffix (fun d values hd => ih hd) h

theorem listValue_suffix {c after : Cursor} {values : List Text}
    (h : listValue c = .ok (values, after)) : after.rest <:+ c.rest := by
  unfold listValue at h
  split_ifs at h
  exact (items_suffix h).trans ((skipSpace_suffix _).trans (skipOne_suffix c))

theorem integerValue_suffix {c after : Cursor} {value : Int}
    (h : integerValue c = .ok (value, after)) : after.rest <:+ c.rest := by
  unfold integerValue at h
  dsimp only at h
  split_ifs at h
  all_goals
    cases h
    simp only [digits]
  · exact (List.dropWhile_suffix _).trans (List.drop_suffix 1 c.rest)
  · exact List.dropWhile_suffix _

theorem truthValue_suffix {c after : Cursor} {value : Bool}
    (h : truthValue c = .ok (value, after)) : after.rest <:+ c.rest := by
  unfold truthValue at h
  dsimp only at h
  split_ifs at h
  all_goals
    cases h
    exact word_suffix c

theorem stored_eq_ok {α : Type} {r : Result α} {store : α → Settings} {s : Settings}
    {after : Cursor} (h : stored r store = .ok (s, after)) :
    ∃ value, r = .ok (value, after) ∧ s = store value := by
  unfold stored at h
  split at h
  · cases h
    exact ⟨_, rfl, rfl⟩
  · cases h

theorem Kind.read_suffix {kind : Kind} {c after : Cursor} {value : kind.Value}
    (h : kind.read c = .ok (value, after)) : after.rest <:+ c.rest := by
  cases kind with
  | text => exact stringValue_suffix h
  | list => exact listValue_suffix h
  | integer => exact integerValue_suffix h
  | truth => exact truthValue_suffix h

theorem entry_suffix {inSection : Section} {s s' : Settings} {key : Text} {c after : Cursor}
    (h : entry inSection s key c = .ok (s', after)) : after.rest <:+ c.rest := by
  rw [entry_eq] at h
  split at h
  · obtain ⟨value, hvalue, -⟩ := stored_eq_ok h
    exact Kind.read_suffix hvalue
  · cases h

theorem key_suffix {c after : Cursor} {name : Option Text} (h : key c = .ok (name, after)) :
    after.rest <:+ c.rest := by
  unfold key at h
  dsimp only at h
  split_ifs at h
  · cases h
    exact skipLead_suffix c
  · cases h
    exact (((skipInline_suffix _).trans (skipOne_suffix _)).trans (skipSpace_suffix _)).trans
      ((word_suffix _).trans (skipLead_suffix c))

theorem key_lt {c after : Cursor} {name : Text} (h : key c = .ok (some name, after)) :
    after.rest.length < c.rest.length := by
  unfold key at h
  dsimp only at h
  split_ifs at h with hend hempty hequals
  · cases h
  · obtain ⟨-, rfl⟩ := Prod.mk.inj (Except.ok.inj h)
    have hname : (word c.skipLead).1 ≠ [] := fun hnil => hempty (List.isEmpty_iff.mpr hnil)
    calc (word c.skipLead).2.skipSpace.skipOne.skipInline.rest.length
      _ ≤ (word c.skipLead).2.rest.length :=
        (((skipInline_suffix _).trans (skipOne_suffix _)).trans (skipSpace_suffix _)).length_le
      _ < c.skipLead.rest.length := word_lt hname
      _ ≤ c.rest.length := (skipLead_suffix c).length_le

theorem key_none {c after : Cursor} (h : key c = .ok (none, after)) :
    after = c.skipLead ∧ (c.skipLead.atEnd = true ∨ c.skipLead.nextIs Byte.openBracket = true) := by
  unfold key at h
  dsimp only at h
  split_ifs at h with hend
  · cases h
    exact ⟨rfl, Bool.or_eq_true_iff.mp hend⟩
  · cases h

def entriesRound (inSection : Section) (next : Settings × Cursor → Result Settings)
    (x : Settings × Cursor) : Result Settings :=
  match key x.2 with
  | .error fault => .error fault
  | .ok (none, c) => .ok (x.1, c)
  | .ok (some k, c) =>
    match entry inSection x.1 k c with
    | .error fault => .error fault
    | .ok (s, c) => next (s, c)

theorem entries_succ (inSection : Section) (fuel : Nat) (x : Settings × Cursor) :
    entries inSection (fuel + 1) x.1 x.2 =
      entriesRound inSection (fun y => entries inSection fuel y.1 y.2) x := rfl

theorem entriesRound_congr (inSection : Section) (f g : Settings × Cursor → Result Settings)
    (x : Settings × Cursor) (h : ∀ y, y.2.rest.length < x.2.rest.length → f y = g y) :
    entriesRound inSection f x = entriesRound inSection g x := by
  unfold entriesRound
  split
  · rfl
  · rfl
  · rename_i k c hkey
    split
    · rfl
    · rename_i s c' hentry
      exact h _ (Nat.lt_of_le_of_lt (entry_suffix hentry).length_le (key_lt hkey))

def allEntries (inSection : Section) (x : Settings × Cursor) : Result Settings :=
  entries inSection (x.2.rest.length + 1) x.1 x.2

theorem allEntries_eq (inSection : Section) (x : Settings × Cursor) :
    allEntries inSection x = entriesRound inSection (allEntries inSection) x :=
  loop_unroll (fun fuel (y : Settings × Cursor) => entries inSection fuel y.1 y.2)
    (entries_succ inSection) (entriesRound_congr inSection) x

theorem entries_suffix {inSection : Section} {fuel : Nat} {s s' : Settings} {c after : Cursor}
    (h : entries inSection fuel s c = .ok (s', after)) : after.rest <:+ c.rest := by
  induction fuel generalizing s c with
  | zero =>
    cases h
    exact List.suffix_refl _
  | succ fuel ih =>
    rw [entries] at h
    split at h
    · cases h
    · rename_i hkey
      cases h
      obtain ⟨rfl, -⟩ := key_none hkey
      exact skipLead_suffix c
    · rename_i k d hkey
      split at h
      · cases h
      · rename_i hentry
        exact (ih h).trans ((entry_suffix hentry).trans (key_suffix hkey))

theorem header_lt {c after : Cursor} {inSection : Section} (h : header c = .ok (inSection, after)) :
    after.rest.length < c.rest.length := by
  unfold header at h
  dsimp only at h
  split_ifs at h with hopen
  split at h
  · cases h
    exact Nat.lt_of_le_of_lt ((skipOne_suffix _).trans (word_suffix _)).length_le (skipOne_lt hopen)
  · cases h

def oneSection (s : Settings) (c : Cursor) : Result Settings :=
  match header c with
  | .error fault => .error fault
  | .ok (inSection, after) => allEntries inSection (s, after)

theorem oneSection_lt {s s' : Settings} {c after : Cursor}
    (h : oneSection s c = .ok (s', after)) : after.rest.length < c.rest.length := by
  unfold oneSection at h
  split at h
  · cases h
  · rename_i hheader
    exact Nat.lt_of_le_of_lt (entries_suffix h).length_le (header_lt hheader)

def sectionsRound (next : Settings × Cursor → Except Fault Settings) (x : Settings × Cursor) :
    Except Fault Settings :=
  if x.2.skipTrivia.atEnd then .ok x.1
  else
    match oneSection x.1 x.2.skipTrivia with
    | .error fault => .error fault
    | .ok y => next y

theorem sections_succ (fuel : Nat) (x : Settings × Cursor) :
    sections (fuel + 1) x.1 x.2 = sectionsRound (fun y => sections fuel y.1 y.2) x := by
  rw [sections, sectionsRound, oneSection]
  cases header x.2.skipTrivia with
  | error fault => rfl
  | ok read =>
    dsimp only
    split_ifs
    · rfl
    · unfold allEntries
      split <;> simp_all

theorem sectionsRound_congr (f g : Settings × Cursor → Except Fault Settings)
    (x : Settings × Cursor) (h : ∀ y, y.2.rest.length < x.2.rest.length → f y = g y) :
    sectionsRound f x = sectionsRound g x := by
  unfold sectionsRound
  split_ifs
  · rfl
  · split
    · rfl
    · rename_i y hsection
      exact h y (Nat.lt_of_lt_of_le (oneSection_lt hsection) (skipTrivia_suffix x.2).length_le)

def allSections (x : Settings × Cursor) : Except Fault Settings :=
  sections (x.2.rest.length + 1) x.1 x.2

theorem allSections_eq (x : Settings × Cursor) : allSections x = sectionsRound allSections x :=
  loop_unroll (fun fuel (y : Settings × Cursor) => sections fuel y.1 y.2) sections_succ
    sectionsRound_congr x

theorem parse_eq_all (content : Text) : parse content = allSections ({}, .start content) := rfl

end Bindery.Settings
