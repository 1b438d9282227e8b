import Bindery.Proofs.Settings.Loops

/-!
Blanks and comments. What skipping them leaves, and how far it counts the lines.
-/

set_option autoImplicit false

namespace Bindery.Settings

section
variable {p : UInt8 → Bool} {t rest : Text} (ht : ∀ b ∈ t, p b = true)
  (hrest : ∀ b ∈ rest.head?, p b = false)

include ht hrest in
theorem takeWhile_append_stop : (t ++ rest).takeWhile p = t := by
  rw [List.takeWhile_append_of_pos ht]
  cases rest with
  | nil => exact List.append_nil t
  | cons b rest => rw [List.takeWhile_cons_of_neg (by simp [hrest b rfl]), List.append_nil]

include ht hrest in
theorem dropWhile_append_stop : (t ++ rest).dropWhile p = rest := by
  rw [List.dropWhile_append_of_pos ht]
  cases rest with
  | nil => rfl
  | cons b rest => rw [List.dropWhile_cons_of_neg (by simp [hrest b rfl])]

end

theorem word_append {t rest : Text} (ht : ∀ b ∈ t, isWordByte b = true)
    (hrest : ∀ b ∈ rest.head?, isWordByte b = false) (line : Nat) :
    word ⟨t ++ rest, line⟩ = (t, ⟨rest, line⟩) := by
  rw [word, takeWhile_append_stop ht hrest, dropWhile_append_stop ht hrest]

namespace Cursor

theorem skipSpaceFrom_eq (line : Nat) (t : Text) : skipSpaceFrom line t =
    ⟨t.dropWhile Byte.isSpace, line + (t.takeWhile Byte.isSpace).count Byte.newline⟩ := by
  induction t generalizing line with
  | nil => rfl
  | cons b t ih =>
    rw [skipSpaceFrom, List.dropWhile_cons, List.takeWhile_cons]
    split_ifs with hb
    · rw [ih, countBreak, List.count_cons]
      by_cases hbreak : b = Byte.newline
      · simp only [hbreak, ↓reduceIte, beq_self_eq_true]
        congr 1
        omega
      · simp [hbreak]
    · rfl

theorem isSpace_of_skipSpace {c : Cursor} {b : UInt8} (h : c.skipSpace.rest.head? = some b) :
    Byte.isSpace b = false := by
  rw [skipSpace, skipSpaceFrom_eq] at h
  have hhead := List.head?_dropWhile_not Byte.isSpace c.rest
  rw [h] at hhead
  exact hhead

theorem skipTriviaFrom_comment (line : Nat) (t : Text) : skipTriviaFrom true line t =
    skipTriviaFrom false line (t.dropWhile (· != Byte.newline)) := by
  induction t with
  | nil => rfl
  | cons b t ih =>
    rw [skipTriviaFrom]
    by_cases hbreak : b = Byte.newline
    · subst hbreak
      rfl
    · rw [if_neg hbreak, ih, List.dropWhile_cons_of_pos (by simpa using hbreak)]

theorem skipTriviaFrom_space (line : Nat) (t : Text) : skipTriviaFrom false line t =
    skipTriviaFrom false (skipSpaceFrom line t).line (skipSpaceFrom line t).rest := by
  induction t generalizing line with
  | nil => rfl
  | cons b t ih =>
    rw [skipSpaceFrom]
    split_ifs with hspace
    · rw [skipTriviaFrom, if_pos hspace, ih]
    · rfl

/-- Blanks and comments in any number begin with blanks and one comment. -/
theorem skipTrivia_eq (c : Cursor) : c.skipTrivia = c.skipSpace.skipComment.skipTrivia := by
  have hspace : c.skipTrivia = c.skipSpace.skipTrivia := skipTriviaFrom_space c.line c.rest
  rw [hspace, skipComment]
  split_ifs with hhash
  · obtain ⟨rest, hrest⟩ := nextIs_iff.mp hhash
    have hskip : skipTriviaFrom false c.skipSpace.line (Byte.hash :: rest) =
        skipTriviaFrom true c.skipSpace.line rest := rfl
    rw [skipTrivia, skipTrivia, hrest, hskip, skipTriviaFrom_comment]
    rfl
  · rfl

theorem skipTrivia_of_head {c : Cursor}
    (h : ∀ b ∈ c.rest.head?, Byte.isSpace b = false ∧ b ≠ Byte.hash) : c.skipTrivia = c := by
  obtain ⟨rest, line⟩ := c
  cases rest with
  | nil => rfl
  | cons b rest =>
    obtain ⟨hspace, hhash⟩ := h b rfl
    simp [skipTrivia, skipTriviaFrom, hspace, hhash]

theorem ne_hash_of_skipComment {c : Cursor} {b : UInt8} (h : c.skipComment.rest.head? = some b) :
    b ≠ Byte.hash := by
  rw [skipComment] at h
  split_ifs at h with hhash
  · have hhead := List.head?_dropWhile_not (· != Byte.newline) c.rest
    rw [h] at hhead
    rintro rfl
    cases hhead
  · rintro rfl
    exact hhash (by rw [nextIs, peek?, h]; rfl)

/-- A blank comes next only behind a comment. -/
theorem skipComment_lt {c : Cursor} {b : UInt8} (h : c.skipSpace.skipComment.rest.head? = some b)
    (hspace : Byte.isSpace b = true) : c.skipSpace.skipComment.rest.length < c.rest.length := by
  have hsuffix := skipComment_suffix c.skipSpace
  refine Nat.lt_of_lt_of_le (Nat.lt_of_le_of_ne hsuffix.length_le fun hlength => ?_)
    (skipSpace_suffix c).length_le
  rw [hsuffix.eq_of_length hlength] at h
  rw [isSpace_of_skipSpace h] at hspace
  cases hspace

theorem skipSpace_append {w t : Text} (hw : ∀ b ∈ w, Byte.isSpace b = true)
    (ht : ∀ b ∈ t.head?, Byte.isSpace b = false) (line : Nat) :
    skipSpace ⟨w ++ t, line⟩ = ⟨t, line + w.count Byte.newline⟩ := by
  rw [skipSpace, skipSpaceFrom_eq, takeWhile_append_stop hw ht, dropWhile_append_stop hw ht]

theorem skipSpace_of_head {c : Cursor} (h : ∀ b ∈ c.rest.head?, Byte.isSpace b = false) :
    c.skipSpace = c := skipSpace_append (List.forall_mem_nil _) h c.line

theorem skipComment_of_head {c : Cursor} (h : ∀ b ∈ c.rest.head?, b ≠ Byte.hash) :
    c.skipComment = c := by
  rw [skipComment, if_neg]
  intro hhash
  obtain ⟨rest, hrest⟩ := nextIs_iff.mp hhash
  exact h Byte.hash (by rw [hrest]; rfl) rfl

theorem skipSpace_blanks {w : Text} (hw : ∀ b ∈ w, Byte.isSpace b = true) (t : Text) (line : Nat) :
    skipSpace ⟨w ++ t, line⟩ = skipSpace ⟨t, line + w.count Byte.newline⟩ := by
  simp only [skipSpace, skipSpaceFrom_eq]
  rw [List.dropWhile_append_of_pos hw, List.takeWhile_append_of_pos hw, List.count_append,
    Nat.add_assoc]

theorem skipSpace_skipSpace (c : Cursor) : c.skipSpace.skipSpace = c.skipSpace :=
  skipSpace_of_head fun _ hb => isSpace_of_skipSpace hb

theorem skipComment_remark {remark t : Text} (hremark : Byte.newline ∉ remark)
    (ht : ∀ b ∈ t.head?, b = Byte.newline) (line : Nat) :
    skipComment ⟨Byte.hash :: (remark ++ t), line⟩ = ⟨t, line⟩ := by
  have hdrop : (remark ++ t).dropWhile (· != Byte.newline) = t := by
    refine dropWhile_append_stop (fun b hb => ?_) (fun b hb => ?_)
    · simp only [bne_iff_ne]
      rintro rfl
      exact hremark hb
    · rw [ht b hb]
      rfl
  have hskip : skipComment ⟨Byte.hash :: (remark ++ t), line⟩ =
      ⟨(remark ++ t).dropWhile (· != Byte.newline), line⟩ := rfl
  rw [hskip, hdrop]

end Cursor

theorem allSections_skip (s : Settings) (c : Cursor) :
    allSections (s, c) = allSections (s, c.skipSpace.skipComment) := by
  rw [allSections_eq, allSections_eq (s, c.skipSpace.skipComment)]
  unfold sectionsRound
  rw [← Cursor.skipTrivia_eq]

theorem allSections_blanks {w : Text} (hw : ∀ b ∈ w, Byte.isSpace b = true) (s : Settings)
    (t : Text) (line : Nat) :
    allSections (s, ⟨w ++ t, line⟩) = allSections (s, ⟨t, line + w.count Byte.newline⟩) := by
  rw [allSections_skip, Cursor.skipSpace_blanks hw, ← allSections_skip]

/-- Where neither a blank nor a comment comes next, the file ends or a section starts. -/
theorem allSections_here {s : Settings} {c : Cursor}
    (h : ∀ b ∈ c.rest.head?, Byte.isSpace b = false ∧ b ≠ Byte.hash) :
    allSections (s, c) =
      if c.atEnd then .ok s
      else
        match oneSection s c with
        | .error fault => .error fault
        | .ok x => allSections x := by
  have hround := allSections_eq (s, c)
  simp only [sectionsRound, Cursor.skipTrivia_of_head h] at hround
  exact hround

theorem allSections_atEnd {s : Settings} {c : Cursor} (h : c.atEnd = true) :
    allSections (s, c) = .ok s := by
  have hnil : c.rest = [] := List.isEmpty_iff.mp h
  rw [allSections_here (by simp [hnil]), if_pos h]

theorem oneSection_of_not_open {s : Settings} {c : Cursor}
    (h : ¬ c.nextIs Byte.openBracket = true) :
    oneSection s c = .error (c.fault .expectedSection) := by
  rw [oneSection, header, if_neg h]

end Bindery.Settings
