import Bindery.Proofs.Files.Paths
import Bindery.Proofs.Header.Directives
import Mathlib.Data.List.Basic

/-!
Documentation comments after line splicing. A compiler takes a backslash at the end of a line away
together with the line break, so a line of documentation that ends in one runs into the next line.
Between two lines of one comment this does no harm. The last line is followed by code: a comment
whose last line ends in a backslash takes the first line of the code into itself.
-/

set_option autoImplicit false

namespace Bindery

/-- The text without its backslashes at the ends of lines and the line breaks behind them. -/
def splice : Text → Text
  | [] => []
  | [c] => [c]
  | c :: d :: t =>
    if c = Byte.backslash ∧ d = Byte.newline then splice t else c :: splice (d :: t)

/-- The line goes on with the next one. -/
def Continues (line : Text) : Prop := line.getLast? = some Byte.backslash

instance (line : Text) : Decidable (Continues line) := inferInstanceAs (Decidable (_ = _))

theorem splice_cons {c : UInt8} {t : Text}
    (h : ¬ (c = Byte.backslash ∧ t.head? = some Byte.newline)) :
    splice (c :: t) = c :: splice t := by
  cases t with
  | nil => rfl
  | cons d t =>
    rw [List.head?_cons, Option.some.injEq] at h
    rw [splice, if_neg h]

theorem splice_append {s : Text} (h : ¬ Continues s) (t : Text) :
    splice (s ++ t) = splice s ++ splice t := by
  fun_induction splice s with
  | case1 => rfl
  | case2 c =>
    have hc : c ≠ Byte.backslash := by simpa [Continues] using h
    exact splice_cons fun hboth => hc hboth.1
  | case3 c d s hboth ih =>
    obtain ⟨rfl, rfl⟩ := hboth
    rw [List.cons_append, List.cons_append, splice, if_pos ⟨rfl, rfl⟩, ih]
    intro hs
    cases s with
    | nil => exact absurd hs (by simp [Continues])
    | cons e s => exact h (by simpa [Continues] using hs)
  | case4 c d s hboth ih =>
    have hrest : ¬ Continues (d :: s) := fun hs => h (by simpa [Continues] using hs)
    rw [List.cons_append, List.cons_append, splice, if_neg hboth, ← List.cons_append, ih hrest,
      List.cons_append]

theorem splice_of_notMem {line : Text} (h : Byte.newline ∉ line) : splice line = line := by
  induction line with
  | nil => rfl
  | cons c line ih =>
    rw [List.mem_cons, not_or] at h
    rw [splice_cons, ih h.2]
    rintro ⟨-, hhead⟩
    exact h.2 (List.mem_of_head? hhead)

/-- What is left of a line and its break. -/
def joined (line : Text) : Text := if Continues line then line.dropLast else Text.closed line

theorem joined_append (line : Text) : joined (line ++ [Byte.backslash]) = line := by
  have hline : Continues (line ++ [Byte.backslash]) := List.getLast?_concat
  rw [joined, if_pos hline, List.dropLast_concat]

theorem splice_closed {line : Text} (h : Byte.newline ∉ line) (rest : Text) :
    splice (Text.closed line ++ rest) = joined line ++ splice rest := by
  by_cases hline : Continues line
  · obtain ⟨body, rfl⟩ := List.getLast?_eq_some_iff.mp hline
    have hbody : Byte.newline ∉ body := fun hmem => h (List.mem_append_left _ hmem)
    rw [joined_append, Text.closed, List.append_assoc, List.append_assoc]
    clear h hline
    induction body with
    | nil => exact if_pos ⟨rfl, rfl⟩
    | cons c body ih =>
      rw [List.mem_cons, not_or] at hbody
      rw [List.cons_append, splice_cons, ih hbody.2, List.cons_append]
      -- what comes next is in the line or its backslash
      cases body with
      | nil => exact fun hboth => absurd hboth.2 (by simp; decide)
      | cons d body => exact fun hboth => hbody.2 (List.mem_of_head? (by simpa using hboth.2))
  · have hbreak : splice (Byte.newline :: rest) = Byte.newline :: splice rest :=
      splice_cons fun hboth => absurd hboth.1 (by decide)
    rw [joined, if_neg hline, Text.closed, List.append_assoc, splice_append hline,
      splice_of_notMem h, List.singleton_append, hbreak, List.append_assoc, List.singleton_append]

theorem splice_lines {lines : List Text} (h : ∀ line ∈ lines, Byte.newline ∉ line) :
    splice (lines.flatMap Text.closed) = lines.flatMap joined := by
  induction lines with
  | nil => rfl
  | cons line lines ih =>
    rw [List.forall_mem_cons] at h
    rw [List.flatMap_cons, splice_closed h.1, ih h.2, List.flatMap_cons]

/-- The text is a row of closed lines that begin alike. -/
def LinesFrom (start t : Text) : Prop :=
  ∃ lines : List Text, t = lines.flatMap Text.closed ∧
    ∀ line ∈ lines, Byte.newline ∉ line ∧ start <+: line

section
variable {start line t : Text} {lines : List Text}

theorem LinesFrom.getLast? (h : LinesFrom start t) (hne : t ≠ []) :
    t.getLast? = some Byte.newline := by
  obtain ⟨lines, rfl, -⟩ := h
  rcases List.eq_nil_or_concat' lines with rfl | ⟨lines, line, rfl⟩
  · exact absurd rfl hne
  · rw [List.flatMap_append, List.flatMap_singleton, Text.closed, ← List.append_assoc,
      List.getLast?_concat]

theorem LinesFrom.closed_append (hline : Byte.newline ∉ line) (hstart : start <+: line)
    (h : LinesFrom start t) : LinesFrom start (Text.closed line ++ t) := by
  obtain ⟨lines, rfl, hlines⟩ := h
  exact ⟨line :: lines, rfl, List.forall_mem_cons.mpr ⟨⟨hline, hstart⟩, hlines⟩⟩

theorem LinesFrom.append (hline : Byte.newline ∉ line) (hstart : start <+: line)
    (h : LinesFrom start t) (hne : t ≠ []) : LinesFrom start (line ++ t) := by
  obtain ⟨lines, rfl, hlines⟩ := h
  cases lines with
  | nil => exact absurd rfl hne
  | cons next lines =>
    rw [List.forall_mem_cons] at hlines
    refine ⟨(line ++ next) :: lines, by simp [Text.closed], List.forall_mem_cons.mpr ⟨?_, hlines.2⟩⟩
    rw [List.mem_append, not_or]
    exact ⟨⟨hline, hlines.1.1⟩, hstart.trans (List.prefix_append _ _)⟩

variable (hstart : start ≠ []) (hkeeps : ¬ Continues start)

include hstart hkeeps in
/-- Taking a backslash from a line leaves its beginning. -/
theorem prefix_of_continued (h : start <+: line ++ [Byte.backslash]) :
    line ≠ [] ∧ start <+: line := by
  rcases List.prefix_concat_iff.mp h with rfl | hprefix
  · exact absurd List.getLast?_concat hkeeps
  · exact ⟨fun hnil => hstart (List.prefix_nil.mp (hnil ▸ hprefix)), hprefix⟩

include hstart hkeeps in
theorem joined_ne_nil (h : start <+: line) : joined line ≠ [] := by
  by_cases hline : Continues line
  · obtain ⟨body, rfl⟩ := List.getLast?_eq_some_iff.mp hline
    rw [joined_append]
    exact (prefix_of_continued hstart hkeeps h).1
  · simp [joined, hline, Text.closed]

include hstart hkeeps in
theorem linesFrom_joined_iff (hlines : ∀ l ∈ lines, Byte.newline ∉ l ∧ start <+: l) :
    LinesFrom start (lines.flatMap joined) ↔ ∀ l ∈ lines.getLast?, ¬ Continues l := by
  constructor
  · intro h l hl hopen
    obtain ⟨before, rfl⟩ := List.getLast?_eq_some_iff.mp hl
    obtain ⟨body, rfl⟩ := List.getLast?_eq_some_iff.mp hopen
    obtain ⟨hbreak, hprefix⟩ := hlines _ (List.mem_append_right _ (List.mem_singleton_self _))
    have hbody := (prefix_of_continued hstart hkeeps hprefix).1
    rw [List.flatMap_append, List.flatMap_singleton, joined_append] at h
    have hlast := h.getLast? (List.append_ne_nil_of_right_ne_nil _ hbody)
    obtain ⟨c, hc⟩ := Option.ne_none_iff_exists'.mp (mt List.getLast?_eq_none_iff.mp hbody)
    rw [List.getLast?_append, hc, Option.some_or, Option.some.injEq] at hlast
    exact hbreak (List.mem_append_left _ (List.mem_of_getLast? (hlast ▸ hc)))
  · intro hlast
    induction lines with
    | nil => exact ⟨[], rfl, List.forall_mem_nil _⟩
    | cons line lines ih =>
      rw [List.forall_mem_cons] at hlines
      obtain ⟨⟨hbreak, hprefix⟩, hrest⟩ := hlines
      rw [List.flatMap_cons]
      cases lines with
      | nil =>
        have hline : ¬ Continues line := hlast line rfl
        rw [joined, if_neg hline]
        exact LinesFrom.closed_append hbreak hprefix ⟨[], rfl, List.forall_mem_nil _⟩
      | cons next lines =>
        have hrow := ih hrest fun l hl => hlast l (by rwa [List.getLast?_cons_cons])
        by_cases hline : Continues line
        · obtain ⟨body, rfl⟩ := List.getLast?_eq_some_iff.mp hline
          rw [joined_append]
          refine hrow.append (fun hmem => hbreak (List.mem_append_left _ hmem))
            (prefix_of_continued hstart hkeeps hprefix).2 ?_
          have hnext := joined_ne_nil hstart hkeeps (List.forall_mem_cons.mp hrest).1.2
          exact List.append_ne_nil_of_left_ne_nil hnext _
        · rw [joined, if_neg hline]
          exact hrow.closed_append hbreak hprefix

end

def commentBody (indent line : Text) : Text :=
  indent ++ "///" ++ if line.isEmpty then [] else Byte.space :: line

def commentLines (indent docs : Text) (extra : List Text) : List Text :=
  (Text.lines docs).map (commentBody indent) ++
    (if docs.isEmpty || extra.isEmpty then [] else [indent ++ "///"]) ++
    extra.map fun line => indent ++ "/// " ++ line

theorem docComment_eq (indent docs : Text) (extra : List Text) :
    docComment indent docs extra = (commentLines indent docs extra).flatMap Text.closed := by
  have hblank : (if docs.isEmpty || extra.isEmpty then [] else blankComment indent) =
      (if docs.isEmpty || extra.isEmpty then [] else [indent ++ ascii "///"]).flatMap
        Text.closed := by
    split_ifs
    · rfl
    · simp only [List.flatMap_singleton, Text.closed, blankComment, List.append_assoc]
      rfl
  rw [docComment, commentLines, List.flatMap_append, List.flatMap_append, List.flatMap_map,
    List.flatMap_map, hblank]
  rfl

/-- The documentation ends in a backslash, or in one that only a line break follows. -/
def EndsOpen (docs : Text) : Prop :=
  [Byte.backslash] <:+ docs ∨ [Byte.backslash, Byte.newline] <:+ docs

instance (docs : Text) : Decidable (EndsOpen docs) := inferInstanceAs (Decidable (_ ∨ _))

theorem Text.splitOn_concat (sep : UInt8) (t : Text) :
    ∃ before piece, splitOn sep t = before ++ [piece] ∧ sep ∉ piece ∧
      (before = [] ∧ t = piece ∨ ∃ s, before = splitOn sep s ∧ t = s ++ sep :: piece) := by
  by_cases hmem : sep ∈ t
  · obtain ⟨after, before, ht, hafter⟩ :=
      List.eq_append_cons_of_mem (List.mem_reverse.mpr hmem)
    have hsplit : t = before.reverse ++ sep :: after.reverse := by
      rw [← List.reverse_reverse t, ht, List.reverse_append, List.reverse_cons, List.append_assoc,
        List.singleton_append]
    have hpiece : sep ∉ after.reverse := mt List.mem_reverse.mp hafter
    refine ⟨splitOn sep before.reverse, after.reverse, ?_, hpiece, .inr ⟨_, rfl, hsplit⟩⟩
    rw [hsplit, splitOn_append, splitOn_of_notMem hpiece]
  · exact ⟨[], t, splitOn_of_notMem hmem, hmem, .inl ⟨rfl, rfl⟩⟩

theorem continues_append_newline (s t : Text) :
    Continues (s ++ Byte.newline :: t) ↔ Continues t := by
  rw [Continues, Continues, List.getLast?_append, List.getLast?_cons]
  cases t.getLast? with
  | none => simp; decide
  | some c => simp

theorem continues_last_piece {t piece : Text} {before : List Text}
    (h : Text.splitOn Byte.newline t = before ++ [piece]) : Continues piece ↔ Continues t := by
  obtain ⟨before', piece', hsplit, -, hcases⟩ := Text.splitOn_concat Byte.newline t
  rw [h] at hsplit
  obtain ⟨rfl, hpiece⟩ := List.append_inj' hsplit rfl
  obtain rfl := List.singleton_inj.mp hpiece
  rcases hcases with ⟨-, rfl⟩ | ⟨s, -, rfl⟩
  · exact Iff.rfl
  · exact (continues_append_newline s piece).symm

theorem endsOpen_iff (docs : Text) :
    EndsOpen docs ↔ Continues docs ∨ ∃ s, docs = s ++ [Byte.newline] ∧ Continues s := by
  refine or_congr List.singleton_suffix_iff_getLast?_eq_some ⟨?_, ?_⟩
  · rintro ⟨s, rfl⟩
    exact ⟨s ++ [Byte.backslash], by simp, List.getLast?_concat⟩
  · rintro ⟨s, rfl, hs⟩
    obtain ⟨body, rfl⟩ := List.getLast?_eq_some_iff.mp hs
    exact ⟨body, by simp⟩

theorem endsOpen_iff_lines (docs : Text) :
    EndsOpen docs ↔ ∃ line ∈ (Text.lines docs).getLast?, Continues line := by
  obtain ⟨before, piece, hsplit, hpiece, hcases⟩ := Text.splitOn_concat Byte.newline docs
  have hlast := continues_last_piece hsplit
  rw [endsOpen_iff, Text.lines, hsplit, List.getLast?_concat, ← hlast]
  cases piece with
  | nil =>
    have hnil : ¬ Continues [] := by decide
    rw [if_pos rfl, List.dropLast_concat]
    rcases hcases with ⟨rfl, rfl⟩ | ⟨s, rfl, rfl⟩
    · simp [hnil]
    · obtain ⟨before, piece, hs, -⟩ := Text.splitOn_concat Byte.newline s
      simp [hs, hnil, continues_last_piece hs]
  | cons c piece =>
    -- the text ends in its last piece, which has no line break
    have hopen : ¬ ∃ s, docs = s ++ [Byte.newline] ∧ Continues s := by
      rintro ⟨s, rfl, -⟩
      rcases hcases with ⟨-, heq⟩ | ⟨s', -, heq⟩
      · exact hpiece (heq ▸ List.mem_append_right _ (List.mem_singleton_self _))
      · have hend := congrArg List.getLast? heq
        rw [List.getLast?_concat, List.getLast?_append, List.getLast?_cons_cons,
          List.getLast?_cons, Option.some_or] at hend
        exact hpiece (List.mem_of_getLast? (by rw [List.getLast?_cons, hend]))
    rw [if_neg (by simp)]
    simp [hopen]

theorem continues_commentBody (indent line : Text) :
    Continues (commentBody indent line) ↔ Continues line := by
  cases line with
  | nil =>
    have hslash : (indent ++ ascii "///").getLast? = some Byte.slash := List.getLast?_append
    have hbody : commentBody indent [] = indent ++ ascii "///" := List.append_nil _
    rw [Continues, hbody, hslash]
    decide
  | cons c line =>
    rw [Continues, Continues, commentBody, List.getLast?_append]
    simp [List.getLast?_cons]

theorem note_eq (indent line : Text) :
    indent ++ ascii "/// " ++ line = indent ++ ascii "///" ++ Byte.space :: line := by
  simp only [List.append_assoc]
  rfl

theorem commentLines_begin {indent : Text} (hindent : Byte.newline ∉ indent) (docs : Text)
    {extra : List Text} (hextra : ∀ line ∈ extra, Byte.newline ∉ line) :
    ∀ line ∈ commentLines indent docs extra,
      Byte.newline ∉ line ∧ indent ++ ascii "///" <+: line := by
  have hslashes : Byte.newline ∉ indent ++ ascii "///" := by
    rw [List.mem_append, not_or]
    exact ⟨hindent, by decide⟩
  have hbegin : ∀ rest, Byte.newline ∉ rest → Byte.newline ∉ indent ++ ascii "///" ++ rest ∧
      indent ++ ascii "///" <+: indent ++ ascii "///" ++ rest := by
    intro rest hrest
    rw [List.mem_append, not_or]
    exact ⟨⟨hslashes, hrest⟩, List.prefix_append _ _⟩
  have hspaced : ∀ line : Text, Byte.newline ∉ line → Byte.newline ∉ Byte.space :: line := by
    intro line hline
    rw [List.mem_cons, not_or]
    exact ⟨by decide, hline⟩
  intro line hline
  simp only [commentLines, List.mem_append, List.mem_map] at hline
  rcases hline with (⟨doc, hdoc, rfl⟩ | hline) | ⟨note, hnote, rfl⟩
  · apply hbegin
    split_ifs
    · exact List.not_mem_nil
    · exact hspaced doc (newline_notMem_lines docs doc hdoc)
  · split_ifs at hline
    · exact absurd hline List.not_mem_nil
    · rw [List.mem_singleton.mp hline]
      exact ⟨hslashes, List.prefix_refl _⟩
  · rw [note_eq]
    exact hbegin _ (hspaced note (hextra note hnote))

theorem commentLines_last (indent docs : Text) {extra : List Text}
    (hextra : ∀ line ∈ extra, Byte.backslash ∉ line) :
    (∀ line ∈ (commentLines indent docs extra).getLast?, ¬ Continues line) ↔
      ¬ (extra = [] ∧ EndsOpen docs) := by
  rcases List.eq_nil_or_concat' extra with rfl | ⟨notes, note, rfl⟩
  · have hlines : commentLines indent docs [] = (Text.lines docs).map (commentBody indent) := by
      simp [commentLines]
    rw [hlines, endsOpen_iff_lines, List.getLast?_map]
    simp [continues_commentBody]
  · have hnote : Byte.backslash ∉ Byte.space :: note := by
      rw [List.mem_cons, not_or]
      exact ⟨by decide, hextra note (List.mem_append_right _ (List.mem_singleton_self _))⟩
    have hline : ¬ Continues (indent ++ ascii "/// " ++ note) := by
      rw [note_eq, Continues, List.getLast?_append, List.getLast?_cons, Option.some_or]
      exact fun hopen => hnote (List.mem_of_getLast? (by rw [List.getLast?_cons, hopen]))
    rw [commentLines, List.map_append, List.map_singleton, ← List.append_assoc,
      List.getLast?_concat]
    simpa using hline

/-- A documentation comment is a row of comment lines, or nothing. Once its lines are spliced it
still is, and the code behind it begins on a line of its own, exactly unless the documentation ends
in a backslash and no further lines follow it. -/
theorem docComment_spliced (indent docs : Text) (extra : List Text)
    (hindent : ∀ c ∈ indent, c = Byte.space)
    (hextra : ∀ line ∈ extra, Byte.newline ∉ line ∧ Byte.backslash ∉ line) :
    LinesFrom (indent ++ "///") (docComment indent docs extra) ∧
    (LinesFrom (indent ++ "///") (splice (docComment indent docs extra)) ↔
      ¬ (extra = [] ∧ EndsOpen docs)) ∧
    ∀ code, splice (docComment indent docs extra ++ code) =
      splice (docComment indent docs extra) ++ splice code := by
  have hbreak : Byte.newline ∉ indent := fun hmem => absurd (hindent _ hmem) (by decide)
  have hlines := commentLines_begin hbreak docs fun line hline => (hextra line hline).1
  have hrow : LinesFrom (indent ++ "///") (docComment indent docs extra) :=
    ⟨commentLines indent docs extra, docComment_eq indent docs extra, hlines⟩
  have hslash : (indent ++ ascii "///").getLast? = some Byte.slash := List.getLast?_append
  have hstart : indent ++ ascii "///" ≠ [] := List.append_ne_nil_of_right_ne_nil _ (by decide)
  have hkeeps : ¬ Continues (indent ++ ascii "///") := by
    rw [Continues, hslash]
    decide
  refine ⟨hrow, ?_, fun code => splice_append (fun hopen => ?_) code⟩
  · rw [docComment_eq, splice_lines fun line hline => (hlines line hline).1,
      linesFrom_joined_iff hstart hkeeps hlines]
    exact commentLines_last indent docs fun line hline => (hextra line hline).2
  · -- a row of lines ends in a line break
    have hne : docComment indent docs extra ≠ [] := by
      intro hnil
      rw [hnil] at hopen
      exact absurd hopen (by decide)
    rw [Continues, hrow.getLast? hne] at hopen
    exact absurd hopen (by decide)

/-- A backslash inside the documentation, and one that a note keeps from the code. -/
theorem docComment_spliced_notes :
    splice (docComment "    " "Reads C:\\\nor D:\\" ["Owned by the caller."]) =
      "    /// Reads C:    /// or D:    ///\n    /// Owned by the caller.\n" ∧
    LinesFrom "    ///"
      (splice (docComment "    " "Reads C:\\\nor D:\\" ["Owned by the caller."])) := by
  have hindent : ∀ c ∈ ascii "    ", c = Byte.space := fun c hc =>
    List.eq_of_mem_replicate (show c ∈ List.replicate 4 Byte.space from hc)
  exact ⟨rfl, (docComment_spliced "    " "Reads C:\\\nor D:\\" ["Owned by the caller."] hindent
    (by decide)).2.1.mpr (by decide)⟩

/-- The declaration behind the comment becomes part of it. -/
theorem docComment_swallows :
    splice (docComment [] "Lists C:\\" [] ++ "void Disk_list(void);\n") =
      "/// Lists C:void Disk_list(void);\n" ∧
    ¬ ∀ (docs : Text) (extra : List Text) (indent : Text), (∀ c ∈ indent, c = Byte.space) →
      (∀ line ∈ extra, Byte.newline ∉ line ∧ Byte.backslash ∉ line) →
        LinesFrom (indent ++ "///") (splice (docComment indent docs extra)) := by
  refine ⟨rfl, fun h => ?_⟩
  have hrow := h "Lists C:\\" [] [] (List.forall_mem_nil _) (List.forall_mem_nil _)
  exact absurd (hrow.getLast? (by decide)) (by decide)

end Bindery
