import Bindery.Proofs.Settings.Following

/-!
How a reading of settings ends. Entries and sections are followed as values are, so the reader with
a state comes to the end of every text: with settings and nothing noted, or with one problem noted
and no settings. The line of that problem is the line of its place, but for line breaks that a
backslash in a string has taken.
-/

set_option autoImplicit false

namespace Bindery.Settings.Scan

variable {α β : Type} {content : Text} {c : Cursor} {st : State}

theorem Agrees.some {r : Result α} {bad : α → Prop} {a : α} (h : Agrees content id bad r a st) :
    Agrees content some (fun _ => True) r (some a) st := by
  cases r with
  | error fault => exact ⟨trivial, h.2⟩
  | ok read => exact ⟨congrArg Option.some h.1, h.2⟩

theorem Agrees.mono {r : Result β} {good : β → α} {bad bad' : α → Prop} {a : α}
    (h : Agrees content good bad r a st) (himp : ∀ a, bad a → bad' a) :
    Agrees content good bad' r a st := by
  cases r with
  | error fault => exact ⟨himp a h.1, h.2⟩
  | ok read => exact h

theorem Stands.value (kind : Kind) (h : Stands content c st) :
    Meets (Scan.value kind) st (Agrees content some (fun _ => True) (kind.read c)) := by
  cases kind with
  | text => exact h.string.bind fun _ _ h => .pure h.some
  | list => exact h.list.bind fun _ _ h => .pure h.some
  | integer => exact h.integer.mono fun _ _ h => h.mono fun _ _ => trivial
  | truth => exact h.truth.mono fun _ _ h => h.mono fun _ _ => trivial

theorem Stands.key (h : Stands content c st) :
    Meets Scan.key st (Agrees content id (· = none) (Settings.key c)) := by
  unfold Settings.key
  refine h.skipLead.bind fun _ st h => h.atEnd ?_
  dsimp only
  by_cases hend : c.skipLead.atEnd = true
  · simp only [hend, Bool.true_or, ↓reduceIte]
    exact .pure ⟨rfl, h⟩
  simp only [hend, Bool.false_or, ↓reduceIte, Bool.false_eq_true]
  refine h.nextIs (by decide) ?_
  by_cases hopen : c.skipLead.nextIs Byte.openBracket = true
  · simp only [hopen, ↓reduceIte]
    exact .pure ⟨rfl, h⟩
  simp only [hopen, ↓reduceIte, Bool.false_eq_true]
  refine h.word.bind ?_
  rintro _ st ⟨rfl, h⟩
  by_cases hname : (Settings.word c.skipLead).1.isEmpty = true
  · simp only [hname, ↓reduceIte]
    exact h.note rfl
  simp only [hname, ↓reduceIte, Bool.false_eq_true]
  refine h.skipSpace.bind fun _ st h => h.nextIs (by decide) ?_
  by_cases hequals : (Settings.word c.skipLead).2.skipSpace.nextIs Byte.equals = true
  · simp only [hequals, ↓reduceIte]
    refine (h.advance hequals (by decide)).bind fun _ st h => (h.takeWhile (by decide)).bind ?_
    rintro _ st ⟨-, h⟩
    exact .pure ⟨rfl, h⟩
  · simp only [hequals, ↓reduceIte, Bool.false_eq_true]
    exact h.note rfl

theorem Stands.entry {inSection : Section} {s : Settings} {name : Text}
    (h : Stands content c st) :
    Meets (Scan.entry inSection s name) st
      (Agrees content id (fun _ => True) (Settings.entry inSection s name c)) := by
  rw [entry_eq, Scan.entry]
  cases hfind : Setting.find? inSection name with
  | none => exact h.note trivial
  | some k =>
    dsimp only
    refine (h.value k.kind).bind fun v st hv => ?_
    cases hread : k.kind.read c with
    | error fault =>
      rw [hread] at hv
      cases v with
      | none => exact .pure ⟨trivial, hv.2⟩
      | some v => exact .pure ⟨trivial, hv.2⟩
    | ok read =>
      rw [hread] at hv
      obtain ⟨rfl, h⟩ := hv
      exact .pure ⟨rfl, h⟩

theorem Stands.verdict {s : Settings} (h : Stands content c st) :
    Meets (Scan.verdict s) st fun a st' => a = some s ∧ Stands content c st' :=
  h.failed (.pure ⟨rfl, h⟩)

theorem Noted.verdict {s : Settings} {fault : Fault} (h : Noted content fault st) :
    Meets (Scan.verdict s) st fun a st' => a = none ∧ Noted content fault st' :=
  h.failed (.pure ⟨rfl, h⟩)

theorem Stands.entries {inSection : Section} {n : Nat} {s : Settings} (h : Stands content c st)
    (hn : c.rest.length < n) :
    Meets (Scan.entries inSection n s) st
      (Agrees content some (· = none) (allEntries inSection (s, c))) := by
  induction n generalizing c st s with
  | zero => omega
  | succ n ih =>
    rw [allEntries_eq, entriesRound]
    refine h.key.bind fun name st hname => ?_
    cases hkey : Settings.key c with
    | error fault =>
      rw [hkey] at hname
      obtain ⟨rfl, hnoted⟩ := hname
      exact hnoted.verdict
    | ok read =>
      obtain ⟨found, after⟩ := read
      rw [hkey] at hname
      obtain ⟨rfl, h⟩ := hname
      cases name with
      | none => exact h.verdict
      | some name =>
        have hlt := key_lt hkey
        refine h.entry.bind fun s' st hentry => ?_
        dsimp only [id]
        cases hread : Settings.entry inSection s name after with
        | error fault =>
          rw [hread] at hentry
          exact hentry.2.failed (.pure ⟨rfl, hentry.2⟩)
        | ok read =>
          obtain ⟨s'', final⟩ := read
          rw [hread] at hentry
          obtain ⟨rfl, h⟩ := hentry
          have hle := (entry_suffix hread).length_le
          exact h.failed (ih h (by omega))

/-- Settings were read and nothing was noted, or a problem was noted and there are none. -/
def Ends (content : Text) : Except Fault Settings → Option Settings → State → Prop
  | .ok s, found, st => found = some s ∧ ∃ c, Stands content c st
  | .error fault, found, st => found = none ∧ Noted content fault st

theorem Stands.header (h : Stands content c st) (hopen : c.nextIs Byte.openBracket = true) :
    Meets Scan.header st (Agrees content some (· = none) (Settings.header c)) := by
  unfold Settings.header
  rw [if_pos hopen]
  refine (h.advance hopen (by decide)).bind fun _ st h => h.word.bind ?_
  rintro _ st ⟨rfl, h⟩
  refine h.nextIs (by decide) ?_
  dsimp only
  split_ifs with hclose
  · refine (h.advance hclose (by decide)).bind fun _ st h => ?_
    cases Section.ofName? (Settings.word c.skipOne).1 with
    | none => exact h.note rfl
    | some inSection => exact .pure ⟨rfl, h⟩
  · exact h.note rfl

theorem Stands.oneSection {s : Settings} (h : Stands content c st)
    (hopen : c.nextIs Byte.openBracket = true) :
    Meets (Scan.oneSection s) st (Agrees content some (· = none) (Settings.oneSection s c)) := by
  unfold Settings.oneSection
  refine (h.header hopen).bind fun found st hfound => ?_
  cases hheader : Settings.header c with
  | error fault =>
    rw [hheader] at hfound
    obtain ⟨rfl, hnoted⟩ := hfound
    exact .pure ⟨rfl, hnoted⟩
  | ok read =>
    rw [hheader] at hfound
    obtain ⟨rfl, h⟩ := hfound
    change Meets (Scan.entries read.1 (st.rest.length + 1) s) st _
    exact h.entries (by rw [h.rest]; exact Nat.lt_succ_self _)

theorem Stands.nextIsSpace {b : UInt8} {f : Bool → Scan α} {post : α → State → Prop}
    (h : Stands content c st) (hb : c.rest.head? = some b)
    (hf : Meets (f (Byte.isSpace b)) st post) : Meets (Scan.nextIsSpace >>= f) st post := by
  have hnext : st.rest.headD 0 = b := by rw [h.rest, List.headD_eq_head?_getD, hb, Option.getD_some]
  change Meets (f (Byte.isSpace (st.rest.headD 0))) st post
  rw [hnext]
  exact hf

theorem Stands.sections {n : Nat} {s : Settings} (h : Stands content c st)
    (hn : c.rest.length < n) :
    Meets (Scan.sections n s) st (Ends content (allSections (s, c))) := by
  induction n generalizing c st s with
  | zero => omega
  | succ n ih =>
    refine h.atEnd ?_
    by_cases hend : c.atEnd = true
    · rw [if_pos hend, allSections_atEnd hend]
      exact h.verdict.mono fun _ st h => ⟨h.1, c, h.2⟩
    rw [if_neg hend, allSections_skip]
    refine h.skipSpace.bind fun _ st h => h.skipComment.bind fun _ st h => h.atEnd ?_
    by_cases hend : c.skipSpace.skipComment.atEnd = true
    · rw [if_pos hend, allSections_atEnd hend]
      exact h.verdict.mono fun _ st h => ⟨h.1, _, h.2⟩
    rw [if_neg hend]
    have hle := ((Cursor.skipComment_suffix _).trans (Cursor.skipSpace_suffix c)).length_le
    obtain ⟨b, rest, hrest⟩ := List.exists_cons_of_ne_nil (mt List.isEmpty_iff.mpr hend)
    have hb : c.skipSpace.skipComment.rest.head? = some b := by rw [hrest, List.head?_cons]
    have hhash := Cursor.ne_hash_of_skipComment hb
    have hshorter := Cursor.skipComment_lt hb
    generalize c.skipSpace.skipComment = d at h hend hle hb hshorter
    refine h.nextIs (by decide) ?_
    by_cases hspace : Byte.isSpace b = true
    · have hopen : ¬ d.nextIs Byte.openBracket = true := by
        rw [Cursor.nextIs, Cursor.peek?, hb]
        rintro hopen
        rw [show b = Byte.openBracket by simpa using hopen] at hspace
        cases hspace
      rw [if_neg hopen]
      refine h.nextIsSpace hb ?_
      rw [if_pos hspace]
      exact ih h (by have := hshorter hspace; omega)
    have hhere : ∀ b ∈ d.rest.head?, Byte.isSpace b = false ∧ b ≠ Byte.hash := by
      rw [hb]
      rintro _ ⟨⟩
      exact ⟨Bool.eq_false_iff.mpr hspace, hhash⟩
    rw [allSections_here hhere, if_neg hend]
    by_cases hopen : d.nextIs Byte.openBracket = true
    · rw [if_pos hopen]
      refine (h.oneSection hopen).bind fun found st hfound => ?_
      cases hsection : Settings.oneSection s d with
      | error fault =>
        rw [hsection] at hfound
        obtain ⟨rfl, hnoted⟩ := hfound
        exact .pure ⟨rfl, hnoted⟩
      | ok read =>
        obtain ⟨s', after⟩ := read
        rw [hsection] at hfound
        obtain ⟨rfl, h⟩ := hfound
        have hlt := oneSection_lt hsection
        exact ih h (by omega)
    · rw [if_neg hopen, oneSection_of_not_open hopen]
      refine h.nextIsSpace hb ?_
      rw [if_neg hspace]
      exact h.noted

theorem parse_ends (content : Text) :
    ∃ found st, Scan.parse content = .ok (found, st) ∧
      Ends content (Settings.parse content) found st :=
  (Stands.start content).sections (Nat.lt_succ_self _)

theorem message_ne_nil (fault : Fault) : fault.message ≠ [] := by
  rw [Fault.message]
  simp [ascii]

theorem IsShortNumeral.conversion_isOk {t : Text} (h : IsShortNumeral t) :
    ∃ value, conversion t = .ok value := by
  obtain ⟨sign, digits, rfl, hsign, hne, hdigits, hlength⟩ := h
  exact ⟨_, conversion_eq_ok hsign hne hdigits hlength⟩

/-- What is left over of a reading: the settings and no message, or no settings and the message of
the first problem, with the number of its line. No other problem has been noted. -/
def Verdict (content : Text) (found : Option Settings) (st : State) : Prop :=
  match Settings.parse content with
  | .ok s => found = some s ∧ st.notes = [] ∧ st.message = []
  | .error fault => found = none ∧ 1 ≤ fault.line ∧ (∃ p, st.notes = [p] ∧ p.fault = fault) ∧
      st.message = "Line " ++ decimal fault.line ++ ": " ++ fault.issue.message

theorem Ends.verdict {content : Text} {found : Option Settings} {st : State}
    (h : Ends content (Settings.parse content) found st) : Verdict content found st := by
  rw [Verdict]
  cases hparse : Settings.parse content with
  | ok s =>
    rw [hparse] at h
    obtain ⟨rfl, c, hstands⟩ := h
    exact ⟨rfl, hstands.notes, by rw [State.message, hstands.notes]⟩
  | error fault =>
    rw [hparse] at h
    obtain ⟨rfl, -, p, hnotes, rfl, -, hescapes, hlines⟩ := h
    have hcount := hescapes.count_le Byte.newline
    refine ⟨rfl, ?_, ⟨p, hnotes, rfl⟩, ?_⟩
    · change 1 ≤ p.line
      omega
    · rw [State.message, hnotes]
      rfl

end Bindery.Settings.Scan

namespace Bindery.Settings

open Scan

/-- A reading comes to an end: no loop goes round without taking a byte, and nothing is given to
the conversion of integers that it cannot convert. It gives settings exactly if there is no message
at the end. -/
theorem parse_settles (content : Text) :
    ∃ found st, Scan.parse content = .ok (found, st) ∧ Verdict content found st ∧
      (found.isSome = true ↔ st.message = []) ∧
      ∀ t ∈ st.converted, IsShortNumeral t ∧ ∃ value, conversion t = .ok value := by
  obtain ⟨found, st, hrun, hends⟩ := parse_ends content
  have hverdict := hends.verdict
  have hnumerals : ∀ t ∈ st.converted, IsShortNumeral t := by
    cases hparse : parse content with
    | ok s =>
      rw [hparse] at hends
      obtain ⟨-, c, hstands⟩ := hends
      exact hstands.numerals
    | error fault =>
      rw [hparse] at hends
      exact hends.2.numerals
  refine ⟨found, st, hrun, hverdict, ?_, fun t ht => ?_⟩
  · unfold Verdict at hverdict
    split at hverdict
    · obtain ⟨rfl, -, hmessage⟩ := hverdict
      exact iff_of_true rfl hmessage
    · rename_i fault _
      obtain ⟨rfl, -, -, hmessage⟩ := hverdict
      exact iff_of_false Bool.false_ne_true (hmessage ▸ message_ne_nil fault)
  · exact ⟨hnumerals t ht, (hnumerals t ht).conversion_isOk⟩

/-- The line of a fault is one more than the number of line breaks taken when it was found, less
those that a backslash in a string took with it. -/
theorem fault_line (content : Text) (fault : Fault) (h : parse content = .error fault) :
    ∃ st p, Scan.parse content = .ok (none, st) ∧ st.notes = [p] ∧ p.fault = fault ∧
      p.taken <+: content ∧ p.escaped.Sublist p.taken ∧
      fault.line + p.escaped.count Byte.newline = 1 + p.taken.count Byte.newline ∧
      (fault.line = 1 + p.taken.count Byte.newline ↔ Byte.newline ∉ p.escaped) := by
  obtain ⟨found, st, hrun, hends⟩ := parse_ends content
  rw [h] at hends
  obtain ⟨rfl, -, p, hnotes, rfl, hwithin, hescapes, hlines⟩ := hends
  refine ⟨st, p, hrun, hnotes, rfl, hwithin, hescapes, hlines, ?_⟩
  change p.line = _ ↔ _
  rw [← List.count_eq_zero]
  omega

/-- The second line goes on behind a backslash, so the fourth counts as the third. -/
def continued : Text := "[generate]\nir = \"a\\\nb\"\nx = 1\n"

def continuedNote : Note where
  taken := "[generate]\nir = \"a\\\nb\"\nx = "
  escaped := "\n"
  line := 3
  issue := .unknownKey "x" .generate

theorem parse_continued : parse continued = .error continuedNote.fault := by decide +kernel

theorem scan_continued :
    (Scan.parse continued).map (fun r => (r.1, r.2.notes)) = .ok (none, [continuedNote]) := by
  decide +kernel

theorem fault_line_continued :
    parse continued = .error ⟨3, .unknownKey "x" .generate⟩ ∧
    ∃ st p, Scan.parse continued = .ok (none, st) ∧ st.notes = [p] ∧
      p.fault = ⟨3, .unknownKey "x" .generate⟩ ∧ p.taken <+: continued ∧
      p.escaped.Sublist p.taken ∧
      3 + p.escaped.count Byte.newline = 1 + p.taken.count Byte.newline ∧
      (3 = 1 + p.taken.count Byte.newline ↔ Byte.newline ∉ p.escaped) :=
  ⟨parse_continued, fault_line continued continuedNote.fault parse_continued⟩

/-- Three line breaks have been taken when the fault is found, and its line is the third. -/
theorem fault_line_behind :
    continuedNote.taken.count Byte.newline = 3 ∧ continuedNote.fault.line = 3 ∧
    ¬ ∀ (content : Text) (fault : Fault) (st : State) (p : Note), parse content = .error fault →
      Scan.parse content = .ok (none, st) → st.notes = [p] →
        fault.line = 1 + p.taken.count Byte.newline := by
  refine ⟨by decide, rfl, fun h => ?_⟩
  have hscan := scan_continued
  cases hrun : Scan.parse continued with
  | error halt =>
    rw [hrun] at hscan
    cases hscan
  | ok read =>
    obtain ⟨found, st⟩ := read
    rw [hrun] at hscan
    obtain ⟨rfl, hnotes⟩ := Prod.mk.inj (Except.ok.inj hscan)
    exact absurd (h continued _ st continuedNote parse_continued hrun hnotes) (by decide)

end Bindery.Settings
