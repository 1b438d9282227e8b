import Bindery.Proofs.Settings.Literals

/-!
A settings file as a list of lines: blank lines, comments, headers and entries. Each line does
something to the settings, and a file is read as its lines say, one after the other. The one
exception are comments that crowd: from a header on, blank lines apart, a comment must not follow
a line that has a comment already.
-/

set_option autoImplicit false

namespace Bindery.Settings

structure Remark where
  text : Text
  newline_notMem : Byte.newline ∉ text

structure Word where
  text : Text
  isWord : ∀ b ∈ text, isWordByte b = true

structure Gap where
  text : Text
  isInline : ∀ b ∈ text, (b == Byte.space || b == Byte.tab) = true

structure Tail where
  blanks : Blanks
  remark : Option Remark

def Tail.text (tail : Tail) : Text :=
  match tail.remark with
  | none => tail.blanks.text
  | some remark => tail.blanks.text ++ Byte.hash :: remark.text

structure Assignment where
  key : Word
  key_ne_nil : key.text ≠ []
  before : Blanks
  gap : Gap
  value : Literal

def Assignment.text (a : Assignment) : Text :=
  a.key.text ++ (a.before.text ++ Byte.equals :: (a.gap.text ++ a.value.spelling))

def headerText (name : Word) : Text := Byte.openBracket :: (name.text ++ [Byte.closeBracket])

inductive Line where
  | blank (blanks : Blanks)
  | comment (indent : Blanks) (remark : Remark)
  | header (indent : Blanks) (name : Word) (tail : Tail)
  | entry (indent : Blanks) (assignment : Assignment) (tail : Tail)

namespace Line

def text : Line → Text
  | blank blanks => blanks.text
  | comment indent remark => indent.text ++ Byte.hash :: remark.text
  | header indent name tail => indent.text ++ (headerText name ++ tail.text)
  | entry indent assignment tail => indent.text ++ (assignment.text ++ tail.text)

def isBlank : Line → Bool
  | blank _ => true
  | _ => false

def isComment : Line → Bool
  | comment _ _ => true
  | _ => false

def isHeader : Line → Bool
  | header _ _ _ => true
  | _ => false

/-- A line has a comment if it is one or ends in one. -/
def hasComment : Line → Bool
  | blank _ => false
  | comment _ _ => true
  | header _ _ tail | entry _ _ tail => tail.remark.isSome

/-- What a line does, given the section it stands in and the settings made so far. -/
def effect (x : Option Section × Settings) : Line → Option (Option Section × Settings)
  | blank _ | comment _ _ => some x
  | header _ name _ => (Section.ofName? name.text).map fun inSection => (some inSection, x.2)
  | entry _ assignment _ => do
    let inSection ← x.1
    let k ← Setting.find? inSection assignment.key.text
    let v ← assignment.value.value? k.kind
    return (some inSection, Setting.put x.2 k v)

section
variable (indent : Blanks) (remark : Remark) (name : Word) (assignment : Assignment) (tail : Tail)
  (t : Text)

theorem text_comment_append : (comment indent remark).text ++ t =
    indent.text ++ Byte.hash :: (remark.text ++ t) := by
  simp [text]

theorem text_header_append : (header indent name tail).text ++ t =
    indent.text ++ (headerText name ++ (tail.text ++ t)) := by
  simp [text]

theorem text_entry_append : (entry indent assignment tail).text ++ t =
    indent.text ++ (assignment.text ++ (tail.text ++ t)) := by
  simp [text]

end

theorem section_of_effect_entry {indent : Blanks} {a : Assignment} {tail : Tail}
    {x y : Option Section × Settings} (h : effect x (entry indent a tail) = some y) :
    y.1 = x.1 := by
  simp only [effect, Option.bind_eq_bind, Option.bind_eq_some_iff, Option.pure_def] at h
  obtain ⟨inSection, hsection, k, -, v, -, hy⟩ := h
  cases hy
  exact hsection.symm

end Line

def render (lines : List Line) : Text := Text.join [Byte.newline] (lines.map Line.text)

/-- The settings that lines make from the defaults. -/
def meaning (lines : List Line) : Option Settings :=
  (lines.foldlM Line.effect (none, {})).map (·.2)

/-- The second line is no comment, or the first has none. -/
def Line.Apart (l next : Line) : Prop := ¬ (l.hasComment = true ∧ next.isComment = true)

/-- From the first header on, blank lines apart, no comment follows a line with a comment. -/
def Uncrowded (lines : List Line) : Prop :=
  ((lines.dropWhile (!·.isHeader)).filter (!·.isBlank)).IsChain Line.Apart

def follow (lines : List Line) : Text := lines.flatMap fun l => Byte.newline :: l.text

theorem render_cons (l : Line) (lines : List Line) :
    render (l :: lines) = l.text ++ follow lines := by
  induction lines generalizing l with
  | nil => simp [render, Text.join, follow]
  | cons l' lines ih =>
    have hcons : render (l :: l' :: lines) = l.text ++ Byte.newline :: render (l' :: lines) := by
      simp [render, Text.join, List.intercalate_cons_cons]
    rw [hcons, ih]
    rfl

theorem follow_cons (l : Line) (lines : List Line) :
    follow (l :: lines) = Byte.newline :: (l.text ++ follow lines) := rfl

theorem head_follow (lines : List Line) : ∀ b ∈ (follow lines).head?, b = Byte.newline := by
  cases lines with
  | nil => rintro _ ⟨⟩
  | cons l lines =>
    rintro _ ⟨⟩
    rfl

/-- Text between two entries: blanks, with a comment among them or without. -/
inductive Pending : Bool → Text → Prop
  | blanks {w : Text} (hw : ∀ b ∈ w, Byte.isSpace b = true) : Pending false w
  | comment {w remark v : Text} (hw : ∀ b ∈ w, Byte.isSpace b = true)
    (hremark : Byte.newline ∉ remark) (hv : ∀ b ∈ v, Byte.isSpace b = true)
    (hbreak : ∀ b ∈ v.head?, b = Byte.newline) :
    Pending true (w ++ Byte.hash :: (remark ++ v))

namespace Pending

theorem of_tail (tail : Tail) : Pending tail.remark.isSome tail.text := by
  obtain ⟨blanks, remark⟩ := tail
  cases remark with
  | none => exact .blanks blanks.isSpace
  | some remark =>
    have hp := Pending.comment blanks.isSpace remark.newline_notMem (v := [])
      (List.forall_mem_nil _) (by simp)
    rwa [List.append_nil] at hp

theorem blank {commented : Bool} {p : Text} (hp : Pending commented p) (w : Blanks) :
    Pending commented (p ++ Byte.newline :: w.text) := by
  have hline : ∀ b ∈ Byte.newline :: w.text, Byte.isSpace b = true :=
    List.forall_mem_cons.mpr ⟨rfl, w.isSpace⟩
  cases hp with
  | blanks hw => exact .blanks (List.forall_mem_append.mpr ⟨hw, hline⟩)
  | @comment w' remark v hw hremark hv hbreak =>
    have hp := Pending.comment hw hremark (v := v ++ Byte.newline :: w.text)
      (List.forall_mem_append.mpr ⟨hv, hline⟩) (by cases v <;> simp_all)
    simpa using hp

theorem remark {p : Text} (hp : Pending false p) (indent : Blanks) (remark : Remark) :
    Pending true (p ++ Byte.newline :: (indent.text ++ Byte.hash :: remark.text)) := by
  cases hp with
  | blanks hw =>
    have hp := Pending.comment (w := p ++ Byte.newline :: indent.text) (v := [])
      (List.forall_mem_append.mpr ⟨hw, List.forall_mem_cons.mpr ⟨rfl, indent.isSpace⟩⟩)
      remark.newline_notMem (List.forall_mem_nil _) (by simp)
    simpa using hp

theorem skipLead {commented : Bool} {p u : Text} (hp : Pending commented p)
    (hu : ∀ b ∈ u.head?, b = Byte.newline)
    (hmark : commented = true ∨ ∀ n, ∀ b ∈ (Cursor.skipSpace ⟨u, n⟩).rest.head?, b ≠ Byte.hash)
    (line : Nat) : ∃ n, Cursor.skipLead ⟨p ++ u, line⟩ = Cursor.skipSpace ⟨u, n⟩ := by
  cases hp with
  | blanks hw =>
    have hhash := hmark.resolve_left Bool.false_ne_true
    refine ⟨line + p.count Byte.newline, ?_⟩
    rw [Cursor.skipLead, Cursor.skipSpace_blanks hw, Cursor.skipComment_of_head (hhash _),
      Cursor.skipSpace_skipSpace]
  | @comment w remark v hw hremark hv hbreak =>
    have hhead : ∀ b ∈ (v ++ u).head?, b = Byte.newline := by
      cases v with
      | nil => exact hu
      | cons b v => exact hbreak
    have hskip : Cursor.skipSpace ⟨w ++ Byte.hash :: (remark ++ (v ++ u)), line⟩ =
        ⟨Byte.hash :: (remark ++ (v ++ u)), line + w.count Byte.newline⟩ :=
      Cursor.skipSpace_append hw (by rintro _ ⟨⟩; rfl) line
    refine ⟨line + w.count Byte.newline + v.count Byte.newline, ?_⟩
    rw [Cursor.skipLead, List.append_assoc, List.cons_append, List.append_assoc, hskip,
      Cursor.skipComment_remark hremark hhead, Cursor.skipSpace_blanks hv]

theorem skipLead_end {commented : Bool} {p : Text} (hp : Pending commented p) (line : Nat) :
    ∃ n, Cursor.skipLead ⟨p, line⟩ = ⟨[], n⟩ := by
  obtain ⟨n, hskip⟩ := hp.skipLead (u := []) (by simp) (.inr fun n b hb => nomatch hb) line
  rw [List.append_nil] at hskip
  exact ⟨n, hskip⟩

theorem skipLead_line {commented : Bool} {p t : Text} (hp : Pending commented p)
    (indent : Blanks) (hspace : ∀ b ∈ t.head?, Byte.isSpace b = false)
    (hmark : commented = true ∨ ∀ b ∈ t.head?, b ≠ Byte.hash) (line : Nat) :
    ∃ n, Cursor.skipLead ⟨p ++ Byte.newline :: (indent.text ++ t), line⟩ = ⟨t, n⟩ := by
  have hskip : ∀ n, Cursor.skipSpace ⟨Byte.newline :: (indent.text ++ t), n⟩ = ⟨t, n + 1⟩ :=
    fun n => indent.skipSpace hspace (n + 1)
  obtain ⟨n, hlead⟩ := hp.skipLead (u := Byte.newline :: (indent.text ++ t))
    (by rintro _ ⟨⟩; rfl) (hmark.imp_right fun hhash n => by rwa [hskip n]) line
  exact ⟨n + 1, hlead.trans (hskip n)⟩

end Pending

def readInside (inSection : Section) (s : Settings) (c : Cursor) : Except Fault Settings :=
  match allEntries inSection (s, c) with
  | .error fault => .error fault
  | .ok x => allSections x

theorem isSpace_ne_hash_of_isWordByte {b : UInt8} (h : isWordByte b = true) :
    Byte.isSpace b = false ∧ b ≠ Byte.hash := by
  simp only [isWordByte, Byte.isAlphanumeric, Byte.isAlpha, Byte.isUpper, Byte.isLower,
    Byte.isDigit, Bool.or_eq_true, Bool.and_eq_true, beq_iff_eq, decide_eq_true_eq,
    UInt8.le_iff_toNat_le, ← UInt8.toNat_inj] at h
  simp only [Byte.isSpace, Bool.or_eq_false_iff, Bool.and_eq_false_iff, beq_eq_false_iff_ne, ne_eq,
    decide_eq_false_iff_not, UInt8.le_iff_toNat_le, ← UInt8.toNat_inj]
  grind

theorem isWordByte_of_isSpace {b : UInt8} (h : Byte.isSpace b = true) : isWordByte b = false := by
  by_contra hword
  rw [(isSpace_ne_hash_of_isWordByte (eq_true_of_ne_false hword)).1] at h
  cases h

section
variable (a : Assignment) (t : Text)

theorem isWordByte_of_mem_head_assignment {b : UInt8} (hb : b ∈ (a.text ++ t).head?) :
    isWordByte b = true := by
  obtain ⟨d, more, hkey⟩ := List.exists_cons_of_ne_nil a.key_ne_nil
  have hd : d = b := by
    rw [Assignment.text, hkey] at hb
    exact Option.some.inj hb
  exact hd ▸ a.key.isWord d (hkey ▸ List.mem_cons_self)

theorem nextIs_open_assignment (line : Nat) :
    Cursor.nextIs ⟨a.text ++ t, line⟩ Byte.openBracket = false := by
  refine Bool.eq_false_iff.mpr fun hopen => ?_
  exact absurd (isWordByte_of_mem_head_assignment a t (beq_iff_eq.mp hopen)) (by decide)

theorem atEnd_assignment (line : Nat) : Cursor.atEnd ⟨a.text ++ t, line⟩ = false := by
  simp [Cursor.atEnd, Assignment.text]

end

theorem allSections_header (s : Settings) (name : Word) (t : Text) (line : Nat) :
    match Section.ofName? name.text with
    | some inSection => allSections (s, ⟨headerText name ++ t, line⟩) =
        readInside inSection s ⟨t, line⟩
    | none => ∃ fault, allSections (s, ⟨headerText name ++ t, line⟩) = .error fault := by
  have htext : headerText name ++ t =
      Byte.openBracket :: (name.text ++ Byte.closeBracket :: t) := by
    simp [headerText]
  have hword : word ⟨name.text ++ Byte.closeBracket :: t, line⟩ =
      (name.text, ⟨Byte.closeBracket :: t, line⟩) :=
    word_append name.isWord (by rintro _ ⟨⟩; rfl) line
  have hopen : Cursor.nextIs ⟨Byte.openBracket :: (name.text ++ Byte.closeBracket :: t), line⟩
      Byte.openBracket = true := rfl
  have hclose : Cursor.nextIs ⟨Byte.closeBracket :: t, line⟩ Byte.closeBracket = true := rfl
  have hskip : Cursor.skipOne ⟨Byte.openBracket :: (name.text ++ Byte.closeBracket :: t), line⟩ =
      ⟨name.text ++ Byte.closeBracket :: t, line⟩ := rfl
  have hread : header ⟨Byte.openBracket :: (name.text ++ Byte.closeBracket :: t), line⟩ =
      match Section.ofName? name.text with
      | some inSection => .ok (inSection, ⟨t, line⟩)
      | none => .error ⟨line, .unknownSection name.text⟩ := by
    rw [header, if_pos hopen, hskip, hword]
    dsimp only
    rw [if_pos hclose]
    rfl
  rw [htext, allSections_here (by rintro _ ⟨⟩; exact ⟨rfl, by decide⟩), oneSection, hread]
  cases Section.ofName? name.text with
  | none => exact ⟨_, rfl⟩
  | some inSection => rfl

section
variable {inSection : Section} {s : Settings} {c : Cursor} {line : Nat}

theorem readInside_end (hlead : c.skipLead = ⟨[], line⟩) : readInside inSection s c = .ok s := by
  have hkey : key c = .ok (none, ⟨[], line⟩) := by
    rw [key, hlead]
    rfl
  rw [readInside, allEntries_eq, entriesRound, hkey]
  exact allSections_atEnd rfl

theorem readInside_header {name : Word} {t : Text}
    (hlead : c.skipLead = ⟨headerText name ++ t, line⟩) :
    readInside inSection s c = allSections (s, ⟨headerText name ++ t, line⟩) := by
  have hkey : key c = .ok (none, ⟨headerText name ++ t, line⟩) := by
    rw [key, hlead]
    rfl
  rw [readInside, allEntries_eq, entriesRound, hkey]

/-- A second comment is taken for a key. -/
theorem readInside_comment {t : Text} (hlead : c.skipLead = ⟨Byte.hash :: t, line⟩) :
    readInside inSection s c = .error ⟨line, .expectedKey⟩ := by
  have hkey : key c = .error ⟨line, .expectedKey⟩ := by
    rw [key, hlead]
    rfl
  rw [readInside, allEntries_eq, entriesRound, hkey]

theorem key_assignment {a : Assignment} {t : Text} (hlead : c.skipLead = ⟨a.text ++ t, line⟩) :
    key c = .ok (some a.key.text, ⟨a.value.spelling ++ t, line⟩) := by
  have htext : a.text ++ t =
      a.key.text ++ (a.before.text ++ Byte.equals :: (a.gap.text ++ (a.value.spelling ++ t))) := by
    simp [Assignment.text]
  have hword : word ⟨a.text ++ t, line⟩ = (a.key.text,
      ⟨a.before.text ++ Byte.equals :: (a.gap.text ++ (a.value.spelling ++ t)), line⟩) := by
    rw [htext]
    refine word_append a.key.isWord (fun b hb => ?_) line
    cases hbefore : a.before.text with
    | nil =>
      rw [hbefore] at hb
      cases hb
      rfl
    | cons d w =>
      rw [hbefore] at hb
      cases hb
      exact isWordByte_of_isSpace (a.before.isSpace _ (hbefore ▸ List.mem_cons_self))
  have hspace : Cursor.skipSpace
      ⟨a.before.text ++ Byte.equals :: (a.gap.text ++ (a.value.spelling ++ t)), line⟩ =
        ⟨Byte.equals :: (a.gap.text ++ (a.value.spelling ++ t)), line⟩ :=
    a.before.skipSpace (by rintro _ ⟨⟩; rfl) line
  have hinline : Cursor.skipInline ⟨a.gap.text ++ (a.value.spelling ++ t), line⟩ =
      ⟨a.value.spelling ++ t, line⟩ := by
    obtain ⟨d, u, hspelling, hstarts⟩ := a.value.spelling_eq_cons
    obtain ⟨hblank, htab⟩ := Kind.starts_ne_blank hstarts
    rw [Cursor.skipInline, dropWhile_append_stop a.gap.isInline]
    rw [hspelling]
    rintro _ ⟨⟩
    simp [hblank, htab]
  have hne : a.key.text.isEmpty = false := List.isEmpty_eq_false_iff.mpr a.key_ne_nil
  simp only [key, hlead, atEnd_assignment, nextIs_open_assignment, hword, hspace, hne]
  exact congrArg (fun d => Except.ok (some a.key.text, d)) hinline

theorem readInside_entry_ok {a : Assignment} {t : Text} {s' : Settings} {after : Cursor}
    (hlead : c.skipLead = ⟨a.text ++ t, line⟩)
    (hentry : entry inSection s a.key.text ⟨a.value.spelling ++ t, line⟩ = .ok (s', after)) :
    readInside inSection s c = readInside inSection s' after := by
  simp only [readInside, allEntries_eq inSection (s, c), entriesRound, key_assignment hlead, hentry]

theorem readInside_entry_error {a : Assignment} {t : Text} {fault : Fault}
    (hlead : c.skipLead = ⟨a.text ++ t, line⟩)
    (hentry : entry inSection s a.key.text ⟨a.value.spelling ++ t, line⟩ = .error fault) :
    readInside inSection s c = .error fault := by
  simp only [readInside, allEntries_eq inSection (s, c), entriesRound, key_assignment hlead, hentry]

variable (inSection s) in
theorem readInside_entry {a : Assignment} {t : Text} (indent : Blanks) (tail : Tail)
    (hlead : c.skipLead = ⟨a.text ++ t, line⟩) (ht : ∀ b ∈ t.head?, isWordByte b = false) :
    match Line.effect (some inSection, s) (.entry indent a tail) with
    | some x => readInside inSection s c = readInside inSection x.2 ⟨t, line⟩
    | none => ∃ fault, readInside inSection s c = .error fault := by
  cases hfind : Setting.find? inSection a.key.text with
  | none =>
    have hentry : entry inSection s a.key.text ⟨a.value.spelling ++ t, line⟩ =
        .error ⟨line, .unknownKey a.key.text inSection⟩ := by
      rw [entry_eq, hfind]
      rfl
    simp [Line.effect, hfind, readInside_entry_error hlead hentry]
  | some k =>
    have hvalue := k.kind.read_literal ht line a.value
    cases hv : a.value.value? k.kind with
    | none =>
      rw [hv] at hvalue
      obtain ⟨fault, hfault⟩ := hvalue
      have hentry : entry inSection s a.key.text ⟨a.value.spelling ++ t, line⟩ = .error fault := by
        simp [entry_eq, hfind, hfault, stored]
      simp [Line.effect, hfind, hv, readInside_entry_error hlead hentry]
    | some v =>
      rw [hv] at hvalue
      have hentry : entry inSection s a.key.text ⟨a.value.spelling ++ t, line⟩ =
          .ok (Setting.put s k v, ⟨t, line⟩) := by
        dsimp only at hvalue
        simp [entry_eq, hfind, hvalue, stored]
      simp [Line.effect, hfind, hv, readInside_entry_ok hlead hentry]

end

theorem head_tail_follow (tail : Tail) (lines : List Line) :
    ∀ b ∈ (tail.text ++ follow lines).head?, isWordByte b = false := by
  obtain ⟨⟨w, hw, -⟩, remark⟩ := tail
  intro b hb
  cases w with
  | cons d w =>
    have hd : d = b := by cases remark <;> exact Option.some.inj hb
    exact isWordByte_of_isSpace (hd ▸ hw d List.mem_cons_self)
  | nil =>
    cases remark with
    | none =>
      rw [head_follow lines b hb]
      rfl
    | some remark =>
      cases hb
      rfl

theorem allSections_header_iff {s s' : Settings} {name : Word} {tail : Tail} {lines : List Line}
    {line : Nat} {P : Prop} (indent : Blanks) (outer : Option Section)
    (hinside : ∀ inSection, readInside inSection s ⟨tail.text ++ follow lines, line⟩ = .ok s' ↔
      P ∧ (lines.foldlM Line.effect (some inSection, s)).map (·.2) = some s') :
    allSections (s, ⟨headerText name ++ (tail.text ++ follow lines), line⟩) = .ok s' ↔
      P ∧ (Line.effect (outer, s) (.header indent name tail) >>= fun x =>
        lines.foldlM Line.effect x).map (·.2) = some s' := by
  have hread := allSections_header s name (tail.text ++ follow lines) line
  cases hname : Section.ofName? name.text with
  | none =>
    rw [hname] at hread
    obtain ⟨fault, hfault⟩ := hread
    simp [hfault, Line.effect, hname]
  | some inSection =>
    rw [hname] at hread
    dsimp only at hread
    rw [hread, hinside inSection]
    simp [Line.effect, hname]

/-- Only a comment can crowd the line before it. -/
theorem isChain_solid (prev : Line) {l : Line} (hblank : l.isBlank = false)
    (hcomment : l.isComment = false) (lines : List Line) :
    (prev :: (l :: lines).filter (!·.isBlank)).IsChain Line.Apart ↔
      (l :: lines.filter (!·.isBlank)).IsChain Line.Apart := by
  simp [hblank, hcomment, Line.Apart]

section
variable {prev : Line} {p : Text} (hp : Pending prev.hasComment p) (inSection : Section)
  (s : Settings) (indent : Blanks) (tail : Tail) (lines : List Line) (line : Nat)

include hp

theorem readInside_headerLine (name : Word) :
    ∃ n, readInside inSection s
        ⟨p ++ Byte.newline :: ((Line.header indent name tail).text ++ follow lines), line⟩ =
      allSections (s, ⟨headerText name ++ (tail.text ++ follow lines), n⟩) := by
  obtain ⟨n, hlead⟩ := hp.skipLead_line (t := headerText name ++ (tail.text ++ follow lines))
    indent (by rintro _ ⟨⟩; rfl) (.inr (by rintro _ ⟨⟩; decide)) line
  rw [Line.text_header_append]
  exact ⟨n, readInside_header hlead⟩

theorem readInside_entryLine (a : Assignment) :
    match Line.effect (some inSection, s) (.entry indent a tail) with
    | some x => ∃ n, readInside inSection s
          ⟨p ++ Byte.newline :: ((Line.entry indent a tail).text ++ follow lines), line⟩ =
        readInside inSection x.2 ⟨tail.text ++ follow lines, n⟩
    | none => ∃ fault, readInside inSection s
          ⟨p ++ Byte.newline :: ((Line.entry indent a tail).text ++ follow lines), line⟩ =
        .error fault := by
  have hhead : ∀ b ∈ (a.text ++ (tail.text ++ follow lines)).head?,
      Byte.isSpace b = false ∧ b ≠ Byte.hash :=
    fun b hb => isSpace_ne_hash_of_isWordByte (isWordByte_of_mem_head_assignment a _ hb)
  obtain ⟨n, hlead⟩ := hp.skipLead_line indent (fun b hb => (hhead b hb).1)
    (.inr fun b hb => (hhead b hb).2) line
  have hread := readInside_entry inSection s indent tail hlead (head_tail_follow tail lines)
  rw [Line.text_entry_append]
  split at hread
  · exact ⟨n, hread⟩
  · exact hread

end

theorem readInside_follow (lines : List Line) (prev : Line) {p : Text}
    (hp : Pending prev.hasComment p) (inSection : Section) (s s' : Settings) (line : Nat) :
    readInside inSection s ⟨p ++ follow lines, line⟩ = .ok s' ↔
      (prev :: lines.filter (!·.isBlank)).IsChain Line.Apart ∧
        (lines.foldlM Line.effect (some inSection, s)).map (·.2) = some s' := by
  -- Blank lines and a first comment are only added to what is pending; it is skipped when the next
  -- header or entry comes, and what is pending then is the end of that line.
  induction lines generalizing prev p inSection s line with
  | nil =>
    obtain ⟨n, hlead⟩ := hp.skipLead_end line
    have htext : p ++ follow [] = p := List.append_nil p
    rw [htext, readInside_end hlead]
    simp
  | cons l lines ih =>
    rw [follow_cons, List.foldlM_cons]
    cases l with
    | blank w =>
      have hrest := ih prev (hp.blank w) inSection s line
      rw [List.append_assoc] at hrest
      exact hrest
    | comment indent remark =>
      have hchain : (prev :: (Line.comment indent remark :: lines).filter (!·.isBlank)).IsChain
          Line.Apart ↔ prev.hasComment = false ∧
            (Line.comment indent remark :: lines.filter (!·.isBlank)).IsChain Line.Apart := by
        simp [Line.isBlank, Line.Apart, Line.isComment]
      rw [hchain]
      cases hcomment : prev.hasComment with
      | true =>
        rw [hcomment] at hp
        obtain ⟨n, hlead⟩ := hp.skipLead_line (t := Byte.hash :: (remark.text ++ follow lines))
          indent (by rintro _ ⟨⟩; rfl) (.inl rfl) line
        rw [Line.text_comment_append, readInside_comment hlead]
        simp
      | false =>
        rw [hcomment] at hp
        have hrest := ih (.comment indent remark) (hp.remark indent remark) inSection s line
        rw [List.append_assoc] at hrest
        refine hrest.trans ?_
        simp [Line.effect]
    | header indent name tail =>
      obtain ⟨n, hline⟩ := readInside_headerLine hp inSection s indent tail lines line name
      rw [isChain_solid prev rfl rfl, hline]
      exact allSections_header_iff indent (some inSection) fun inSection =>
        ih (.header indent name tail) (.of_tail tail) inSection s n
    | entry indent a tail =>
      have hread := readInside_entryLine hp inSection s indent tail lines line a
      rw [isChain_solid prev rfl rfl]
      cases heffect : Line.effect (some inSection, s) (.entry indent a tail) with
      | none =>
        rw [heffect] at hread
        obtain ⟨fault, hfault⟩ := hread
        simp [hfault]
      | some x =>
        rw [heffect] at hread
        obtain ⟨n, hline⟩ := hread
        obtain ⟨hsection, settings⟩ := x
        obtain rfl : hsection = some inSection := Line.section_of_effect_entry heffect
        rw [hline, ih (.entry indent a tail) (.of_tail tail) inSection settings n]
        rfl

theorem allSections_follow (s : Settings) (lines : List Line) (line : Nat) :
    ∃ n, allSections (s, ⟨follow lines, line⟩) = allSections (s, ⟨render lines, n⟩) := by
  cases lines with
  | nil => exact ⟨line, rfl⟩
  | cons l lines =>
    rw [follow_cons, render_cons]
    exact ⟨_, allSections_blanks (w := [Byte.newline]) (List.all_eq_true.mp (by decide)) s _ line⟩

theorem allSections_assignment (s : Settings) (a : Assignment) (t : Text) (line : Nat) :
    ∃ fault, allSections (s, ⟨a.text ++ t, line⟩) = .error fault := by
  have hhead : ∀ b ∈ (a.text ++ t).head?, Byte.isSpace b = false ∧ b ≠ Byte.hash :=
    fun b hb => isSpace_ne_hash_of_isWordByte (isWordByte_of_mem_head_assignment a t hb)
  rw [allSections_here hhead, atEnd_assignment,
    oneSection_of_not_open (by simp [nextIs_open_assignment])]
  exact ⟨_, rfl⟩

theorem allSections_render (lines : List Line) (s s' : Settings) (line : Nat) :
    allSections (s, ⟨render lines, line⟩) = .ok s' ↔
      Uncrowded lines ∧ (lines.foldlM Line.effect (none, s)).map (·.2) = some s' := by
  induction lines generalizing line with
  | nil =>
    rw [allSections_atEnd rfl]
    simp [Uncrowded]
  | cons l lines ih =>
    rw [render_cons, List.foldlM_cons]
    cases l with
    | blank w =>
      obtain ⟨n, hrest⟩ := allSections_follow s lines (line + w.text.count Byte.newline)
      rw [Line.text, allSections_blanks w.isSpace, hrest]
      exact ih n
    | comment indent remark =>
      obtain ⟨n, hrest⟩ := allSections_follow s lines line
      rw [Line.text_comment_append, allSections_skip, indent.skipSpace (by rintro _ ⟨⟩; rfl),
        Cursor.skipComment_remark remark.newline_notMem (head_follow lines), hrest]
      exact ih n
    | header indent name tail =>
      rw [Line.text_header_append, allSections_blanks indent.isSpace]
      refine (allSections_header_iff indent none fun inSection =>
        readInside_follow lines (.header indent name tail) (.of_tail tail)
          inSection s s' _).trans ?_
      simp [Uncrowded, Line.isHeader, Line.isBlank]
    | entry indent a tail =>
      obtain ⟨fault, hfault⟩ := allSections_assignment s a (tail.text ++ follow lines)
        (line + indent.text.count Byte.newline)
      rw [Line.text_entry_append, allSections_blanks indent.isSpace, hfault]
      simp [Line.effect]

/-- A file is read as its lines say, unless comments crowd. -/
theorem parse_render_iff (lines : List Line) (s : Settings) :
    parse (render lines) = .ok s ↔ Uncrowded lines ∧ meaning lines = some s := by
  rw [parse_eq_all]
  exact allSections_render lines {} s 1

def withoutComments (lines : List Line) : List Line := lines.filter (!·.isComment)

theorem foldlM_effect_withoutComments (lines : List Line) (x : Option Section × Settings) :
    (withoutComments lines).foldlM Line.effect x = lines.foldlM Line.effect x := by
  induction lines generalizing x with
  | nil => rfl
  | cons l lines ih =>
    by_cases hcomment : l.isComment = true
    · have hdrop : withoutComments (l :: lines) = withoutComments lines := by
        simp [withoutComments, hcomment]
      have heffect : l.effect x = some x := by
        cases l with
        | comment indent remark => rfl
        | _ => cases hcomment
      rw [hdrop, ih, List.foldlM_cons, heffect]
      rfl
    · have hkeep : withoutComments (l :: lines) = l :: withoutComments lines := by
        simp [withoutComments, hcomment]
      simp only [hkeep, List.foldlM_cons, ih]

theorem uncrowded_of_isComment {lines : List Line} (h : ∀ l ∈ lines, l.isComment = false) :
    Uncrowded lines := by
  refine (List.pairwise_of_forall_mem_list fun l _ next hnext hcomment => ?_).isChain
  have hmem := (List.dropWhile_sublist _).mem (List.mem_of_mem_filter hnext)
  rw [h next hmem] at hcomment
  cases hcomment.2

/-- Comments can be left out, and they can be there unless they crowd. -/
theorem parse_withoutComments (lines : List Line) (s : Settings) :
    parse (render lines) = .ok s ↔
      parse (render (withoutComments lines)) = .ok s ∧ Uncrowded lines := by
  have hmeaning : meaning (withoutComments lines) = meaning lines := by
    rw [meaning, foldlM_effect_withoutComments, meaning]
  have hplain : parse (render (withoutComments lines)) = .ok s ↔ meaning lines = some s := by
    have hnone : ∀ l ∈ withoutComments lines, l.isComment = false := by
      simp [withoutComments]
    rw [parse_render_iff, hmeaning]
    exact and_iff_right (uncrowded_of_isComment hnone)
  rw [parse_render_iff, hplain]
  exact and_comm

def twoComments : List Line :=
  [.header .empty ⟨"generate", List.all_eq_true.mp (by decide)⟩ ⟨.empty, none⟩,
    .comment .empty ⟨" what to read", by decide⟩,
    .comment .empty ⟨" and how", by decide⟩,
    .entry .empty ⟨⟨"jobs", List.all_eq_true.mp (by decide)⟩, by decide, .empty, ⟨[], by simp⟩,
      .integer false ⟨"4", by decide, List.all_eq_true.mp (by decide)⟩⟩ ⟨.empty, none⟩]

theorem parse_twoComments :
    parse (render twoComments) = .error ⟨3, .expectedKey⟩ ∧
      parse (render (withoutComments twoComments)) = .ok { jobs := 4 } ∧
      ¬ ∀ lines s, parse (render lines) = .ok s ↔
        parse (render (withoutComments lines)) = .ok s := by
  have hwith : parse (render twoComments) = .error ⟨3, .expectedKey⟩ := by decide +kernel
  have hwithout : parse (render (withoutComments twoComments)) = .ok { jobs := 4 } := by
    decide +kernel
  refine ⟨hwith, hwithout, fun h => ?_⟩
  have hok := (h twoComments _).mpr hwithout
  rw [hwith] at hok
  cases hok

end Bindery.Settings
