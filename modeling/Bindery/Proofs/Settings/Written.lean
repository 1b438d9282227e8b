import Bindery.Proofs.Settings.Lines

/-!
Settings files as they are written: sections in any order and number, each with entries for the
settings it is home to. Such a file is always read, and each setting gets the value that was
written for it last.
-/

set_option autoImplicit false

namespace Bindery.Settings

/-- A byte inside a string. Quotes, backslashes, line breaks and tabs are escaped. -/
def Piece.ofByte (b : UInt8) : Piece :=
  if hquote : b = Byte.quote then .escaped Byte.quote (by decide)
  else if hslash : b = Byte.backslash then .escaped Byte.backslash (by decide)
  else if hbreak : b = Byte.newline then .escaped 110 (by decide)
  else if b = Byte.tab then .escaped 116 (by decide)
  else .plain b hquote hbreak hslash

@[simp] theorem Piece.value_ofByte (b : UInt8) : (ofByte b).value = b := by
  unfold ofByte
  split_ifs with hquote hslash hbreak htab
  · exact hquote.symm
  · exact hslash.symm
  · exact hbreak.symm
  · exact htab.symm
  · rfl

structure Listed where
  value : Text
  after : Blanks
  comma : Option Blanks

def Listed.item (l : Listed) : Item := ⟨l.value.map Piece.ofByte, l.after, l.comma⟩

/-- A numeral has at most nine characters, the sign included. -/
structure Numeral where
  negative : Bool
  digits : Digits
  short : (Literal.sign negative ++ digits.text).length ≤ 9

/-- A value of a kind as it is written. -/
inductive Written : Kind → Type where
  | text (value : Text) : Written .text
  | list (lead : Blanks) (items : List Listed) : Written .list
  | integer (numeral : Numeral) : Written .integer
  | truth (value : Bool) : Written .truth

namespace Written

def literal {kind : Kind} : Written kind → Literal
  | text value => .text (value.map Piece.ofByte)
  | list lead items => .list lead (items.map Listed.item)
  | integer numeral => .integer numeral.negative numeral.digits
  | truth value => .truth value

def value {kind : Kind} : Written kind → kind.Value
  | text value => value
  | list _ items => items.map Listed.value
  | integer numeral => Literal.number numeral.negative numeral.digits.text
  | truth value => value

theorem value?_literal {kind : Kind} (w : Written kind) : w.literal.value? kind = some w.value := by
  cases w with
  | text value => simp [literal, Literal.value?, Written.value, Function.comp_def]
  | list lead items =>
    simp [literal, Literal.value?, Written.value, Listed.item, Item.value, Function.comp_def]
  | integer numeral => exact if_pos numeral.short
  | truth value => rfl

end Written

abbrev Given := (k : Setting) × k.kind.Value

def Given.for? (k : Setting) (g : Given) : Option k.kind.Value :=
  if h : g.1 = k then some (h ▸ g.2) else none

def putAll (s : Settings) (given : List Given) : Settings :=
  given.foldl (fun s g => Setting.put s g.1 g.2) s

theorem get_putAll (k : Setting) (given : List Given) (s : Settings) :
    Setting.get (putAll s given) k =
      (given.filterMap (Given.for? k)).getLast?.getD (Setting.get s k) := by
  induction given generalizing s with
  | nil => rfl
  | cons g given ih =>
    have hput : putAll s (g :: given) = putAll (Setting.put s g.1 g.2) given := rfl
    rw [hput, ih, List.filterMap_cons]
    obtain ⟨l, v⟩ := g
    by_cases hkl : l = k
    · subst hkl
      simp [Given.for?, List.getLast?_cons]
    · simp [Given.for?, hkl, Setting.get_put_of_ne s (Ne.symm hkl)]

theorem base_putAll (given : List Given) (s : Settings) : (putAll s given).base = s.base := by
  induction given generalizing s with
  | nil => rfl
  | cons g given ih => exact (ih _).trans (Setting.put_base s g.1 g.2)

structure Entry (inSection : Section) where
  indent : Blanks
  setting : Setting
  home : setting.home = inSection
  before : Blanks
  gap : Gap
  value : Written setting.kind
  tail : Tail

namespace Entry

variable {inSection : Section}

theorem key_isWord (k : Setting) : ∀ b ∈ k.key, isWordByte b = true := by
  rw [← List.all_eq_true]
  cases k <;> decide

theorem key_ne_nil (k : Setting) : k.key ≠ [] := by
  cases k <;> decide

def line (e : Entry inSection) : Line :=
  .entry e.indent ⟨⟨e.setting.key, key_isWord e.setting⟩, key_ne_nil e.setting, e.before, e.gap,
    e.value.literal⟩ e.tail

def given (e : Entry inSection) : Given := ⟨e.setting, e.value.value⟩

theorem effect_line (e : Entry inSection) (s : Settings) :
    Line.effect (some inSection, s) e.line =
      some (some inSection, Setting.put s e.given.1 e.given.2) := by
  have hfind := Setting.find?_home_key e.setting
  rw [e.home] at hfind
  simp [Line.effect, line, hfind, e.value.value?_literal, given]

end Entry

structure Block where
  indent : Blanks
  inSection : Section
  tail : Tail
  entries : List (Entry inSection)
  spacer : List Blanks

namespace Block

theorem name_isWord (inSection : Section) : ∀ b ∈ inSection.name, isWordByte b = true := by
  rw [← List.all_eq_true]
  cases inSection <;> decide

theorem ofName?_name (inSection : Section) : Section.ofName? inSection.name = some inSection := by
  cases inSection <;> decide

def lines (b : Block) : List Line :=
  .header b.indent ⟨b.inSection.name, name_isWord b.inSection⟩ b.tail ::
    (b.entries.map Entry.line ++ b.spacer.map Line.blank)

def given (b : Block) : List Given := b.entries.map Entry.given

theorem foldlM_entries {inSection : Section} (entries : List (Entry inSection)) (s : Settings) :
    (entries.map Entry.line).foldlM Line.effect (some inSection, s) =
      some (some inSection, putAll s (entries.map Entry.given)) := by
  induction entries generalizing s with
  | nil => rfl
  | cons e entries ih =>
    rw [List.map_cons, List.foldlM_cons, e.effect_line]
    exact ih _

theorem foldlM_spacer (spacer : List Blanks) (x : Option Section × Settings) :
    (spacer.map Line.blank).foldlM Line.effect x = some x := by
  induction spacer with
  | nil => rfl
  | cons w spacer ih => exact ih

theorem foldlM_lines (b : Block) (x : Option Section × Settings) :
    b.lines.foldlM Line.effect x = some (some b.inSection, putAll x.2 b.given) := by
  have hheader : ∀ hword, Line.effect x (.header b.indent ⟨b.inSection.name, hword⟩ b.tail) =
      some (some b.inSection, x.2) := by
    simp [Line.effect, ofName?_name]
  rw [lines, List.foldlM_cons, hheader, Option.bind_eq_bind, Option.bind_some, List.foldlM_append,
    foldlM_entries, Option.bind_eq_bind, Option.bind_some, foldlM_spacer, given]

theorem isComment_lines (b : Block) : ∀ l ∈ b.lines, l.isComment = false := by
  intro l hl
  simp only [lines, List.mem_cons, List.mem_append, List.mem_map] at hl
  obtain rfl | ⟨e, -, rfl⟩ | ⟨w, -, rfl⟩ := hl
  · rfl
  · rfl
  · rfl

end Block

theorem foldlM_blocks (blocks : List Block) (x : Option Section × Settings) :
    ((blocks.flatMap Block.lines).foldlM Line.effect x).map (·.2) =
      some (putAll x.2 (blocks.flatMap Block.given)) := by
  induction blocks generalizing x with
  | nil => rfl
  | cons b blocks ih =>
    rw [List.flatMap_cons, List.foldlM_append, b.foldlM_lines, Option.bind_eq_bind,
      Option.bind_some, ih, List.flatMap_cons, putAll, putAll, putAll, List.foldl_append]

/-- What is written is read, and of the values written for a setting the last one counts. -/
theorem parse_written (blocks : List Block) :
    ∃ s, parse (render (blocks.flatMap Block.lines)) = .ok s ∧
      s.base = ({} : Settings).base ∧
      ∀ k, Setting.get s k =
        ((blocks.flatMap Block.given).filterMap (Given.for? k)).getLast?.getD
          (Setting.get {} k) := by
  have hplain : ∀ l ∈ blocks.flatMap Block.lines, l.isComment = false := by
    intro l hl
    obtain ⟨b, -, hl⟩ := List.mem_flatMap.mp hl
    exact b.isComment_lines l hl
  refine ⟨putAll {} (blocks.flatMap Block.given), ?_, base_putAll _ _, fun k => get_putAll k _ _⟩
  exact (parse_render_iff _ _).mpr ⟨uncrowded_of_isComment hplain, foldlM_blocks blocks (none, {})⟩

example : render (Block.lines ⟨.empty, .generate, ⟨.empty, none⟩,
    [⟨.empty, .document, rfl, .empty, ⟨" ", by simp [ascii]⟩, .text "a\"b\n", ⟨.empty, none⟩⟩,
      ⟨.empty, .features, rfl, .empty, ⟨" ", by simp [ascii]⟩,
        .list .empty [⟨"x#", .empty, some .empty⟩, ⟨"\\", .empty, none⟩], ⟨.empty, none⟩⟩],
    [.empty]⟩) = ascii "[generate]\nir= \"a\\\"b\\n\"\nfeatures= [\"x#\",\"\\\\\"]\n" := by
  decide +kernel

end Bindery.Settings
