import Bindery.Log.Line
import Bindery.Proofs.Json.Faithful
import Bindery.Proofs.Json.Literals

/-!
The lines of the log that are for other programs. A line is one line just where the source has no
line break. It reads back as the record just where the source needs no escape and the message has
no control bytes but the three that are escaped; every other record is lost or changed.
-/

set_option autoImplicit false

namespace Bindery.Log.Record

open Json Grammar

variable {r : Record} {e : Int64} {s : Text} {c : UInt8}

def value (e : Int64) (r : Record) : Json :=
  .object [("elapsed_ms", .number (.int e)), ("level", .string r.level.name),
    ("module", .string r.source), ("msg", .string r.message)]

/-- One line with its end. -/
def OneLine (text : Text) : Prop := ∃ body, text = body ++ [Byte.newline] ∧ Byte.newline ∉ body

/-- No control byte but the three that a message may have. -/
def Writable (c : UInt8) : Prop := 32 ≤ c ∨ c = 9 ∨ c = 10 ∨ c = 13

theorem escapeByte_self (hquote : c ≠ 34) (hslash : c ≠ 92) (hbreak : c ≠ 10) (hreturn : c ≠ 13)
    (htab : c ≠ 9) : escapeByte c = [c] := by
  rw [escapeByte, Byte.quote, Byte.backslash, Byte.newline, Byte.carriageReturn, Byte.tab,
    if_neg hquote, if_neg hslash, if_neg hbreak, if_neg hreturn, if_neg htab]

theorem escapeByte_eq (h : Writable c) : escapeByte c = Json.escapeByte c := by
  by_cases hspecial : c = 34 ∨ c = 92 ∨ c = 10 ∨ c = 13 ∨ c = 9
  · rcases hspecial with rfl | rfl | rfl | rfl | rfl <;>
      simp [escapeByte, Json.escapeByte, Byte.quote, Byte.backslash, Byte.newline,
        Byte.carriageReturn, Byte.tab]
  · simp only [not_or] at hspecial
    obtain ⟨hquote, hslash, hbreak, hreturn, htab⟩ := hspecial
    have hle : 32 ≤ c := by
      obtain h | h | h | h := h
      exacts [h, absurd h htab, absurd h hbreak, absurd h hreturn]
    rw [escapeByte_self hquote hslash hbreak hreturn htab,
      escapeByte_clean ⟨hle, hquote, hslash⟩]

theorem escapeByte_of_not_writable (h : ¬ Writable c) : escapeByte c = [c] ∧ c ≠ 34 := by
  have hne : ∀ d, Writable d → c ≠ d := by
    rintro d hd rfl
    exact h hd
  have hquote : c ≠ 34 := hne 34 (.inl (by decide))
  exact ⟨escapeByte_self hquote (hne 92 (.inl (by decide))) (hne 10 (.inr (.inr (.inl rfl))))
    (hne 13 (.inr (.inr (.inr rfl)))) (hne 9 (.inr (.inl rfl))), hquote⟩

theorem writable_of_visible (h : Visible (s.flatMap escapeByte)) : ∀ c ∈ s, Writable c := by
  intro c hc
  by_contra hw
  have hself := (escapeByte_of_not_writable hw).1
  exact hw (.inl (h c (List.mem_flatMap.mpr ⟨c, hc, by simp [hself]⟩)))

theorem escaped_message (s : Text) : Escaped (s.flatMap escapeByte) := by
  induction s with
  | nil => exact escaped_of_notMem (by simp)
  | cons c s ih =>
    refine Escaped.append ?_ ih
    by_cases hw : Writable c
    · rw [escapeByte_eq hw]
      exact (spells_character (character_escapeByte c)).escaped
    · obtain ⟨hself, hquote⟩ := escapeByte_of_not_writable hw
      rw [hself]
      exact escaped_of_notMem (by simpa using Ne.symm hquote)

theorem newline_notMem_message (s : Text) : Byte.newline ∉ s.flatMap escapeByte := by
  intro h
  obtain ⟨c, -, hc⟩ := List.mem_flatMap.mp h
  by_cases hw : Writable c
  · rw [escapeByte_eq hw] at hc
    exact absurd ((spells_character (character_escapeByte c)).visible _ hc) (by decide)
  · rw [(escapeByte_of_not_writable hw).1, List.mem_singleton] at hc
    exact hw (hc ▸ .inr (.inr (.inl rfl)))

def bound (key written : Text) : Text := 34 :: key ++ [34] ++ 58 :: written

theorem member_bound {limit : Nat} {key : Text} {v : Json} (hkey : Clean key) (hv : Scalar s v) :
    Member (Value limit) (bound key s) (key, v) :=
  member_scalar (characters_of_clean hkey) hv

def members (e : Int64) (r : Record) : Text :=
  bound "elapsed_ms" (decimalInt e.toInt) ++ 44 ::
    (bound "level" (34 :: r.level.name ++ [34]) ++ 44 ::
      (bound "module" (34 :: r.source ++ [34]) ++ [44] ++ (34 :: ascii "msg" ++ [34]) ++ [58] ++
        (34 :: r.message.flatMap escapeByte ++ [34])))

theorem jsonLine_eq (e : Int64) (r : Record) :
    r.jsonLine e.toInt = 123 :: members e r ++ [125] ++ [Byte.newline] := by
  simp only [jsonLine, members, bound, List.append_assoc, List.cons_append]
  rfl

theorem clean_keys : Clean "elapsed_ms" ∧ Clean "level" ∧ Clean "module" ∧ Clean "msg" := by
  unfold Clean
  decide +kernel

theorem clean_name (level : Level) : Clean level.name := by
  unfold Clean
  cases level <;> decide +kernel

theorem scalar_elapsed (e : Int64) : Scalar (decimalInt e.toInt) (.number (.int e)) :=
  scalar_numberText (n := .int e) nofun

theorem oneLine_jsonLine (e : Int64) (r : Record) :
    OneLine (r.jsonLine e.toInt) ↔ Byte.newline ∉ r.source := by
  have hclean : ∀ {s : Text}, Clean s → (10 : UInt8) ∉ s := fun hs hmem =>
    absurd (hs 10 hmem).1 (by decide)
  have helapsed : (10 : UInt8) ∉ decimalInt e.toInt := fun hmem =>
    absurd (visible_scalar (scalar_elapsed e) 10 hmem) (by decide)
  have hmessage : (10 : UInt8) ∉ r.message.flatMap escapeByte := newline_notMem_message r.message
  obtain ⟨hkey₁, hkey₂, hkey₃, hkey₄⟩ := clean_keys
  -- only the source can have a line break of its own
  have hmembers : Byte.newline ∉ 123 :: members e r ++ [125] ↔ Byte.newline ∉ r.source := by
    simp [members, bound, Byte.newline, helapsed, hmessage, hclean hkey₁, hclean hkey₂,
      hclean hkey₃, hclean hkey₄, hclean (clean_name r.level)]
  rw [jsonLine_eq, ← hmembers]
  constructor
  · rintro ⟨body, hbody, hnewline⟩
    rwa [List.append_cancel_right hbody]
  · exact fun h => ⟨_, rfl, h⟩

theorem faithful_value (e : Int64) (r : Record) : (r.value e).Faithful 1 :=
  @faithful_ofMembers [("elapsed_ms", .number (.int e)), ("level", .string r.level.name),
    ("module", .string r.source), ("msg", .string r.message)] 0
    (by simp [faithful_string, faithful_int])

/-- Where both texts allow it, the line is the printed form of the record. -/
theorem jsonLine_eq_compact (hsource : Clean r.source) (hmessage : ∀ c ∈ r.message, Writable c) :
    r.jsonLine e.toInt = (r.value e).compact.closed := by
  have hescape : r.message.flatMap escapeByte = r.message.flatMap Json.escapeByte :=
    List.flatMap_congr fun c hc => escapeByte_eq (hmessage c hc)
  obtain ⟨hkey₁, hkey₂, hkey₃, hkey₄⟩ := clean_keys
  simp only [jsonLine_eq, members, bound, value, Text.closed, compact, renderOnto, membersOnto,
    quote, hescape, escape_clean hkey₁, escape_clean hkey₂, escape_clean hkey₃,
    escape_clean hkey₄, escape_clean hsource, escape_clean (clean_name r.level),
    List.append_assoc, List.cons_append]
  rfl

theorem parse_jsonLine (hsource : Clean r.source) (hmessage : ∀ c ∈ r.message, Writable c) :
    parse (r.jsonLine e.toInt) = .ok (r.value e) := by
  rw [jsonLine_eq_compact hsource hmessage]
  exact ((faithful_value e r).mono (by decide)).parse_closed

/-- From a line that reads back as the record: its message is spelled by what stands for it, and its
source by what stands between the level and the message. -/
theorem spelled_of_parse (h : parse (r.jsonLine e.toInt) = .ok (r.value e)) :
    Characters (r.message.flatMap escapeByte) r.message ∧
    ∃ limit ms, Separated (Member (Value limit)) (bound "module" (34 :: r.source ++ [34])) ms ∧
      (ascii "module", .string r.source) ∈ ms := by
  have hnewline : Blank [Byte.newline] := by simp [Blank, Byte.newline]
  have hdocument := document_of_parse h
  rw [jsonLine_eq] at hdocument
  obtain ⟨written, hsep, hmerged⟩ := members_of_document hnewline hdocument (List.cons_ne_nil _ _)
  -- the first two members are known, and so is the last; the source is in what is left
  obtain ⟨hkey₁, hkey₂, -⟩ := clean_keys
  have hname := Scalar.string (.quotes (characters_of_clean (clean_name r.level)))
  obtain ⟨ms, rfl, hafter⟩ := separated_first (member_bound hkey₁ (scalar_elapsed e)) hsep
  obtain ⟨ms, rfl, hrest⟩ := separated_first (member_bound hkey₂ hname) hafter
  obtain ⟨ms', key, t, rfl, hfront, hkey, ht⟩ := separated_last_member hrest
    (escaped_of_notMem (by decide)) (escaped_message r.message)
  obtain rfl := eq_of_characters hkey (by decide)
  have hlast := hmerged.last
  simp only [List.reverse_cons, List.reverse_append, List.reverse_nil, List.nil_append,
    List.cons_append, List.append_assoc] at hlast
  have hmessage : some (Json.string r.message) = some (.string t) := hlast "msg"
  obtain rfl := Json.string.inj (Option.some.inj hmessage)
  have hsource : some (Json.string r.source) = (ms'.reverse ++
      [(ascii "level", Json.string r.level.name),
        (ascii "elapsed_ms", .number (.int e))]).lookup (ascii "module") := hlast "module"
  have hothers : [(ascii "level", Json.string r.level.name),
      (ascii "elapsed_ms", .number (.int e))].lookup (ascii "module") = none := rfl
  rw [List.lookup_append, hothers, Option.or_none] at hsource
  obtain ⟨l₁, l₂, hms', -⟩ := List.lookup_eq_some_iff.mp hsource.symm
  exact ⟨ht, _, ms', hfront, List.mem_reverse.mp (hms' ▸ by simp)⟩

theorem clean_of_parse (h : parse (r.jsonLine e.toInt) = .ok (r.value e)) :
    Clean r.source ∧ ∀ c ∈ r.message, Writable c := by
  obtain ⟨hmessage, limit, ms, hms, hsource⟩ := spelled_of_parse h
  have hroom : (bound "module" (34 :: r.source ++ [34])).length ≤
      (ascii "module").length + r.source.length + 5 := by
    simp only [bound, List.length_append, List.length_cons, List.length_nil]
    omega
  exact ⟨clean_of_separated hms hsource hroom,
    writable_of_visible (spells_characters hmessage).visible⟩

/-- A line is one line just where the source has no line break, and it reads back as an object with
the four members of the record just where the source is written as it stands and every control byte
of the message has an escape of its own. -/
theorem jsonLine_reads_back (e : Int64) (r : Record) :
    (OneLine (r.jsonLine e.toInt) ↔ Byte.newline ∉ r.source) ∧
    (parse (r.jsonLine e.toInt) = .ok (r.value e) ↔
      Clean r.source ∧ ∀ c ∈ r.message, Writable c) :=
  ⟨oneLine_jsonLine e r, clean_of_parse, fun h => parse_jsonLine h.1 h.2⟩

/-- A control byte that is none of the three stays as it is, and the line cannot be read. -/
theorem jsonLine_refused :
    (∃ error, parse (jsonLine 0 ⟨.info, "generate", [97, 1, 98]⟩) = .error error ∧
      error.message = "Control character in string") ∧
    ¬ ∀ (e : Int64) (r : Record),
      OneLine (r.jsonLine e.toInt) ∧ parse (r.jsonLine e.toInt) = .ok (r.value e) := by
  have hrefused : (parse (jsonLine 0 ⟨.info, "generate", [97, 1, 98]⟩)).map (fun _ => ()) =
      .error ⟨"Control character in string", 1, 61, 60⟩ := by
    decide +kernel
  cases hparse : parse (jsonLine 0 ⟨.info, "generate", [97, 1, 98]⟩) with
  | ok v => simp [hparse, Except.map] at hrefused
  | error error =>
    rw [hparse, Except.map, Except.error.injEq] at hrefused
    refine ⟨⟨error, rfl, by rw [hrefused]⟩, fun hall => ?_⟩
    have hread := (hall 0 ⟨.info, "generate", [97, 1, 98]⟩).2
    rw [Int64.toInt_zero, hparse] at hread
    cases hread

end Bindery.Log.Record
