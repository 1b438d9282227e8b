import Bindery.Proofs.Decimal
import Bindery.Proofs.Settings.Blanks
import Bindery.Proofs.Settings.Scan
import Mathlib.Data.List.TakeWhile

/-!
The reader with a state follows the reader with a cursor: where the cursor reader reads a value,
the state reader reads it too, has noted nothing and stands at the same place; where the cursor
reader reports a fault, that fault is the one problem noted. No loop goes round too often and no
conversion fails on the way. Three accounts are kept along: what is taken and what is to come make
up the content, every line break taken is counted or was taken by a backslash in a string, and only
short numerals are converted.
-/

set_option autoImplicit false

namespace Bindery.Settings.Scan

/-- At most nine characters: a minus sign or none, and digits, at least one. -/
def IsShortNumeral (t : Text) : Prop :=
  ∃ sign digits : Text, t = sign ++ digits ∧ (sign = [] ∨ sign = [Byte.minus]) ∧ digits ≠ [] ∧
    (∀ d ∈ digits, Byte.isDigit d = true) ∧ t.length ≤ 9

variable {α β : Type} {content : Text} {c : Cursor} {st : State}

/-- From the state on, the reader comes to an end, with what `post` says. -/
def Meets (scan : Scan α) (st : State) (post : α → State → Prop) : Prop :=
  ∃ a st', scan st = .ok (a, st') ∧ post a st'

section
variable {scan : Scan α} {f : α → Scan β} {mid post : α → State → Prop} {final : β → State → Prop}

theorem Meets.pure {a : α} (h : post a st) : Meets (Pure.pure a) st post := ⟨a, st, rfl, h⟩

theorem Meets.bind (h : Meets scan st mid) (hf : ∀ a st', mid a st' → Meets (f a) st' final) :
    Meets (scan >>= f) st final := by
  obtain ⟨a, st', hscan, hmid⟩ := h
  obtain ⟨b, st'', hrun, hfinal⟩ := hf a st' hmid
  refine ⟨b, st'', ?_, hfinal⟩
  change (scan st >>= fun p => f p.1 p.2) = _
  rw [hscan]
  exact hrun

theorem Meets.mono (h : Meets scan st mid) (himp : ∀ a st', mid a st' → post a st') :
    Meets scan st post := by
  obtain ⟨a, st', hscan, hmid⟩ := h
  exact ⟨a, st', hscan, himp a st' hmid⟩

end

/-- Nothing has been noted, and the state is at the place of the cursor. -/
structure Stands (content : Text) (c : Cursor) (st : State) : Prop where
  whole : st.taken ++ st.rest = content
  escapes : st.escaped.Sublist st.taken
  lines : st.line + st.escaped.count Byte.newline = 1 + st.taken.count Byte.newline
  numerals : ∀ t ∈ st.converted, IsShortNumeral t
  notes : st.notes = []
  rest : st.rest = c.rest
  line : st.line = c.line

structure Noted (content : Text) (fault : Fault) (st : State) : Prop where
  numerals : ∀ t ∈ st.converted, IsShortNumeral t
  single : ∃ p, st.notes = [p] ∧ p.fault = fault ∧ p.taken <+: content ∧
    p.escaped.Sublist p.taken ∧
    p.line + p.escaped.count Byte.newline = 1 + p.taken.count Byte.newline

/-- A value was read and the state stands behind it, or a problem was noted. The value is shown as
`good` says; with a problem, what is shown is `bad`. -/
def Agrees (content : Text) (good : β → α) (bad : α → Prop) : Result β → α → State → Prop
  | .ok (b, c), a, st => a = good b ∧ Stands content c st
  | .error fault, a, st => bad a ∧ Noted content fault st

namespace Stands

variable {f : Bool → Scan α} {post : α → State → Prop}

theorem start (content : Text) : Stands content (.start content) { rest := content } where
  whole := rfl
  escapes := List.Sublist.refl _
  lines := rfl
  numerals := fun _ h => absurd h List.not_mem_nil
  notes := rfl
  rest := rfl
  line := rfl

theorem atEnd (h : Stands content c st) (hf : Meets (f c.atEnd) st post) :
    Meets (Scan.atEnd >>= f) st post := by
  change Meets (f st.rest.isEmpty) st post
  rw [h.rest]
  exact hf

theorem nextIs {byte : UInt8} (h : Stands content c st) (hbyte : byte ≠ 0)
    (hf : Meets (f (c.nextIs byte)) st post) : Meets (Scan.nextIs byte >>= f) st post := by
  have hnext : (st.rest.headD 0 == byte) = c.nextIs byte := by
    rw [h.rest, Cursor.nextIs, Cursor.peek?, Bool.eq_iff_iff, beq_iff_eq, beq_iff_eq]
    cases c.rest with
    | nil => simp [hbyte.symm]
    | cons b rest => simp
  change Meets (f (st.rest.headD 0 == byte)) st post
  rw [hnext]
  exact hf

theorem failed (h : Stands content c st) (hf : Meets (f false) st post) :
    Meets (Scan.failed >>= f) st post := by
  change Meets (f (!st.notes.isEmpty)) st post
  rw [h.notes]
  exact hf

theorem takeWhile {p : UInt8 → Bool} (h : Stands content c st) (hp : p Byte.newline = false) :
    Meets (Scan.takeWhile p) st fun t st' =>
      t = c.rest.takeWhile p ∧ Stands content ⟨c.rest.dropWhile p, c.line⟩ st' := by
  refine ⟨_, _, rfl, by rw [h.rest], ?_⟩
  have hcount : (st.rest.takeWhile p).count Byte.newline = 0 := by
    rw [List.count_eq_zero]
    intro hmem
    have hbreak := List.mem_takeWhile_imp hmem
    rw [hp] at hbreak
    cases hbreak
  refine ⟨?_, h.escapes.trans (List.sublist_append_left _ _), ?_, h.numerals, h.notes, ?_,
    h.line⟩
  · rw [List.append_assoc, List.takeWhile_append_dropWhile, h.whole]
  · rw [List.count_append, hcount, Nat.add_zero, h.lines]
  · rw [h.rest]

theorem advance {byte : UInt8} (h : Stands content c st) (hnext : c.nextIs byte = true)
    (hbyte : byte ≠ Byte.newline) :
    Meets Scan.advance st fun _ st' => Stands content c.skipOne st' := by
  obtain ⟨rest, hrest⟩ := Cursor.nextIs_iff.mp hnext
  refine ⟨_, _, rfl, ?_, h.escapes.trans (List.sublist_append_left _ _), ?_, h.numerals,
    h.notes, ?_, h.line⟩
  · rw [List.append_assoc, List.take_append_drop, h.whole]
  · have htake : st.rest.take 1 = [byte] := by simp [h.rest, hrest]
    rw [htake, List.count_append, List.count_singleton, if_neg (by simpa using hbyte), h.lines,
      Nat.add_zero]
  · rw [h.rest, Cursor.skipOne]

end Stands

theorem Stands.noted {a : α} {issue : Issue} (h : Stands content c st) :
    Meets (do note issue; return a) st
      fun b st' => b = a ∧ Noted content (c.fault issue) st' := by
  refine ⟨a, _, rfl, rfl, h.numerals, ⟨st.taken, st.escaped, st.line, issue⟩, ?_, ?_, ?_, h.escapes,
    h.lines⟩
  · rw [h.notes, List.nil_append]
  · rw [Note.fault, Cursor.fault, h.line]
  · exact ⟨st.rest, h.whole⟩

theorem Stands.note {a : α} {issue : Issue} {good : β → α} {bad : α → Prop}
    (h : Stands content c st) (ha : bad a) :
    Meets (do note issue; return a) st
      (Agrees content good bad (.error (c.fault issue) : Result β)) :=
  h.noted.mono fun _ _ hnoted => ⟨hnoted.1 ▸ ha, hnoted.2⟩

theorem Noted.failed {fault : Fault} {f : Bool → Scan α} {post : α → State → Prop}
    (h : Noted content fault st) (hf : Meets (f true) st post) :
    Meets (Scan.failed >>= f) st post := by
  obtain ⟨p, hnotes, -⟩ := h.single
  change Meets (f (!st.notes.isEmpty)) st post
  rw [hnotes]
  exact hf

theorem Stands.skipSpace (h : Stands content c st) :
    Meets Scan.skipSpace st fun _ st' => Stands content c.skipSpace st' := by
  refine ⟨_, _, rfl, ?_, h.escapes.trans (List.sublist_append_left _ _), ?_, h.numerals,
    h.notes, ?_, ?_⟩
  · rw [List.append_assoc, List.takeWhile_append_dropWhile, h.whole]
  · have hlines := h.lines
    dsimp only
    rw [List.count_append]
    omega
  · rw [Cursor.skipSpace, Cursor.skipSpaceFrom_eq, h.rest]
  · rw [Cursor.skipSpace, Cursor.skipSpaceFrom_eq, h.rest, h.line]

theorem Stands.skipComment (h : Stands content c st) :
    Meets Scan.skipComment st fun _ st' => Stands content c.skipComment st' := by
  refine h.nextIs (by decide) ?_
  rw [Cursor.skipComment]
  split_ifs with hhash
  · exact (h.takeWhile (by decide)).bind fun t st' ht => .pure ht.2
  · exact .pure h

theorem Stands.skipLead (h : Stands content c st) :
    Meets Scan.skipLead st fun _ st' => Stands content c.skipLead st' :=
  h.skipSpace.bind fun _ _ h => h.skipComment.bind fun _ _ h => h.skipSpace

theorem Stands.word (h : Stands content c st) :
    Meets Scan.word st fun t st' =>
      t = (Settings.word c).1 ∧ Stands content (Settings.word c).2 st' :=
  h.takeWhile (by decide)

theorem Stands.skipComma (h : Stands content c st) :
    Meets Scan.skipComma st fun _ st' => Stands content (Settings.skipComma c.skipSpace) st' := by
  refine h.skipSpace.bind fun _ st h => h.nextIs (by decide) ?_
  rw [Settings.skipComma]
  split_ifs with hcomma
  · exact (h.advance hcomma (by decide)).bind fun _ _ h => h.skipSpace
  · exact .pure h

theorem Row.read_append (t : Text) : (Row.read t).taken ++ (Row.read t).rest = t := by
  fun_induction Row.read t with
  | case1 => rfl
  | case2 => rfl
  | case3 => rfl
  | case4 e t row _ ih => exact congrArg (Byte.backslash :: e :: ·) ih
  | case5 b t row _ _ ih => exact congrArg (b :: ·) ih

/-- A string takes no line break but behind a backslash. -/
theorem Row.read_breaks (t : Text) :
    (Row.read t).taken.count Byte.newline = (Row.read t).escaped.count Byte.newline := by
  fun_induction Row.read t with
  | case1 => rfl
  | case2 => rfl
  | case3 => rfl
  | case4 e t row _ ih =>
    have hslash : (Byte.backslash == Byte.newline) = false := rfl
    rw [List.count_cons, List.count_cons, List.count_cons, ih, hslash]
    rfl
  | case5 b t hb _ row ih =>
    rw [List.count_cons, ih, if_neg (by simpa using (not_or.mp hb).2), Nat.add_zero]

theorem Row.read_escapes (t : Text) : (Row.read t).escaped.Sublist (Row.read t).taken := by
  fun_induction Row.read t with
  | case1 => exact List.Sublist.refl _
  | case2 => exact List.Sublist.refl _
  | case3 => exact List.nil_sublist _
  | case4 e t row _ ih => exact (ih.cons_cons e).cons Byte.backslash
  | case5 b t _ _ row ih => exact ih.cons b

theorem stringBody_eq (t : Text) : stringBody t =
    if (Row.read t).rest.head? = some Byte.quote then
      some ((Row.read t).value, (Row.read t).rest.drop 1)
    else none := by
  fun_induction Row.read t with
  | case1 => rfl
  | case2 b t hb =>
    rcases hb with rfl | rfl
    · exact stringBody_quote t
    · exact stringBody_newline t
  | case3 => rfl
  | case4 e t row _ ih =>
    rw [stringBody_escape, ih]
    split_ifs <;> rfl
  | case5 b t hb hslash row ih =>
    obtain ⟨hquote, hbreak⟩ := not_or.mp hb
    rw [stringBody_plain t hquote hbreak hslash, ih]
    split_ifs <;> rfl

/-- The place where a string whose opening quote has been taken ends or breaks off. -/
def stringEnd (c : Cursor) : Cursor := ⟨(Row.read c.rest).rest, c.line⟩

theorem stringValue_eq (c : Cursor) : stringValue c =
    if c.nextIs Byte.quote then
      if (stringEnd c.skipOne).nextIs Byte.quote then
        .ok ((Row.read c.skipOne.rest).value, (stringEnd c.skipOne).skipOne)
      else .error ((stringEnd c.skipOne).fault .unterminatedString)
    else .error (c.fault .expectedString) := by
  obtain ⟨rest, line⟩ := c
  cases rest with
  | nil => rfl
  | cons b rest =>
    simp only [stringValue, stringBody_eq, Cursor.nextIs, Cursor.peek?, Cursor.skipOne, stringEnd,
      List.head?_cons, List.drop_succ_cons, List.drop_zero, beq_iff_eq, Option.some.injEq]
    split_ifs <;> rfl

theorem Stands.stringRow (h : Stands content c st) :
    Meets Scan.stringRow st fun v st' =>
      v = (Row.read c.rest).value ∧ Stands content (stringEnd c) st' := by
  refine ⟨_, _, rfl, by rw [h.rest], ?_, h.escapes.append (Row.read_escapes _), ?_, h.numerals,
    h.notes, by rw [h.rest, stringEnd], h.line⟩
  · rw [List.append_assoc, Row.read_append, h.whole]
  · rw [List.count_append, List.count_append, Row.read_breaks, ← Nat.add_assoc, h.lines,
      Nat.add_assoc]

theorem Stands.string (h : Stands content c st) :
    Meets Scan.string st (Agrees content id (fun _ => True) (stringValue c)) := by
  rw [stringValue_eq]
  refine h.nextIs (by decide) ?_
  by_cases hquote : c.nextIs Byte.quote = true
  · simp only [hquote, ↓reduceIte]
    refine (h.advance hquote (by decide)).bind fun _ st h => h.stringRow.bind ?_
    rintro _ st ⟨rfl, h⟩
    refine h.nextIs (by decide) ?_
    split_ifs with hclosed
    · exact (h.advance hclosed (by decide)).bind fun _ st h => .pure ⟨rfl, h⟩
    · exact h.note trivial
  · simp only [hquote, ↓reduceIte, Bool.false_eq_true]
    exact h.note trivial

theorem digitsValue_lt {digits : Text} (h : ∀ d ∈ digits, Byte.isDigit d = true) :
    digitsValue digits < 10 ^ digits.length := by
  rw [digitsValue_eq_ofDigits]
  have hlt := Nat.ofDigits_lt_base_pow_length (b := 10) (l := digits.reverse.map Byte.digitValue)
    (by decide) ?_
  · simpa using hlt
  · intro d hd
    obtain ⟨b, hb, rfl⟩ := List.mem_map.mp hd
    have hrange := Byte.isDigit_iff.mp (h b (List.mem_reverse.mp hb))
    rw [Byte.digitValue]
    omega

def signedValue (sign digits : Text) : Int :=
  if sign = [Byte.minus] then -(digitsValue digits : Int) else digitsValue digits

theorem isSpace_of_isDigit {d : UInt8} (h : Byte.isDigit d = true) : Byte.isSpace d = false := by
  have hd := Byte.isDigit_iff.mp h
  simp only [Byte.isSpace, Bool.or_eq_false_iff, Bool.and_eq_false_iff, beq_eq_false_iff_ne,
    decide_eq_false_iff_not, UInt8.le_iff_toNat_le]
  refine ⟨?_, .inr ?_⟩
  · rintro rfl
    exact absurd hd.1 (by decide)
  · exact Nat.not_le.mpr (Nat.lt_of_lt_of_le (by decide) hd.1)

theorem conversion_eq_ok {sign digits : Text} (hsign : sign = [] ∨ sign = [Byte.minus])
    (hne : digits ≠ []) (hdigits : ∀ d ∈ digits, Byte.isDigit d = true)
    (hlength : (sign ++ digits).length ≤ 9) :
    conversion (sign ++ digits) = .ok (signedValue sign digits) := by
  have hlt : digitsValue digits < 1000000000 := by
    have hle : digits.length ≤ 9 := by
      rw [List.length_append] at hlength
      omega
    exact lt_of_lt_of_le (digitsValue_lt hdigits) (Nat.pow_le_pow_right (by decide) hle)
  have htake : digits.takeWhile Byte.isDigit = digits := List.takeWhile_eq_self_iff.mpr hdigits
  obtain ⟨d, more, rfl⟩ := List.exists_cons_of_ne_nil hne
  rcases hsign with rfl | rfl
  · have hd := hdigits d List.mem_cons_self
    have hminus : (some d == some Byte.minus) = false := by
      rw [Option.some_beq_some, beq_eq_false_iff_ne]
      rintro rfl
      cases hd
    have hplus : (some d == some Byte.plus) = false := by
      rw [Option.some_beq_some, beq_eq_false_iff_ne]
      rintro rfl
      cases hd
    simp only [conversion, signedValue, List.nil_append, List.dropWhile_cons, isSpace_of_isDigit hd,
      List.head?_cons, hminus, hplus, Bool.or_self, Bool.false_eq_true, ↓reduceIte, htake,
      List.isEmpty_cons, List.nil_eq, List.cons_ne_nil]
    rw [if_neg (by omega)]
  · have hspace : Byte.isSpace Byte.minus = false := rfl
    have hminus : (some Byte.minus == some Byte.minus) = true := rfl
    simp only [conversion, signedValue, List.singleton_append, List.dropWhile_cons, hspace,
      List.head?_cons, hminus, Bool.true_or, Bool.false_eq_true, ↓reduceIte, List.drop_succ_cons,
      List.drop_zero, htake, List.isEmpty_cons]
    rw [if_neg (by omega)]

def signOf (c : Cursor) : Text := if c.nextIs Byte.minus then [Byte.minus] else []

def afterSign (c : Cursor) : Cursor := if c.nextIs Byte.minus then c.skipOne else c

theorem integerValue_eq (c : Cursor) : integerValue c =
    if (afterSign c).rest.takeWhile Byte.isDigit = [] ∨
        9 < (signOf c ++ (afterSign c).rest.takeWhile Byte.isDigit).length then
      .error ((afterSign c).fault .expectedInteger)
    else
      .ok (signedValue (signOf c) ((afterSign c).rest.takeWhile Byte.isDigit),
        ⟨(afterSign c).rest.dropWhile Byte.isDigit, c.line⟩) := by
  rw [integerValue, afterSign, signOf, signedValue]
  by_cases hminus : c.nextIs Byte.minus = true
  · simp [hminus, digits, Cursor.skipOne, Cursor.fault]
  · simp [hminus, digits, Cursor.fault]

theorem Stands.minusSign (h : Stands content c st) :
    Meets Scan.minusSign st fun t st' => t = signOf c ∧ Stands content (afterSign c) st' := by
  refine h.nextIs (by decide) ?_
  rw [signOf, afterSign]
  split_ifs with hminus
  · exact (h.advance hminus (by decide)).bind fun _ _ h => .pure ⟨rfl, h⟩
  · exact .pure ⟨rfl, h⟩

theorem Stands.convert {t : Text} {value : Int} (h : Stands content c st)
    (ht : IsShortNumeral t) (hvalue : conversion t = .ok value) :
    Meets (Scan.convert t) st fun v st' => v = value ∧ Stands content c st' := by
  refine ⟨value, { st with converted := st.converted ++ [t] }, ?_, rfl, h.whole, h.escapes, h.lines,
    ?_, h.notes, h.rest, h.line⟩
  · rw [Scan.convert, hvalue]
  · intro u hu
    rcases List.mem_append.mp hu with hu | hu
    · exact h.numerals u hu
    · exact List.mem_singleton.mp hu ▸ ht

theorem signOf_cases (c : Cursor) : signOf c = [] ∨ signOf c = [Byte.minus] := by
  rw [signOf]
  split_ifs
  · exact .inr rfl
  · exact .inl rfl

theorem afterSign_line (c : Cursor) : (afterSign c).line = c.line := by
  rw [afterSign]
  split_ifs <;> rfl

theorem refused_iff {sign digits : Text} (hsign : sign = [] ∨ sign = [Byte.minus])
    (hdigits : ∀ d ∈ digits, Byte.isDigit d = true) :
    (sign ++ digits = [] ∨ sign ++ digits = [Byte.minus] ∨ 9 < (sign ++ digits).length) ↔
      digits = [] ∨ 9 < (sign ++ digits).length := by
  have hminus : digits ≠ [Byte.minus] := by
    rintro rfl
    exact absurd (hdigits _ List.mem_cons_self) (by decide)
  rcases hsign with rfl | rfl
  · simp [hminus]
  · simp

theorem Stands.integer (h : Stands content c st) :
    Meets Scan.integer st (Agrees content some (· = none) (integerValue c)) := by
  rw [integerValue_eq]
  refine h.minusSign.bind ?_
  rintro _ st ⟨rfl, h⟩
  refine (h.takeWhile (by decide)).bind ?_
  rintro _ st ⟨rfl, h⟩
  have hdigits : ∀ d ∈ (afterSign c).rest.takeWhile Byte.isDigit, Byte.isDigit d = true :=
    fun d hd => List.mem_takeWhile_imp hd
  generalize (afterSign c).rest.takeWhile Byte.isDigit = digits at hdigits ⊢
  have hrefused := refused_iff (signOf_cases c) hdigits
  dsimp only
  by_cases hbad : digits = [] ∨ 9 < (signOf c ++ digits).length
  · rw [if_pos (hrefused.mpr hbad), if_pos hbad]
    exact h.note rfl
  · rw [if_neg (mt hrefused.mp hbad), if_neg hbad]
    obtain ⟨hne, hlength⟩ := not_or.mp hbad
    have hshort : (signOf c ++ digits).length ≤ 9 := Nat.not_lt.mp hlength
    have hvalue := conversion_eq_ok (signOf_cases c) hne hdigits hshort
    refine (h.convert ⟨_, _, rfl, signOf_cases c, hne, hdigits, hshort⟩ hvalue).bind ?_
    rintro _ st ⟨rfl, h⟩
    rw [afterSign_line] at h
    exact .pure ⟨rfl, h⟩

theorem Stands.truth (h : Stands content c st) :
    Meets Scan.truth st (Agrees content some (· = none) (truthValue c)) := by
  refine h.word.bind ?_
  rintro _ st ⟨rfl, h⟩
  unfold truthValue
  dsimp only
  split_ifs
  · exact .pure ⟨rfl, h⟩
  · exact .pure ⟨rfl, h⟩
  · exact h.note rfl

theorem Stands.closeList {found : List Text} (h : Stands content c st)
    (hclose : c.nextIs Byte.closeBracket = true) :
    Meets (Scan.closeList found) st fun a st' => a = found ∧ Stands content c.skipOne st' := by
  refine h.nextIs (by decide) ?_
  rw [if_pos hclose]
  exact (h.advance hclose (by decide)).bind fun _ _ h => .pure ⟨rfl, h⟩

theorem Stands.closeList_atEnd {found : List Text} {good : List Text → List Text}
    (h : Stands content c st) (hend : c.atEnd = true) :
    Meets (Scan.closeList found) st
      (Agrees content good (fun _ => True) (.error (c.fault .expectedArrayEnd))) := by
  have hnext : ¬ c.nextIs Byte.closeBracket = true := by
    intro hclose
    obtain ⟨rest, hrest⟩ := Cursor.nextIs_iff.mp hclose
    rw [Cursor.atEnd, hrest] at hend
    cases hend
  refine h.nextIs (by decide) ?_
  rw [if_neg hnext]
  exact h.note trivial

theorem skipComma_of_close (hclose : c.nextIs Byte.closeBracket = true) :
    Settings.skipComma c.skipSpace = c := by
  obtain ⟨rest, line⟩ := c
  obtain ⟨rest, rfl⟩ := Cursor.nextIs_iff.mp hclose
  rfl

theorem Agrees.cons {r : Result (List Text)} {item : Text} {found all : List Text}
    {bad : List Text → Prop} : Agrees content (found ++ [item] ++ ·) bad r all st →
    Agrees content (found ++ ·) bad
      (match r with
      | .error fault => .error fault
      | .ok (rest, final) => .ok (item :: rest, final)) all st := by
  intro h
  cases r with
  | error fault => exact h
  | ok read => exact ⟨h.1.trans (List.append_assoc _ _ _), h.2⟩

theorem Stands.items {n : Nat} {found : List Text} (h : Stands content c st)
    (hn : c.rest.length < n) :
    Meets (Scan.items n found) st (Agrees content (found ++ ·) (fun _ => True) (allItems c)) := by
  induction n generalizing c st found with
  | zero => omega
  | succ n ih =>
    rw [allItems_eq, itemsRound]
    refine h.atEnd ?_
    by_cases hend : c.atEnd = true
    · simp only [hend, ↓reduceIte]
      exact h.closeList_atEnd hend
    simp only [hend, ↓reduceIte, Bool.false_eq_true]
    refine h.nextIs (by decide) ?_
    by_cases hclose : c.nextIs Byte.closeBracket = true
    · simp only [hclose, ↓reduceIte]
      refine (h.closeList hclose).mono ?_
      rintro _ st ⟨rfl, h⟩
      exact ⟨(List.append_nil _).symm, h⟩
    simp only [hclose, ↓reduceIte, Bool.false_eq_true]
    have hle := (Cursor.skipLead_suffix c).length_le
    refine h.skipLead.bind fun _ st h => h.nextIs (by decide) ?_
    by_cases hquote : c.skipLead.nextIs Byte.quote = true
    · simp only [hquote, ↓reduceIte]
      refine h.string.bind fun item st hitem => ?_
      cases hread : stringValue c.skipLead with
      | error fault =>
        rw [hread] at hitem
        exact hitem.2.failed (.pure ⟨trivial, hitem.2⟩)
      | ok read =>
        obtain ⟨value, after⟩ := read
        rw [hread] at hitem
        obtain ⟨rfl, h⟩ := hitem
        have hlt := afterItem_lt hread
        exact h.failed (h.skipComma.bind fun _ st h =>
          (ih h (by omega)).mono fun _ _ => Agrees.cons)
    simp only [hquote, ↓reduceIte, Bool.false_eq_true]
    refine h.nextIs (by decide) ?_
    by_cases hlead : c.skipLead.nextIs Byte.closeBracket = true
    · simp only [hlead, ↓reduceIte]
      have hlt := skipLead_lt hlead hclose
      refine h.skipComma.bind fun _ st h => ?_
      rw [skipComma_of_close hlead] at h
      exact ih h (by omega)
    · simp only [hlead, ↓reduceIte, Bool.false_eq_true]
      exact h.note trivial

theorem Stands.list (h : Stands content c st) :
    Meets Scan.list st (Agrees content id (fun _ => True) (listValue c)) := by
  rw [listValue_eq]
  refine h.nextIs (by decide) ?_
  by_cases hopen : c.nextIs Byte.openBracket = true
  · simp only [hopen, ↓reduceIte]
    refine (h.advance hopen (by decide)).bind fun _ st h => h.skipSpace.bind fun _ st h => ?_
    change Meets (Scan.items (st.rest.length + 1) []) st _
    exact h.items (by rw [h.rest]; exact Nat.lt_succ_self _)
  · simp only [hopen, ↓reduceIte, Bool.false_eq_true]
    exact h.note trivial

end Bindery.Settings.Scan
