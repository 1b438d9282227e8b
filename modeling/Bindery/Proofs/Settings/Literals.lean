import Bindery.Proofs.Settings.Blanks

/-!
Values as they are written on a line: strings with escapes, lists of strings, numerals and truth
values. Every kind of value is read off what is written for it, and only off that.
-/

set_option autoImplicit false

namespace Bindery.Settings

structure Blanks where
  text : Text
  isSpace : ∀ b ∈ text, Byte.isSpace b = true
  newline_notMem : Byte.newline ∉ text

def Blanks.empty : Blanks := ⟨[], by simp, by simp⟩

theorem Blanks.skipSpace (w : Blanks) {t : Text} (ht : ∀ b ∈ t.head?, Byte.isSpace b = false)
    (line : Nat) : Cursor.skipSpace ⟨w.text ++ t, line⟩ = ⟨t, line⟩ := by
  rw [Cursor.skipSpace_append w.isSpace ht, List.count_eq_zero_of_not_mem w.newline_notMem,
    Nat.add_zero]

inductive Piece where
  | plain (b : UInt8) (hquote : b ≠ Byte.quote) (hbreak : b ≠ Byte.newline)
    (hslash : b ≠ Byte.backslash)
  | escaped (b : UInt8) (hbreak : b ≠ Byte.newline)

namespace Piece

def text : Piece → Text
  | plain b .. => [b]
  | escaped b _ => [Byte.backslash, b]

def value : Piece → UInt8
  | plain b .. => b
  | escaped b _ => unescape b

end Piece

theorem stringBody_pieces (pieces : List Piece) (rest : Text) :
    stringBody (pieces.flatMap Piece.text ++ Byte.quote :: rest) =
      some (pieces.map Piece.value, rest) := by
  induction pieces with
  | nil => exact stringBody_quote rest
  | cons piece pieces ih =>
    rw [List.flatMap_cons, List.append_assoc]
    cases piece with
    | plain b hquote hbreak hslash =>
      rw [Piece.text, List.singleton_append, stringBody_plain _ hquote hbreak hslash, ih]
      rfl
    | escaped b hbreak =>
      rw [Piece.text, List.cons_append, List.singleton_append, stringBody_escape, ih]
      rfl

def quotedPieces (pieces : List Piece) : Text :=
  Byte.quote :: pieces.flatMap Piece.text ++ [Byte.quote]

theorem stringValue_pieces (pieces : List Piece) (rest : Text) (line : Nat) :
    stringValue ⟨quotedPieces pieces ++ rest, line⟩ =
      .ok (pieces.map Piece.value, ⟨rest, line⟩) := by
  have hbody := stringBody_pieces pieces rest
  simp [stringValue, quotedPieces, hbody]

/-- A string of a list with the blanks behind it, and a comma with blanks if there is one. -/
structure Item where
  pieces : List Piece
  after : Blanks
  comma : Option Blanks

namespace Item

def tail (item : Item) : Text :=
  match item.comma with
  | none => item.after.text
  | some w => item.after.text ++ Byte.comma :: w.text

def text (item : Item) : Text := quotedPieces item.pieces ++ item.tail

def value (item : Item) : Text := item.pieces.map Piece.value

theorem skipComma_tail (item : Item) {b : UInt8} (t : Text) (hspace : Byte.isSpace b = false)
    (hcomma : b ≠ Byte.comma) (line : Nat) :
    skipComma (Cursor.skipSpace ⟨item.tail ++ b :: t, line⟩) = ⟨b :: t, line⟩ := by
  have ht : ∀ c ∈ (b :: t).head?, Byte.isSpace c = false := by
    rintro _ ⟨⟩
    exact hspace
  rw [tail]
  cases item.comma with
  | none =>
    dsimp only
    rw [item.after.skipSpace ht, skipComma, if_neg]
    simpa [Cursor.nextIs, Cursor.peek?] using hcomma
  | some w =>
    dsimp only
    rw [List.append_assoc, item.after.skipSpace (by rintro _ ⟨⟩; rfl)]
    exact w.skipSpace ht line

end Item

def listBody (items : List Item) (rest : Text) : Text :=
  items.flatMap Item.text ++ Byte.closeBracket :: rest

theorem listBody_eq_cons (items : List Item) (rest : Text) :
    ∃ b t, listBody items rest = b :: t ∧ Byte.isSpace b = false ∧ b ≠ Byte.comma := by
  cases items with
  | nil => exact ⟨_, _, rfl, rfl, by decide⟩
  | cons item items => exact ⟨_, _, rfl, rfl, by decide⟩

theorem allItems_listBody (items : List Item) (rest : Text) (line : Nat) :
    allItems ⟨listBody items rest, line⟩ = .ok (items.map Item.value, ⟨rest, line⟩) := by
  induction items with
  | nil => rw [allItems_eq]; rfl
  | cons item items ih =>
    obtain ⟨b, t, hbody, hspace, hcomma⟩ := listBody_eq_cons items rest
    have htext : listBody (item :: items) rest =
        quotedPieces item.pieces ++ (item.tail ++ listBody items rest) := by
      simp [listBody, Item.text]
    have hlead : Cursor.skipLead ⟨listBody (item :: items) rest, line⟩ =
        ⟨listBody (item :: items) rest, line⟩ := rfl
    have hclose : Cursor.nextIs ⟨listBody (item :: items) rest, line⟩ Byte.closeBracket = false :=
      rfl
    have hquote : Cursor.nextIs ⟨listBody (item :: items) rest, line⟩ Byte.quote = true := rfl
    have hend : Cursor.atEnd ⟨listBody (item :: items) rest, line⟩ = false := rfl
    have hvalue := stringValue_pieces item.pieces (item.tail ++ listBody items rest) line
    have hnext := item.skipComma_tail t hspace hcomma line
    rw [← hbody] at hnext
    rw [← htext] at hvalue
    rw [allItems_eq, itemsRound, hlead, hend, hclose, hquote, hvalue]
    dsimp only
    rw [hnext, ih]
    rfl

structure Digits where
  text : Text
  ne_nil : text ≠ []
  isDigit : ∀ d ∈ text, Byte.isDigit d = true

inductive Literal where
  | text (pieces : List Piece)
  | list (lead : Blanks) (items : List Item)
  | integer (negative : Bool) (digits : Digits)
  | truth (value : Bool)

namespace Literal

def sign (negative : Bool) : Text := if negative then [Byte.minus] else []

def number (negative : Bool) (digits : Text) : Int :=
  if negative then -(digitsValue digits : Int) else digitsValue digits

def spelling : Literal → Text
  | text pieces => quotedPieces pieces
  | list lead items => Byte.openBracket :: (lead.text ++ listBody items [])
  | integer negative digits => sign negative ++ digits.text
  | truth true => "true"
  | truth false => "false"

/-- What is read where a value of the kind is wanted. A numeral has at most nine characters. -/
def value? : (kind : Kind) → Literal → Option kind.Value
  | .text, text pieces => some (pieces.map Piece.value)
  | .list, list _ items => some (items.map Item.value)
  | .integer, integer negative digits =>
    if (sign negative ++ digits.text).length ≤ 9 then some (number negative digits.text) else none
  | .truth, truth value => some value
  | _, _ => none

def kind : Literal → Kind
  | text _ => .text
  | list _ _ => .list
  | integer _ _ => .integer
  | truth _ => .truth

theorem value?_of_ne {lit : Literal} {kind : Kind} (h : lit.kind ≠ kind) :
    lit.value? kind = none := by
  cases kind <;> cases lit <;> first | rfl | exact absurd rfl h

end Literal

def Kind.starts : Kind → UInt8 → Bool
  | text, b => b == Byte.quote
  | list, b => b == Byte.openBracket
  | integer, b => b == Byte.minus || Byte.isDigit b
  | truth, b => b == 116 || b == 102

theorem Literal.spelling_eq_cons (lit : Literal) :
    ∃ b t, lit.spelling = b :: t ∧ lit.kind.starts b = true := by
  cases lit with
  | text pieces => exact ⟨_, _, rfl, rfl⟩
  | list lead items => exact ⟨_, _, rfl, rfl⟩
  | integer negative digits =>
    cases negative with
    | true => exact ⟨_, _, rfl, rfl⟩
    | false =>
      obtain ⟨d, more, hdigits⟩ := List.exists_cons_of_ne_nil digits.ne_nil
      have hd := digits.isDigit d (by simp [hdigits])
      exact ⟨d, more, hdigits, by simp [kind, Kind.starts, hd]⟩
  | truth value =>
    cases value with
    | true => exact ⟨_, _, rfl, rfl⟩
    | false => exact ⟨_, _, rfl, rfl⟩

namespace Kind

theorem starts_ne_blank {kind : Kind} {b : UInt8} (h : kind.starts b = true) :
    b ≠ Byte.space ∧ b ≠ Byte.tab := by
  constructor
  · rintro rfl
    cases kind <;> cases h
  · rintro rfl
    cases kind <;> cases h

theorem eq_of_starts {kind other : Kind} {b : UInt8} (h : kind.starts b = true)
    (hother : other.starts b = true) : kind = other := by
  have hdigit : Byte.isDigit b = true →
      b ≠ Byte.quote ∧ b ≠ Byte.openBracket ∧ b ≠ 116 ∧ b ≠ 102 := by
    intro hb
    refine ⟨?_, ?_, ?_, ?_⟩ <;> rintro rfl <;> cases hb
  cases kind <;> cases other <;>
    simp only [starts, Bool.or_eq_true, beq_iff_eq] at h hother <;> grind

theorem read_of_not_starts {kind : Kind} {b : UInt8} (h : kind.starts b = false) (t : Text)
    (line : Nat) : ∃ fault, kind.read ⟨b :: t, line⟩ = .error fault := by
  cases kind with
  | text =>
    have hquote : b ≠ Byte.quote := by simpa [starts] using h
    exact ⟨_, if_neg hquote⟩
  | list =>
    have hopen : ¬ Cursor.nextIs ⟨b :: t, line⟩ Byte.openBracket = true := by
      simpa [starts, Cursor.nextIs, Cursor.peek?] using h
    exact ⟨_, if_neg hopen⟩
  | integer =>
    obtain ⟨hminus, hdigit⟩ : b ≠ Byte.minus ∧ Byte.isDigit b = false := by
      simpa [starts] using h
    have hnext : Cursor.nextIs ⟨b :: t, line⟩ Byte.minus = false := by
      simpa [Cursor.nextIs, Cursor.peek?] using hminus
    exact ⟨Cursor.fault ⟨b :: t, line⟩ .expectedInteger, by
      simp [read, integerValue, hnext, digits, hdigit]⟩
  | truth =>
    obtain ⟨htrue, hfalse⟩ : b ≠ 116 ∧ b ≠ 102 := by simpa [starts] using h
    refine ⟨Cursor.fault ⟨b :: t, line⟩ .expectedTruth, ?_⟩
    have hword : ∀ c u, c ≠ b → (word ⟨b :: t, line⟩).1 ≠ c :: u := by
      intro c u hc heq
      rw [word, List.takeWhile_cons] at heq
      split_ifs at heq
      exact hc (List.cons.inj heq).1.symm
    have hnotTrue : (word ⟨b :: t, line⟩).1 ≠ ascii "true" := hword 116 _ htrue.symm
    have hnotFalse : (word ⟨b :: t, line⟩).1 ≠ ascii "false" := hword 102 _ hfalse.symm
    simp only [read, truthValue]
    rw [if_neg hnotTrue, if_neg hnotFalse]

section
variable {rest : Text} (hrest : ∀ b ∈ rest.head?, isWordByte b = false) (line : Nat)

include hrest in
theorem integerValue_literal (negative : Bool) (digits : Digits) :
    integerValue ⟨(Literal.integer negative digits).spelling ++ rest, line⟩ =
      if (Literal.sign negative ++ digits.text).length ≤ 9 then
        .ok (Literal.number negative digits.text, ⟨rest, line⟩)
      else .error ⟨line, .expectedInteger⟩ := by
  have hstop : ∀ b ∈ rest.head?, Byte.isDigit b = false := by
    intro b hb
    have hword := hrest b hb
    simp only [isWordByte, Byte.isAlphanumeric, Bool.or_eq_false_iff] at hword
    exact hword.1.1.2
  have hdigits : Settings.digits (digits.text ++ rest) = (digits.text, rest) := by
    rw [Settings.digits, takeWhile_append_stop digits.isDigit hstop,
      dropWhile_append_stop digits.isDigit hstop]
  have hnext : Cursor.nextIs ⟨(Literal.integer negative digits).spelling ++ rest, line⟩
      Byte.minus = negative := by
    cases negative with
    | true => rfl
    | false =>
      obtain ⟨d, more, htext⟩ := List.exists_cons_of_ne_nil digits.ne_nil
      have hd : d ≠ Byte.minus := by
        rintro rfl
        exact absurd (digits.isDigit _ (htext ▸ List.mem_cons_self)) (by decide)
      simpa [Literal.spelling, Literal.sign, htext, Cursor.nextIs, Cursor.peek?] using hd
  have hdrop : (if negative then ((Literal.integer negative digits).spelling ++ rest).drop 1
      else (Literal.integer negative digits).spelling ++ rest) = digits.text ++ rest := by
    cases negative <;> rfl
  have hlength : (Literal.sign negative ++ digits.text).length =
      digits.text.length + if negative then 1 else 0 := by
    cases negative <;> simp [Literal.sign]
  simp only [integerValue, hnext, hdrop, hdigits, hlength, List.isEmpty_iff, Bool.or_eq_true,
    decide_eq_true_eq, digits.ne_nil, false_or, Literal.number]
  split_ifs <;> first | rfl | omega

include hrest in
theorem truthValue_literal (value : Bool) :
    truthValue ⟨(Literal.truth value).spelling ++ rest, line⟩ = .ok (value, ⟨rest, line⟩) := by
  cases value with
  | true =>
    rw [truthValue, word_append (List.all_eq_true.mp (by decide)) hrest]
    rfl
  | false =>
    rw [truthValue, word_append (List.all_eq_true.mp (by decide)) hrest]
    rfl

include hrest in
theorem read_literal (kind : Kind) (lit : Literal) :
    match lit.value? kind with
    | some v => kind.read ⟨lit.spelling ++ rest, line⟩ = .ok (v, ⟨rest, line⟩)
    | none => ∃ fault, kind.read ⟨lit.spelling ++ rest, line⟩ = .error fault := by
  by_cases hkind : lit.kind = kind
  · subst hkind
    cases lit with
    | text pieces => exact stringValue_pieces pieces rest line
    | list lead items =>
      have hspelling : (Literal.list lead items).spelling ++ rest =
          Byte.openBracket :: (lead.text ++ listBody items rest) := by
        simp [Literal.spelling, listBody]
      obtain ⟨b, t, hbody, hspace, -⟩ := listBody_eq_cons items rest
      have hhead : ∀ c ∈ (listBody items rest).head?, Byte.isSpace c = false := by
        rw [hbody]
        rintro _ ⟨⟩
        exact hspace
      have hskip : Cursor.skipSpace (Cursor.skipOne
          ⟨Byte.openBracket :: (lead.text ++ listBody items rest), line⟩) =
            ⟨listBody items rest, line⟩ := lead.skipSpace hhead line
      have hopen : Cursor.nextIs ⟨Byte.openBracket :: (lead.text ++ listBody items rest), line⟩
          Byte.openBracket = true := rfl
      dsimp only [Literal.value?, Literal.kind, read]
      rw [hspelling, listValue_eq, if_pos hopen, hskip]
      exact allItems_listBody items rest line
    | integer negative digits =>
      have hread := integerValue_literal hrest line negative digits
      by_cases hshort : (Literal.sign negative ++ digits.text).length ≤ 9
      · rw [if_pos hshort] at hread
        simp only [Literal.value?, Literal.kind, hshort, ↓reduceIte]
        exact hread
      · rw [if_neg hshort] at hread
        simp only [Literal.value?, Literal.kind, hshort, ↓reduceIte]
        exact ⟨_, hread⟩
    | truth value => exact truthValue_literal hrest line value
  · rw [Literal.value?_of_ne hkind]
    obtain ⟨b, t, hspelling, hstarts⟩ := lit.spelling_eq_cons
    rw [hspelling]
    exact read_of_not_starts (Bool.eq_false_iff.mpr fun h => hkind (eq_of_starts hstarts h)) _ line

end

end Kind

end Bindery.Settings
