import Bindery.Proofs.Json.Cursor
import Bindery.Proofs.Json.Strings

/-!
A cursor follows the readers of strings and numbers: from the place where some bytes are to come it
comes to what the reader of these bytes comes to, and stands where the rest is to come. Nothing is
taken past the end on the way, and the rounds of every loop suffice.
-/

set_option autoImplicit false

namespace Bindery

namespace Location

theorem after_concat (s : Text) (c : UInt8) : after (s ++ [c]) = (after s).step c := by
  simp [after]

theorem after_offset (s : Text) : (after s).offset = s.length := by
  induction s using List.reverseRecOn with
  | nil => rfl
  | append_singleton s c ih =>
    rw [after_concat, step]
    split_ifs <;> simp [ih]

theorem after_line (s : Text) : (after s).line = 1 + s.count Byte.newline := by
  induction s using List.reverseRecOn with
  | nil => rfl
  | append_singleton s c ih =>
    rw [after_concat, step, List.count_append]
    split_ifs with hc
    · simp [ih, hc, Nat.add_assoc]
    · simp [ih, hc]

theorem after_column (s : Text) :
    (after s).column = 1 + (s.rtakeWhile (· != Byte.newline)).length := by
  induction s using List.reverseRecOn with
  | nil => rfl
  | append_singleton s c ih =>
    rw [after_concat, step]
    split_ifs with hc
    · rw [List.rtakeWhile_concat_neg _ _ _ (by simp [hc])]
      rfl
    · rw [List.rtakeWhile_concat_pos _ _ _ (by simpa using hc)]
      simp [ih, Nat.add_assoc]

end Location

namespace Json.Cursor

variable {text : Text} {α β : Type}

def placeOf (text rest : Text) : Location :=
  Location.after (text.take (text.length - rest.length))

theorem placeOf_offset {rest : Text} : (placeOf text rest).offset = text.length - rest.length := by
  rw [placeOf, Location.after_offset, List.length_take]
  omega

theorem drop_placeOf {rest : Text} (h : rest <:+ text) :
    text.drop (placeOf text rest).offset = rest := by
  rw [placeOf_offset]
  exact (List.suffix_iff_eq_drop.mp h).symm

theorem getElem?_placeOf {rest : Text} (h : rest <:+ text) :
    text[(placeOf text rest).offset]? = rest.head? := by
  rw [← List.head?_drop, drop_placeOf h]

theorem placeOf_self : placeOf text text = Location.start := by
  simp [placeOf, Location.after]

theorem placeOf_cons {c : UInt8} {rest : Text} (h : c :: rest <:+ text) :
    placeOf text rest = (placeOf text (c :: rest)).step c := by
  obtain ⟨before, rfl⟩ := h
  have hrest : (before ++ c :: rest).length - rest.length = before.length + 1 := by simp; omega
  have hcons : (before ++ c :: rest).length - (c :: rest).length = before.length := by simp
  rw [placeOf, placeOf, hrest, hcons, ← Location.after_concat]
  simp [List.take_append, List.take_of_length_le]

/-- The outcome of a reader of the rest, as a cursor shows it. -/
def outcome (text : Text) : Read α → Except Halt (α × Location)
  | .ok (a, rest) => .ok (a, placeOf text rest)
  | .error stop => .error (.failed (stop.error text))

def left : Read α → Text
  | .ok (_, rest) => rest
  | .error stop => stop.rest

/-- From the place where `s` is to come, the cursor comes to the same as the reader of `s` has come
to, and what is left is a part of `s`. -/
structure Follows (text : Text) (scan : Scan α) (s : Text) (r : Read α) : Prop where
  same : scan (placeOf text s) = outcome text r
  within : left r <:+ s

namespace Follows

variable {scan : Scan α} {f : α → Scan β} {s rest : Text} {a : α} {r : Read β}

theorem pure (a : α) (s : Text) : Follows text (Pure.pure a) s (.ok (a, s)) :=
  ⟨rfl, List.suffix_refl s⟩

theorem fail (fault : Fault) (s : Text) :
    Follows text (Cursor.fail fault : Scan α) s (.error ⟨fault, s⟩) :=
  ⟨rfl, List.suffix_refl s⟩

theorem bind (h : Follows text scan s (.ok (a, rest))) (hf : Follows text (f a) rest r) :
    Follows text (scan >>= f) s r := by
  refine ⟨?_, hf.within.trans h.within⟩
  have hscan : scan (placeOf text s) = .ok (a, placeOf text rest) := h.same
  change (scan (placeOf text s) >>= fun p => f p.1 p.2) = _
  rw [hscan]
  exact hf.same

theorem bind_error {stop : Stop} (h : Follows text scan s (.error stop)) :
    Follows text (scan >>= f) s (.error stop) := by
  refine ⟨?_, h.within⟩
  have hscan : scan (placeOf text s) = .error (.failed (stop.error text)) := h.same
  change (scan (placeOf text s) >>= fun p => f p.1 p.2) = _
  rw [hscan]
  rfl

theorem atEnd (h : s <:+ text) : Follows text (Cursor.atEnd text) s (.ok (s.isEmpty, s)) := by
  refine ⟨?_, List.suffix_refl s⟩
  have hle := h.length_le
  have hend : decide (text.length ≤ (placeOf text s).offset) = s.isEmpty := by
    cases s with
    | nil => simp [placeOf_offset]
    | cons c s =>
      rw [List.length_cons] at hle
      simp [placeOf_offset]
      omega
  simp only [Cursor.atEnd, hend, outcome]

theorem peek (h : s <:+ text) : Follows text (Cursor.peek text) s (.ok (s.headD 0, s)) := by
  refine ⟨?_, List.suffix_refl s⟩
  rw [Cursor.peek, List.getD_eq_getElem?_getD, getElem?_placeOf h]
  cases s <;> rfl

theorem advance {c : UInt8} (h : c :: s <:+ text) :
    Follows text (Cursor.advance text) (c :: s) (.ok (c, s)) := by
  refine ⟨?_, List.suffix_cons c s⟩
  have hbyte : text[(placeOf text (c :: s)).offset]? = some c := getElem?_placeOf h
  simp only [Cursor.advance, hbyte, ← placeOf_cons h, outcome]

/-- The reader goes on from what it has read, or stops where that has stopped. -/
theorem bind_cases {first : Read α} (h : Follows text scan s first)
    (herror : ∀ stop, first = .error stop → r = .error stop)
    (hok : ∀ a rest, first = .ok (a, rest) → rest <:+ s → Follows text (f a) rest r) :
    Follows text (scan >>= f) s r := by
  cases first with
  | error stop =>
    rw [herror stop rfl]
    exact h.bind_error
  | ok result =>
    obtain ⟨a, rest⟩ := result
    exact h.bind (hok a rest rfl h.within)

theorem atEnd_nil {first second : Scan β} (h : Follows text first [] r) :
    Follows text (Cursor.atEnd text >>= fun b => if b = true then first else second) [] r :=
  (atEnd (List.nil_suffix)).bind h

theorem atEnd_cons {c : UInt8} {first second : Scan β} (hs : c :: s <:+ text)
    (h : Follows text second (c :: s) r) :
    Follows text (Cursor.atEnd text >>= fun b => if b = true then first else second) (c :: s) r :=
  (atEnd hs).bind h

theorem advance_bind {f : UInt8 → Scan β} {c : UInt8} (hs : c :: s <:+ text)
    (h : Follows text (f c) s r) : Follows text (Cursor.advance text >>= f) (c :: s) r :=
  (advance hs).bind h

theorem peek_bind {f : UInt8 → Scan β} (hs : s <:+ text) (h : Follows text (f (s.headD 0)) s r) :
    Follows text (Cursor.peek text >>= f) s r :=
  (peek hs).bind h

end Follows

theorem suffix_of_cons {c : UInt8} {s : Text} (h : c :: s <:+ text) : s <:+ text :=
  (List.suffix_cons c s).trans h

theorem skipBlank_suffix (s : Text) : skipBlank s <:+ s := List.dropWhile_suffix _

/-- Every round takes a byte, so the rounds last to the end of the text. -/
theorem follows_skipBlanks {rounds : Nat} {s : Text} (hs : s <:+ text) (hr : s.length < rounds) :
    Follows text (skipBlanks text rounds) s (.ok ((), skipBlank s)) := by
  induction rounds generalizing s with
  | zero => omega
  | succ rounds ih =>
    rw [skipBlanks]
    cases s with
    | nil => exact .atEnd_nil (.pure () [])
    | cons c s =>
      refine .atEnd_cons hs (.peek_bind hs ?_)
      rw [List.headD_cons]
      by_cases hc : isBlank c = true
      · rw [if_pos hc, skipBlank, List.dropWhile_cons_of_pos hc]
        exact .advance_bind hs (ih (suffix_of_cons hs) (by simp at hr; omega))
      · rw [if_neg hc, skipBlank, List.dropWhile_cons_of_neg hc]
        exact .pure () (c :: s)

theorem Follows.skip_bind {f : Unit → Scan β} {s : Text} {r : Read β} (hs : s <:+ text)
    (h : Follows text (f ()) (skipBlank s) r) : Follows text (skip text >>= f) s r :=
  (follows_skipBlanks hs (Nat.lt_succ_of_le hs.length_le)).bind h

def hexRead : Except Text (Nat × Text) → Read (Option Nat)
  | .ok (n, rest) => .ok (some n, rest)
  | .error rest => .ok (none, rest)

theorem follows_hexDigits (count acc : Nat) {s : Text} (hs : s <:+ text) :
    Follows text (hexDigits text count acc) s (hexRead (Json.hexDigits count acc s)) := by
  induction count generalizing acc s with
  | zero => exact .pure (some acc) s
  | succ count ih =>
    rw [hexDigits]
    cases s with
    | nil => exact .atEnd_nil (.pure none [])
    | cons c s =>
      refine .atEnd_cons hs (.advance_bind hs ?_)
      rw [Json.hexDigits]
      cases hexValue? c with
      | some d => exact ih _ (suffix_of_cons hs)
      | none => exact .pure none s

theorem follows_lowSurrogate (high : Nat) {s : Text} (hs : s <:+ text) :
    Follows text (lowSurrogate text high) s (Json.lowSurrogate high s) := by
  refine .peek_bind hs ?_
  cases s with
  | nil => exact .fail _ []
  | cons b s =>
    rw [List.headD_cons]
    by_cases hb : b = 92
    · subst hb
      have hs' := suffix_of_cons hs
      refine .advance_bind hs (.peek_bind hs' ?_)
      cases s with
      | nil => exact .fail _ []
      | cons u s =>
        rw [List.headD_cons]
        by_cases hu : u = 117
        · subst hu
          refine .advance_bind hs' ?_
          have hdigits := follows_hexDigits 4 0 (suffix_of_cons hs')
          simp only [Json.lowSurrogate]
          cases hread : Json.hexDigits 4 0 s with
          | error rest =>
            rw [hread] at hdigits
            exact hdigits.bind (.fail _ rest)
          | ok result =>
            obtain ⟨low, rest⟩ := result
            rw [hread] at hdigits
            refine hdigits.bind ?_
            dsimp only
            split_ifs with hlow
            · exact .pure _ rest
            · exact .fail _ rest
        · have hread : Json.lowSurrogate high (92 :: u :: s) =
              .error ⟨.unpairedSurrogate, u :: s⟩ := by
            simp [Json.lowSurrogate, hu]
          rw [if_neg hu, hread]
          exact .fail _ (u :: s)
    · have hread : Json.lowSurrogate high (b :: s) = .error ⟨.unpairedSurrogate, b :: s⟩ := by
        simp [Json.lowSurrogate, hb]
      rw [if_neg hb, hread]
      exact .fail _ (b :: s)

theorem follows_unicodeEscape {s : Text} (hs : s <:+ text) :
    Follows text (unicodeEscape text) s (Json.unicodeEscape s) := by
  have hdigits := follows_hexDigits 4 0 hs
  unfold Json.unicodeEscape
  cases hread : Json.hexDigits 4 0 s with
  | error rest =>
    rw [hread] at hdigits
    exact hdigits.bind (.fail _ rest)
  | ok result =>
    obtain ⟨cp, rest⟩ := result
    rw [hread] at hdigits
    have hrest : rest <:+ s := hdigits.within
    refine hdigits.bind ?_
    dsimp only
    split_ifs with hhigh hlow
    · exact follows_lowSurrogate cp (hrest.trans hs)
    · exact .fail _ rest
    · exact .pure _ rest

theorem follows_escape {s : Text} (hs : s <:+ text) :
    Follows text (escape text) s (Json.escape s) := by
  cases s with
  | nil => exact .atEnd_nil (.fail _ [])
  | cons c s =>
    refine .atEnd_cons hs (.advance_bind hs ?_)
    rw [Json.escape]
    split_ifs with hu
    · exact follows_unicodeEscape (suffix_of_cons hs)
    · cases simpleEscape? c with
      | some d => exact .pure [d] s
      | none => exact .fail _ s

theorem follows_stringItem {s : Text} (hs : s <:+ text) :
    Follows text (stringItem text) s (Json.stringItem s) := by
  cases s with
  | nil => exact .atEnd_nil (.fail _ [])
  | cons c s =>
    refine .atEnd_cons hs (.advance_bind hs ?_)
    rw [Json.stringItem]
    split_ifs with hquote hcontrol hescape
    · exact .pure none s
    · exact .fail _ s
    · refine (follows_escape (suffix_of_cons hs)).bind_cases
        (fun stop hread => by simp only [hread]) fun bytes rest hread _ => ?_
      rw [hread]
      exact .pure (some bytes) rest
    · exact .pure (some [c]) s

theorem stringItem_shorter {s rest : Text} {bytes : Option Text}
    (h : Json.stringItem s = .ok (bytes, rest)) : rest.length < s.length := by
  cases bytes with
  | none =>
    rw [stringItem_eq_none_iff.mp h]
    simp
  | some bytes =>
    obtain ⟨src, hsrc, rfl⟩ := stringItem_sound h
    have hpos := character_length_pos hsrc
    simp
    omega

theorem follows_stringBody {rounds fuel : Nat} {s : Text} (hs : s <:+ text)
    (hr : s.length < rounds) (hf : s.length < fuel) :
    Follows text (stringBody text rounds) s (Json.stringBody fuel s) := by
  induction rounds generalizing fuel s with
  | zero => omega
  | succ rounds ih =>
    cases fuel with
    | zero => omega
    | succ fuel =>
      rw [stringBody, Json.stringBody]
      refine (follows_stringItem hs).bind_cases (fun stop hread => by simp only [hread])
        fun found rest hread hrest => ?_
      have hshorter := stringItem_shorter hread
      rw [hread]
      cases found with
      | none => exact .pure [] rest
      | some bytes =>
        refine (ih (hrest.trans hs) (show rest.length < rounds by omega)
          (show rest.length < fuel by omega)).bind_cases (fun stop hread => by simp only [hread])
          fun more rest hread _ => ?_
        simp only [hread]
        exact .pure (bytes ++ more) rest

theorem follows_string {fuel : Nat} {c : UInt8} {s : Text} (hs : c :: s <:+ text)
    (hf : s.length < fuel) : Follows text (string text) (c :: s) (Json.stringBody fuel s) := by
  have hs' := suffix_of_cons hs
  exact .advance_bind hs (follows_stringBody hs' (Nat.lt_succ_of_le hs'.length_le) hf)

theorem follows_digitRow {rounds : Nat} {s : Text} (hs : s <:+ text) (hr : s.length < rounds) :
    Follows text (digitRow text rounds) s (.ok (Json.digitRow s)) := by
  induction rounds generalizing s with
  | zero => omega
  | succ rounds ih =>
    rw [digitRow]
    cases s with
    | nil => exact .atEnd_nil (.pure [] [])
    | cons c s =>
      refine .atEnd_cons hs (.peek_bind hs ?_)
      rw [List.headD_cons]
      by_cases hc : Byte.isDigit c = true
      · rw [if_pos hc]
        have hmore := ih (suffix_of_cons hs) (by simp at hr; omega)
        simp only [Json.digitRow, List.takeWhile_cons_of_pos hc, List.dropWhile_cons_of_pos hc]
        exact .advance_bind hs (hmore.bind (.pure _ _))
      · rw [if_neg hc]
        simp only [Json.digitRow, List.takeWhile_cons_of_neg hc, List.dropWhile_cons_of_neg hc]
        exact .pure [] (c :: s)

theorem follows_digits {s : Text} (hs : s <:+ text) :
    Follows text (digitRow text (text.length + 1)) s (.ok (Json.digitRow s)) :=
  follows_digitRow hs (Nat.lt_succ_of_le hs.length_le)

theorem follows_digitsOr (fault : Fault) {s : Text} (hs : s <:+ text) :
    Follows text (digitsOr text fault) s (Json.digitsOr fault s) := by
  cases s with
  | nil => exact .atEnd_nil (.fail fault [])
  | cons c s =>
    refine .atEnd_cons hs (.peek_bind hs ?_)
    have hdigits := follows_digits hs
    rw [List.headD_cons]
    by_cases hc : Byte.isDigit c = true
    · rw [if_pos hc]
      simp only [Json.digitsOr, Json.digitRow, List.takeWhile_cons_of_pos hc] at hdigits ⊢
      exact hdigits
    · rw [if_neg hc]
      simp only [Json.digitsOr, Json.digitRow, List.takeWhile_cons_of_neg hc,
        List.dropWhile_cons_of_neg hc]
      exact .fail fault (c :: s)

theorem follows_wholePart {s : Text} (hs : s <:+ text) :
    Follows text (wholePart text) s (Json.wholePart s) := by
  cases s with
  | nil => exact .atEnd_nil (.fail _ [])
  | cons c s =>
    refine .atEnd_cons hs (.peek_bind hs ?_)
    rw [List.headD_cons]
    unfold Json.wholePart
    dsimp only
    split_ifs with hdigit hzero
    · exact .fail _ (c :: s)
    · refine .advance_bind hs ?_
      cases s with
      | nil => exact .atEnd_nil (.pure [c] [])
      | cons d s =>
        have hs' := suffix_of_cons hs
        refine .atEnd_cons hs' (.peek_bind hs' ?_)
        rw [List.headD_cons]
        dsimp only
        split_ifs with hd
        · exact .fail _ (d :: s)
        · exact .pure [c] (d :: s)
    · have hc : Byte.isDigit c = true := by simpa using hdigit
      have hdigits := follows_digits hs
      simp only [Json.digitRow, List.takeWhile_cons_of_pos hc, List.dropWhile_cons_of_pos hc]
        at hdigits ⊢
      exact hdigits

theorem follows_fractionPart {s : Text} (hs : s <:+ text) :
    Follows text (fractionPart text) s (Json.fractionPart s) := by
  cases s with
  | nil => exact .atEnd_nil (.pure none [])
  | cons c s =>
    refine .atEnd_cons hs (.peek_bind hs ?_)
    rw [List.headD_cons]
    by_cases hc : c = 46
    · subst hc
      refine .advance_bind hs ?_
      rw [Json.fractionPart]
      refine (follows_digitsOr _ (suffix_of_cons hs)).bind_cases
        (fun stop hread => by simp only [hread]) fun ds rest hread _ => ?_
      rw [hread]
      exact .pure (some ds) rest
    · have hread : Json.fractionPart (c :: s) = .ok (none, c :: s) := by
        simp [Json.fractionPart, hc]
      rw [if_neg hc, hread]
      exact .pure none (c :: s)

theorem follows_exponentSign {s : Text} (hs : s <:+ text) :
    Follows text (exponentSign text) s (.ok (Json.exponentSign s)) := by
  cases s with
  | nil => exact .atEnd_nil (.pure false [])
  | cons c s =>
    refine .atEnd_cons hs (.peek_bind hs ?_)
    rw [List.headD_cons]
    by_cases hplus : c = 43
    · subst hplus
      exact .advance_bind hs (.pure false s)
    · by_cases hminus : c = 45
      · subst hminus
        exact .advance_bind hs (.pure true s)
      · have hread : Json.exponentSign (c :: s) = (false, c :: s) := by
          simp [Json.exponentSign, hplus, hminus]
        rw [if_neg (by simp [hplus, hminus]), hread]
        exact .pure false (c :: s)

theorem follows_exponentPart {s : Text} (hs : s <:+ text) :
    Follows text (exponentPart text) s (Json.exponentPart s) := by
  cases s with
  | nil => exact .atEnd_nil (.pure none [])
  | cons c s =>
    refine .atEnd_cons hs (.peek_bind hs ?_)
    rw [List.headD_cons, Json.exponentPart]
    split_ifs with he
    · have hs' := suffix_of_cons hs
      have hsign := follows_exponentSign hs'
      have hrest : (Json.exponentSign s).2 <:+ s := hsign.within
      refine .advance_bind hs (hsign.bind ?_)
      refine (follows_digitsOr _ (hrest.trans hs')).bind_cases
        (fun stop hread => by simp only [hread]) fun ds rest hread _ => ?_
      rw [hread]
      exact .pure _ rest
    · exact .pure none (c :: s)

theorem follows_minusSign {s : Text} (hs : s <:+ text) :
    Follows text (minusSign text) s (.ok (Json.minusSign s)) := by
  refine .peek_bind hs ?_
  cases s with
  | nil => exact .pure false []
  | cons c s =>
    rw [List.headD_cons]
    by_cases hc : c = 45
    · subst hc
      exact .advance_bind hs (.pure true s)
    · have hread : Json.minusSign (c :: s) = (false, c :: s) := by simp [Json.minusSign, hc]
      rw [if_neg hc, hread]
      exact .pure false (c :: s)

theorem follows_numeral {s : Text} (hs : s <:+ text) :
    Follows text (numeral text) s (Json.numeral s) := by
  have hsign := follows_minusSign hs
  have hafter : (Json.minusSign s).2 <:+ text := List.IsSuffix.trans hsign.within hs
  refine hsign.bind ?_
  rw [Json.numeral]
  refine (follows_wholePart hafter).bind_cases (fun stop hread => by simp only [hread])
    fun whole rest hread hrest => ?_
  simp only [hread]
  have hs := hrest.trans hafter
  refine (follows_fractionPart hs).bind_cases (fun stop hread => by simp only [hread])
    fun fraction rest hread hrest => ?_
  simp only [hread]
  refine (follows_exponentPart (hrest.trans hs)).bind_cases (fun stop hread => by simp only [hread])
    fun exponent rest hread hrest => ?_
  simp only [hread]
  exact .pure _ rest

end Json.Cursor

end Bindery
