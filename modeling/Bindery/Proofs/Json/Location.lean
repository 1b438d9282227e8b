import Bindery.Proofs.Json.Following
import Bindery.Proofs.Json.Language

/-!
Where errors are. Reading with a cursor comes to what reading from the rest of the text comes to,
so a cursor never runs past the end and no loop goes round too often; and the place it has counted
up to is told by the bytes before it: their number, the line breaks among them, and the bytes since
the last of these.
-/

set_option autoImplicit false

namespace Bindery.Json

namespace Cursor

variable {text : Text}

theorem isPrefixOf_iff_after? {word s : Text} :
    word.isPrefixOf s = true ↔ ∃ rest, Text.after? word s = some rest := by
  rw [List.isPrefixOf_iff_prefix]
  simp only [after?_eq_some_iff]
  exact exists_congr fun rest => eq_comm

theorem follows_comes (word : Text) {s : Text} (hs : s <:+ text) :
    Follows text (comes text word) s (.ok (word.isPrefixOf s, s)) := by
  refine ⟨?_, List.suffix_refl s⟩
  have hle : (placeOf text s).offset ≤ text.length := by
    rw [placeOf_offset]
    omega
  rw [comes, if_pos hle, drop_placeOf hs]
  rfl

theorem follows_consume (word : Text) {rest : Text} (hs : word ++ rest <:+ text) :
    Follows text (consume text word.length) (word ++ rest) (.ok ((), rest)) := by
  induction word with
  | nil => exact .pure () rest
  | cons c word ih => exact .advance_bind hs (ih (suffix_of_cons hs))

theorem Follows.word (word : Text) {s : Text} {v : Json} {otherwise : Scan Json} {r : Read Json}
    (hs : s <:+ text) (hno : Text.after? word s = none → Follows text otherwise s r)
    (hyes : ∀ rest, Text.after? word s = some rest → r = .ok (v, rest)) :
    Follows text (comes text word >>= fun b =>
      if b = true then (do consume text word.length; return v) else otherwise) s r := by
  refine (follows_comes word hs).bind ?_
  cases hafter : Text.after? word s with
  | none =>
    have hstarts : word.isPrefixOf s = false := by
      rw [Bool.eq_false_iff, ne_eq, isPrefixOf_iff_after?]
      simp [hafter]
    simp only [hstarts, Bool.false_eq_true, ↓reduceIte]
    exact hno hafter
  | some rest =>
    have hstarts : word.isPrefixOf s = true := isPrefixOf_iff_after?.mpr ⟨rest, hafter⟩
    obtain rfl := after?_eq_some_iff.mp hafter
    simp only [hstarts, ↓reduceIte, hyes rest hafter]
    exact (follows_consume word hs).bind (.pure v rest)

theorem follows_keyword {s : Text} (hs : s <:+ text) :
    Follows text (keyword text) s (Json.keyword s) := by
  refine .word "true" hs (fun htrue => ?_) fun rest h => by simp only [Json.keyword, h]
  refine .word "false" hs (fun hfalse => ?_) fun rest h => by
    simp only [Json.keyword, htrue, h]
  refine .word "null" hs (fun hnull => ?_) fun rest h => by
    simp only [Json.keyword, htrue, hfalse, h]
  simp only [Json.keyword, htrue, hfalse, hnull]
  exact .fail _ s

section
variable {scan : Scan Json} {item : Text → Read Json}

/-- Every round but the last takes a comma. -/
theorem follows_items (hitem : ∀ s, s <:+ text → Follows text scan s (item s)) {rounds fuel : Nat}
    {s : Text} (hs : s <:+ text) (hr : s.length < rounds) (hf : s.length < fuel) :
    Follows text (items text scan rounds) s (Json.items item fuel s) := by
  induction rounds generalizing fuel s with
  | zero => omega
  | succ rounds ih =>
    cases fuel with
    | zero => omega
    | succ fuel =>
      rw [items, Json.items]
      refine (hitem s hs).bind_cases (fun stop hread => by simp only [hread])
        fun v rest hread hrest => ?_
      refine .skip_bind (hrest.trans hs) ?_
      have hblank := (skipBlank_suffix rest).trans hrest
      simp only [hread]
      cases hskip : skipBlank rest with
      | nil => exact .atEnd_nil (.fail _ [])
      | cons c rest =>
        rw [hskip] at hblank
        have hs' := hblank.trans hs
        have hlt : rest.length < s.length := hblank.length_le
        refine .atEnd_cons hs' (.advance_bind hs' ?_)
        dsimp only
        split_ifs with hclose hcomma
        · exact .pure [v] rest
        · refine (ih (suffix_of_cons hs') (show rest.length < rounds by omega)
            (show rest.length < fuel by omega)).bind_cases (fun stop hread => by simp only [hread])
            fun vs rest hread _ => ?_
          simp only [hread]
          exact .pure (v :: vs) rest
        · exact .fail _ rest

theorem eq_cons_of_headD {s : Text} {c : UInt8} (hc : c ≠ 0) (h : s.headD 0 = c) :
    ∃ rest, s = c :: rest := by
  cases s with
  | nil => exact absurd h.symm hc
  | cons d rest => exact ⟨rest, congrArg (· :: rest) h⟩

theorem follows_arrayBody (hitem : ∀ s, s <:+ text → Follows text scan s (item s)) {fuel : Nat}
    {s : Text} (hs : s <:+ text) (hf : text.length < fuel) :
    Follows text (arrayBody text scan) s (Json.arrayBody item fuel s) := by
  have hs' := (skipBlank_suffix s).trans hs
  have hle := hs'.length_le
  refine .skip_bind hs (.peek_bind hs' ?_)
  by_cases hclose : (skipBlank s).headD 0 = 93
  · obtain ⟨rest, hskip⟩ := eq_cons_of_headD (by decide) hclose
    rw [hskip] at hs'
    simp only [Json.arrayBody, hskip]
    exact .advance_bind hs' (.pure [] rest)
  · have hread : Json.arrayBody item fuel s = Json.items item fuel (skipBlank s) := by
      unfold Json.arrayBody
      split
      · rename_i rest hskip
        exact absurd (congrArg (List.headD · 0) hskip) hclose
      · rfl
    rw [if_neg hclose, hread]
    exact follows_items hitem hs' (by omega) (by omega)

theorem follows_memberKey {fuel : Nat} {s : Text} (hs : s <:+ text) (hf : s.length < fuel) :
    Follows text (memberKey text) s (Json.memberKey fuel s) := by
  have hs' := (skipBlank_suffix s).trans hs
  have hle := (skipBlank_suffix s).length_le
  refine .skip_bind hs (.peek_bind hs' ?_)
  unfold Json.memberKey
  by_cases hquote : (skipBlank s).headD 0 = 34
  · obtain ⟨body, hskip⟩ := eq_cons_of_headD (by decide) hquote
    rw [hskip] at hs' hle
    rw [List.length_cons] at hle
    simp only [hskip]
    have hbody : body.length < fuel := by omega
    refine (follows_string hs' hbody).bind_cases
      (fun stop hread => by simp only [hread]) fun key rest hread hrest => ?_
    have hs'' := hrest.trans hs'
    have hcolon' := (skipBlank_suffix rest).trans hs''
    refine .skip_bind hs'' (.peek_bind hcolon' ?_)
    simp only [hread]
    by_cases hcolon : (skipBlank rest).headD 0 = 58
    · obtain ⟨after, hskip⟩ := eq_cons_of_headD (by decide) hcolon
      rw [hskip] at hcolon'
      simp only [hskip]
      exact .advance_bind hcolon' (.pure key after)
    · rw [if_neg hcolon]
      split
      · rename_i after hskip
        exact absurd (congrArg (List.headD · 0) hskip) hcolon
      · exact .fail _ (skipBlank rest)
  · rw [if_neg hquote]
    split
    · rename_i body hskip
      exact absurd (congrArg (List.headD · 0) hskip) hquote
    · exact .fail _ (skipBlank s)

theorem follows_members (hitem : ∀ s, s <:+ text → Follows text scan s (item s))
    {rounds fuel : Nat} {s : Text} (hs : s <:+ text) (hr : s.length < rounds)
    (hf : s.length < fuel) :
    Follows text (members text scan rounds) s (Json.members item fuel s) := by
  induction rounds generalizing fuel s with
  | zero => omega
  | succ rounds ih =>
    cases fuel with
    | zero => omega
    | succ fuel =>
      rw [members, Json.members]
      refine (follows_memberKey hs hf).bind_cases (fun stop hread => by simp only [hread])
        fun key rest hread hrest => ?_
      simp only [hread]
      refine (hitem rest (hrest.trans hs)).bind_cases (fun stop hread => by simp only [hread])
        fun v after hread hafter => ?_
      have hblank := ((skipBlank_suffix after).trans hafter).trans hrest
      refine .skip_bind ((hafter.trans hrest).trans hs) ?_
      simp only [hread]
      cases hskip : skipBlank after with
      | nil => exact .atEnd_nil (.fail _ [])
      | cons c rest =>
        rw [hskip] at hblank
        have hs' := hblank.trans hs
        have hlt : rest.length < s.length := hblank.length_le
        refine .atEnd_cons hs' (.advance_bind hs' ?_)
        dsimp only
        split_ifs with hclose hcomma
        · exact .pure [(key, v)] rest
        · refine (ih (suffix_of_cons hs') (show rest.length < rounds by omega)
            (show rest.length < fuel by omega)).bind_cases (fun stop hread => by simp only [hread])
            fun ms rest hread _ => ?_
          simp only [hread]
          exact .pure ((key, v) :: ms) rest
        · exact .fail _ rest

theorem follows_objectBody (hitem : ∀ s, s <:+ text → Follows text scan s (item s)) {fuel : Nat}
    {s : Text} (hs : s <:+ text) (hf : text.length < fuel) :
    Follows text (objectBody text scan) s (Json.objectBody item fuel s) := by
  have hs' := (skipBlank_suffix s).trans hs
  have hle := hs'.length_le
  refine .skip_bind hs (.peek_bind hs' ?_)
  by_cases hclose : (skipBlank s).headD 0 = 125
  · obtain ⟨rest, hskip⟩ := eq_cons_of_headD (by decide) hclose
    rw [hskip] at hs'
    simp only [Json.objectBody, hskip]
    exact .advance_bind hs' (.pure [] rest)
  · have hread : Json.objectBody item fuel s = Json.members item fuel (skipBlank s) := by
      unfold Json.objectBody
      split
      · rename_i rest hskip
        exact absurd (congrArg (List.headD · 0) hskip) hclose
      · rfl
    rw [if_neg hclose, hread]
    exact follows_members hitem hs' (by omega) (by omega)

end

theorem follows_valueWith {nested : Option (Scan Json)} {reader : Option (Text → Read Json)}
    (hnested : Option.Rel (fun scan item => ∀ s, s <:+ text → Follows text scan s (item s))
      nested reader)
    {fuel : Nat} (hf : text.length < fuel) {s : Text} (hs : s <:+ text) :
    Follows text (valueWith text nested) s (Json.valueWith fuel reader s) := by
  have hs' := (skipBlank_suffix s).trans hs
  refine .skip_bind hs ?_
  unfold Json.valueWith
  cases hskip : skipBlank s with
  | nil => exact .atEnd_nil (.fail _ [])
  | cons c rest =>
    rw [hskip] at hs'
    have hrest := suffix_of_cons hs'
    have hle := hrest.length_le
    refine .atEnd_cons hs' (.peek_bind hs' ?_)
    rw [List.headD_cons]
    dsimp only
    split_ifs with hbrace hbracket hquote hletter hdigit
    · cases hnested with
      | none => exact .fail _ (c :: rest)
      | some hitem =>
        refine .advance_bind hs' ((follows_objectBody hitem hrest hf).bind_cases
          (fun stop hread => by simp only [hread]) fun ms rest hread _ => ?_)
        simp only [hread]
        exact .pure (ofMembers ms) rest
    · cases hnested with
      | none => exact .fail _ (c :: rest)
      | some hitem =>
        refine .advance_bind hs' ((follows_arrayBody hitem hrest hf).bind_cases
          (fun stop hread => by simp only [hread]) fun vs rest hread _ => ?_)
        simp only [hread]
        exact .pure (Json.array vs) rest
    · have hbody : rest.length < fuel := by omega
      refine (follows_string hs' hbody).bind_cases
        (fun stop hread => by simp only [hread]) fun t rest hread _ => ?_
      simp only [hread]
      exact .pure (Json.string t) rest
    · exact follows_keyword hs'
    · refine (follows_numeral hs').bind_cases (fun stop hread => by simp only [hread])
        fun n rest hread _ => ?_
      simp only [hread]
      exact .pure (Json.number n.value) rest
    · exact .fail _ (c :: rest)

theorem follows_value {fuel : Nat} (hf : text.length < fuel) (limit : Nat) (s : Text)
    (hs : s <:+ text) : Follows text (value text limit) s (Json.value fuel limit s) := by
  induction limit generalizing s with
  | zero => exact follows_valueWith .none hf hs
  | succ limit ih => exact follows_valueWith (.some ih) hf hs

theorem value_skipBlank (fuel limit : Nat) (s : Text) :
    Json.value fuel limit (skipBlank s) = Json.value fuel limit s := by
  obtain ⟨w, hw, hs⟩ := exists_blank_append_skipBlank s
  conv_rhs => rw [hs]
  cases limit with
  | zero => exact (valueWith_append hw none _).symm
  | succ limit => exact (valueWith_append hw (some (Json.value fuel limit)) _).symm

theorem value_nil (fuel limit : Nat) :
    Json.value fuel limit [] = .error ⟨.unexpectedEnd, []⟩ := by
  cases limit <;> rfl

def toEnd : Except Stop Json → Read Json
  | .ok v => .ok (v, [])
  | .error stop => .error stop

theorem follows_document (text : Text) :
    Follows text (document text) text (toEnd (Json.document text)) := by
  have hblank := skipBlank_suffix text
  have hvalue := follows_value (Nat.lt_succ_self text.length) maxDepth (skipBlank text) hblank
  rw [value_skipBlank] at hvalue
  refine .skip_bind (List.suffix_refl text) ?_
  cases hskip : skipBlank text with
  | nil =>
    have hread : Json.document text = .error ⟨.unexpectedEnd, []⟩ := by
      rw [Json.document, ← value_skipBlank, hskip, value_nil]
    rw [hread]
    exact .atEnd_nil (.fail _ [])
  | cons c rest =>
    rw [hskip] at hblank hvalue
    refine .atEnd_cons hblank (hvalue.bind_cases
      (fun stop hread => by simp only [Json.document, hread, toEnd]) fun v rest hread hrest => ?_)
    have hs := hrest.trans hblank
    have hs' := (skipBlank_suffix rest).trans hs
    refine .skip_bind hs ?_
    simp only [Json.document, hread]
    cases hskip : skipBlank rest with
    | nil => exact .atEnd_nil (.pure v [])
    | cons d rest =>
      rw [hskip] at hs'
      exact .atEnd_cons hs' (.peek_bind hs' (.fail _ (d :: rest)))

theorem parse_eq (text : Text) : parse text = (Json.parse text).mapError .failed := by
  have hsame := (follows_document text).same
  rw [placeOf_self] at hsame
  rw [parse, hsame, Json.parse]
  cases Json.document text with
  | error stop => rfl
  | ok v => rfl

end Cursor

theorem parse_eq_error {text : Text} {e : Error} (h : parse text = .error e) :
    ∃ stop : Stop, document text = .error stop ∧ e = stop.error text := by
  unfold parse at h
  split at h
  · cases h
  · rename_i stop hstop
    cases h
    exact ⟨stop, hstop, rfl⟩

theorem suffix_of_document {text : Text} {stop : Stop} (h : document text = .error stop) :
    stop.rest <:+ text := by
  have hwithin := (Cursor.follows_document text).within
  rwa [h] at hwithin

/-- A reader with a cursor, which takes bytes without asking and counts lines and columns as it
goes, comes to the same: it never takes a byte past the end and none of its loops goes round more
often than there are bytes. The place of an error is where the reader stopped, and is told by the
bytes before it. -/
theorem parse_located (text : Text) :
    Cursor.parse text = (parse text).mapError .failed ∧
    ∀ e, parse text = .error e →
      (∃ fault, document text = .error ⟨fault, text.drop e.offset⟩) ∧
      e.offset ≤ text.length ∧
      e.line = 1 + (text.take e.offset).count Byte.newline ∧
      e.column = 1 + ((text.take e.offset).rtakeWhile (· != Byte.newline)).length := by
  refine ⟨Cursor.parse_eq text, fun e he => ?_⟩
  obtain ⟨stop, hstop, rfl⟩ := parse_eq_error he
  have hoffset : (stop.error text).offset = text.length - stop.rest.length :=
    Cursor.placeOf_offset
  have hrest := List.suffix_iff_eq_drop.mp (suffix_of_document hstop)
  rw [hoffset, ← hrest]
  exact ⟨⟨stop.fault, hstop⟩, Nat.sub_le _ _, Location.after_line _, Location.after_column _⟩

def misspelt : Text := [("[1,\n" : Text), "  \"a\",\n", "   nil]"].flatten

def misspeltError : Error := ⟨"Invalid literal", 3, 4, 14⟩

theorem parse_misspelt : parse misspelt = .error misspeltError := by
  have herror : (parse misspelt).map (fun _ => ()) = .error misspeltError := by decide +kernel
  cases h : parse misspelt with
  | ok v => simp [h, Except.map] at herror
  | error e => simpa [h, Except.map] using herror

theorem parse_located_misspelt :
    Cursor.parse misspelt = .error (.failed misspeltError) ∧
    (∃ fault, document misspelt = .error ⟨fault, misspelt.drop misspeltError.offset⟩) ∧
    misspeltError.offset ≤ misspelt.length ∧
    misspeltError.line = 1 + (misspelt.take misspeltError.offset).count Byte.newline ∧
    misspeltError.column =
      1 + ((misspelt.take misspeltError.offset).rtakeWhile (· != Byte.newline)).length := by
  obtain ⟨hcursor, hplace⟩ := parse_located misspelt
  rw [parse_misspelt] at hcursor
  exact ⟨hcursor, hplace misspeltError parse_misspelt⟩

end Bindery.Json
