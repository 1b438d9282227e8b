import Bindery.Proofs.Json.RoundTrip

/-!
What the bytes of JSON text tell of it. A string is written without control bytes, in no fewer bytes
than it has, and a quote inside it stands behind a backslash. So compact text has no control bytes,
and the quote that opens the last string of a text is the last one without a backslash before it,
the closing quote apart.
-/

set_option autoImplicit false

namespace Bindery.Json

open Grammar

variable {s t src bytes : Text}

/-- No byte is a control byte. -/
def Visible (s : Text) : Prop := ∀ c ∈ s, 32 ≤ c

theorem visible_append : Visible (s ++ t) ↔ Visible s ∧ Visible t := List.forall_mem_append

theorem visible_cons {c : UInt8} : Visible (c :: s) ↔ 32 ≤ c ∧ Visible s := List.forall_mem_cons

/-- Every byte stands for itself in a string. -/
def Clean (s : Text) : Prop := ∀ c ∈ s, 32 ≤ c ∧ c ≠ 34 ∧ c ≠ 92

/-- Every quote stands behind a backslash. -/
def Escaped (s : Text) : Prop := ∀ a b, s = a ++ 34 :: b → a.getLast? = some 92

theorem escaped_of_notMem (h : (34 : UInt8) ∉ s) : Escaped s := by
  rintro a b rfl
  exact absurd (by simp) h

theorem Escaped.append (hs : Escaped s) (ht : Escaped t) : Escaped (s ++ t) := by
  intro a b h
  obtain ⟨a', rfl, ht'⟩ | ⟨c, hs', hc⟩ := List.append_eq_append_iff.mp h
  · rw [List.getLast?_append, ht a' b ht', Option.some_or]
  · cases c with
    | nil =>
      -- the quote would be the first byte of the second text, where no backslash is before it
      have hnil := ht [] b hc.symm
      cases hnil
    | cons d c =>
      obtain ⟨rfl, -⟩ := List.cons.inj hc
      exact hs a c hs'

/-- A text that ends in a quote and an escaped text is cut in one way only. -/
theorem eq_of_append_quote {x y : Text} (h : x ++ 34 :: s = y ++ 34 :: t) (hs : Escaped s)
    (ht : Escaped t) (hx : x.getLast? ≠ some 92) (hy : y.getLast? ≠ some 92) : x = y ∧ s = t := by
  have hcut : ∀ (z c s t : Text), Escaped s → 34 :: s = c ++ 34 :: t →
      (z ++ c).getLast? ≠ some 92 → c = [] := by
    intro z c s t hs hst hlast
    cases c with
    | nil => rfl
    | cons d c =>
      obtain ⟨rfl, rfl⟩ := List.cons.inj hst
      have hc := hs c t rfl
      refine absurd ?_ hlast
      rw [List.getLast?_append, List.getLast?_cons, hc]
      rfl
  obtain ⟨c, rfl, hc⟩ | ⟨c, rfl, hc⟩ := List.append_eq_append_iff.mp h
  · obtain rfl := hcut x c s t hs hc hy
    rw [List.nil_append] at hc
    exact ⟨(List.append_nil x).symm, (List.cons.inj hc).2⟩
  · obtain rfl := hcut y c t s ht hc hx
    rw [List.nil_append] at hc
    exact ⟨List.append_nil y, (List.cons.inj hc).2.symm⟩

theorem byte_of_le {c : UInt8} (h : 48 ≤ c.toNat) : 32 ≤ c ∧ c ≠ 34 := by
  refine ⟨UInt8.le_iff_toNat_le.mpr (Nat.le_trans (by decide) h), ?_⟩
  rintro rfl
  exact absurd h (by decide)

theorem hexDigit_ge {c : UInt8} {d : Nat} (h : HexDigit c d) : 32 ≤ c ∧ c ≠ 34 :=
  byte_of_le (by cases h <;> omega)

theorem hexQuad_bytes {q : Text} {n : Nat} (h : HexQuad q n) :
    q.length = 4 ∧ Visible q ∧ (34 : UInt8) ∉ q := by
  cases h with
  | digits ha hb hc hd =>
    have ha := hexDigit_ge ha
    have hb := hexDigit_ge hb
    have hc := hexDigit_ge hc
    have hd := hexDigit_ge hd
    simp [Visible, ha, hb, hc, hd, Ne.symm ha.2, Ne.symm hb.2, Ne.symm hc.2, Ne.symm hd.2]

/-- A string as it is written, against what it stands for. It is longer unless every byte stands for
itself. -/
structure Spells (src bytes : Text) : Prop where
  visible : Visible src
  escaped : Escaped src
  shorter : bytes = src ∧ Clean src ∨ bytes.length < src.length

theorem Spells.length_le (h : Spells src bytes) : bytes.length ≤ src.length := by
  obtain ⟨rfl, -⟩ | hlt := h.shorter
  · exact Nat.le_refl _
  · exact Nat.le_of_lt hlt

theorem spells_character (h : Character src bytes) : Spells src bytes := by
  cases h with
  | @plain c hle hquote hslash =>
    refine ⟨by simpa [Visible] using hle, escaped_of_notMem (by simpa using Ne.symm hquote), ?_⟩
    exact .inl ⟨rfl, by simp [Clean, hle, hquote, hslash]⟩
  | @short c d hs =>
    refine ⟨by cases hs <;> simp [Visible], ?_, .inr (by simp)⟩
    rintro a b hab
    cases a with
    | nil => cases hab
    | cons x a =>
      obtain ⟨rfl, hab⟩ := List.cons.inj hab
      cases a with
      | nil => rfl
      | cons y a => simp at hab
  | @scalar q ch hq =>
    obtain ⟨hlen, hvisible, hquote⟩ := hexQuad_bytes hq
    have hsize := ch.utf8Size_le_four
    refine ⟨?_, escaped_of_notMem (by simp [hquote]), .inr ?_⟩
    · simp only [visible_cons]
      exact ⟨by decide, by decide, hvisible⟩
    · rw [String.length_utf8EncodeChar, List.length_cons, List.length_cons, hlen]
      omega
  | @pair q l high low ch hq _ _ hl _ _ _ =>
    obtain ⟨hlen, hvisible, hquote⟩ := hexQuad_bytes hq
    obtain ⟨hlen', hvisible', hquote'⟩ := hexQuad_bytes hl
    have hsize := ch.utf8Size_le_four
    refine ⟨?_, escaped_of_notMem (by simp [hquote, hquote']), .inr ?_⟩
    · simp only [visible_cons, visible_append, List.cons_append]
      exact ⟨by decide, by decide, hvisible, by decide, by decide, hvisible'⟩
    · simp only [String.length_utf8EncodeChar, List.length_append, List.length_cons, hlen]
      omega

theorem spells_characters (h : Characters src bytes) : Spells src bytes := by
  induction h with
  | nil => exact ⟨by simp [Visible], escaped_of_notMem (by simp), .inl ⟨rfl, by simp [Clean]⟩⟩
  | @cons src bytes more t hc _ ih =>
    have hfirst := spells_character hc
    refine ⟨visible_append.mpr ⟨hfirst.visible, ih.visible⟩, hfirst.escaped.append ih.escaped, ?_⟩
    have hle := hfirst.length_le
    have hle' := ih.length_le
    simp only [List.length_append]
    obtain ⟨rfl, hclean⟩ | hlt := hfirst.shorter
    · obtain ⟨rfl, hclean'⟩ | hlt := ih.shorter
      · exact .inl ⟨rfl, List.forall_mem_append.mpr ⟨hclean, hclean'⟩⟩
      · exact .inr (by omega)
    · exact .inr (by omega)

theorem escapeByte_clean {c : UInt8} (h : 32 ≤ c ∧ c ≠ 34 ∧ c ≠ 92) : escapeByte c = [c] := by
  obtain ⟨hle, hquote, hslash⟩ := h
  have hcontrol : ∀ d : UInt8, d < 32 → c ≠ d := by
    rintro d hd rfl
    exact absurd hle (UInt8.not_le.mpr hd)
  rw [escapeByte, if_neg hquote, if_neg hslash, if_neg (hcontrol 8 (by decide)),
    if_neg (hcontrol 12 (by decide)), if_neg (hcontrol 10 (by decide)),
    if_neg (hcontrol 13 (by decide)), if_neg (hcontrol 9 (by decide)),
    if_neg (UInt8.not_lt.mpr hle)]

theorem escape_clean (h : Clean s) : s.flatMap escapeByte = s := by
  induction s with
  | nil => rfl
  | cons c s ih =>
    obtain ⟨hc, hs⟩ := List.forall_mem_cons.mp h
    rw [List.flatMap_cons, escapeByte_clean hc, ih hs, List.singleton_append]

theorem characters_of_clean (h : Clean s) : Characters s s := by
  have hs := characters_flatMap s
  rwa [escape_clean h] at hs

theorem eq_of_characters (h : Characters src bytes) (hslash : (92 : UInt8) ∉ src) :
    bytes = src := by
  induction h with
  | nil => rfl
  | cons hc _ ih =>
    rw [List.mem_append, not_or] at hslash
    rw [ih hslash.2]
    cases hc with
    | plain => rfl
    | short | scalar | pair => exact absurd (by simp) hslash.1

theorem digits_bytes (h : Digits s) : ∀ c ∈ s, 32 ≤ c ∧ c ≠ 34 := fun c hc => byte_of_le (h c hc).1

theorem written_bytes {n : Numeral} (h : Written s n) : ∀ c ∈ s, 32 ≤ c ∧ c ≠ 34 := by
  cases h with
  | @parts sign whole point power _ _ _ hsign hwhole hpoint hpower =>
    have hsign : ∀ c ∈ sign, 32 ≤ c ∧ c ≠ 34 := by cases hsign <;> simp
    have hwhole : ∀ c ∈ whole, 32 ≤ c ∧ c ≠ 34 := by
      cases hwhole with
      | zero => simp
      | positive hlo _ hdigits =>
        exact List.forall_mem_cons.mpr ⟨byte_of_le (by omega), digits_bytes hdigits⟩
    have hpoint : ∀ c ∈ point, 32 ≤ c ∧ c ≠ 34 := by
      cases hpoint with
      | absent => simp
      | digits _ hdigits => exact List.forall_mem_cons.mpr ⟨by decide, digits_bytes hdigits⟩
    have hpower : ∀ c ∈ power, 32 ≤ c ∧ c ≠ 34 := by
      cases hpower with
      | absent => simp
      | digits he hs _ hdigits =>
        refine List.forall_mem_cons.mpr ⟨by obtain rfl | rfl := he <;> decide, ?_⟩
        exact List.forall_mem_append.mpr ⟨by cases hs <;> simp, digits_bytes hdigits⟩
    simp only [List.forall_mem_append]
    exact ⟨⟨⟨hsign, hwhole⟩, hpoint⟩, hpower⟩

theorem visible_scalar {v : Json} (h : Scalar s v) : Visible s := by
  cases h with
  | null | false | true =>
    unfold Visible
    decide +kernel
  | string hq =>
    cases hq with
    | quotes hs =>
      refine visible_append.mpr ⟨visible_cons.mpr ⟨by decide, ?_⟩, by simp [Visible]⟩
      exact (spells_characters hs).visible
  | number hw _ => exact fun c hc => (written_bytes hw c hc).1

theorem value_of_quote {depth : Nat} {v : Json} (h : Value depth s v)
    (hlast : s.getLast? = some 34) :
    ∃ src t, s = 34 :: src ++ [34] ∧ v = .string t ∧ Characters src t := by
  have hscalar : Scalar s v := by
    cases depth with
    | zero => exact h
    | succ depth =>
      rcases h with h | h
      · exact h
      · cases h <;> exact absurd (hlast.symm.trans List.getLast?_concat) (by decide)
  cases hscalar with
  | null | false | true => exact absurd hlast (by decide)
  | string hq =>
    cases hq with
    | quotes hs => exact ⟨_, _, rfl, rfl, hs⟩
  | number hw _ => exact absurd rfl (written_bytes hw 34 (List.mem_of_getLast? hlast)).2

theorem visible_quote (s : Text) : Visible (quote s) := visible_scalar (.string (quoted_quote s))

theorem visible_itemsOnto {depth : Nat} {vs : List Json} {tail : Text}
    (h : ∀ v ∈ vs, ∀ tail, Visible tail → Visible (renderOnto 0 depth v tail))
    (ht : Visible tail) : Visible (itemsOnto 0 depth vs tail) := by
  induction vs with
  | nil => exact ht
  | cons v vs ih =>
    have hmore := ih fun u hu => h u (by simp [hu])
    exact visible_cons.mpr ⟨by decide, h v (by simp) _ hmore⟩

theorem visible_member {depth : Nat} {key tail : Text} {v : Json}
    (h : Visible (renderOnto 0 depth v tail)) :
    Visible (quote key ++ (separator 0 ++ renderOnto 0 depth v tail)) :=
  visible_append.mpr ⟨visible_quote key, visible_cons.mpr ⟨by decide, h⟩⟩

theorem visible_membersOnto {depth : Nat} {ms : List (Text × Json)} {tail : Text}
    (h : ∀ m ∈ ms, ∀ tail, Visible tail → Visible (renderOnto 0 depth m.2 tail))
    (ht : Visible tail) : Visible (membersOnto 0 depth ms tail) := by
  induction ms with
  | nil => exact ht
  | cons m ms ih =>
    have hmore := ih fun u hu => h u (by simp [hu])
    exact visible_cons.mpr ⟨by decide, visible_member (h m (by simp) _ hmore)⟩

theorem visible_renderOnto {v : Json} (hv : Exact v) (depth : Nat) {tail : Text}
    (ht : Visible tail) : Visible (renderOnto 0 depth v tail) := by
  induction v using Json.induction generalizing depth tail with
  | null | bool | number | string =>
    obtain ⟨src, hsrc, htext⟩ := renderOnto_scalar hv rfl
    rw [htext]
    exact visible_append.mpr ⟨visible_scalar hsrc, ht⟩
  | array vs ih =>
    have hvs := exact_of_mem_items hv
    cases vs with
    | nil => exact visible_cons.mpr ⟨by decide, visible_cons.mpr ⟨by decide, ht⟩⟩
    | cons v vs =>
      have hclose : Visible (Byte.closeBracket :: tail) := visible_cons.mpr ⟨by decide, ht⟩
      have hmore := @visible_itemsOnto (depth + 1) vs _
        (fun u hu tail => ih u (by simp [hu]) (hvs u (by simp [hu])) (depth + 1)) hclose
      exact visible_cons.mpr ⟨by decide, ih v (by simp) (hvs v (by simp)) (depth + 1) hmore⟩
  | object ms ih =>
    have hms := exact_of_mem_members hv.2
    cases ms with
    | nil => exact visible_cons.mpr ⟨by decide, visible_cons.mpr ⟨by decide, ht⟩⟩
    | cons m ms =>
      have hclose : Visible (Byte.closeBrace :: tail) := visible_cons.mpr ⟨by decide, ht⟩
      have hmore := @visible_membersOnto (depth + 1) ms _
        (fun u hu tail => ih u (by simp [hu]) (hms u (by simp [hu])) (depth + 1)) hclose
      have hfirst := ih m (by simp) (hms m (by simp)) (depth + 1) hmore
      exact visible_cons.mpr ⟨by decide, visible_member hfirst⟩

theorem blank_eq_nil {a b w : Text} {c : UInt8} (hw : Blank w) (hc : isBlank c = false)
    (h : a ++ w = b ++ [c]) : w = [] ∧ a = b ++ [c] := by
  obtain rfl | ⟨w', d, rfl⟩ := List.eq_nil_or_concat w
  · exact ⟨rfl, by simpa using h⟩
  · rw [List.concat_eq_append, ← List.append_assoc] at h
    obtain ⟨-, hd⟩ := List.append_inj' h rfl
    obtain rfl : d = c := by simpa using hd
    have hblank := isBlank_iff.mpr (hw d (by simp))
    rw [hc] at hblank
    cases hblank

theorem getLast?_concat_ne {a : Text} {c : UInt8} (hc : c ≠ 92) :
    (a ++ [c]).getLast? ≠ some 92 := by
  rw [List.getLast?_concat]
  exact fun h => hc (Option.some.inj h)

theorem getLast?_append_blank {a w : Text} (hw : Blank w) (ha : a.getLast? ≠ some 92) :
    (a ++ w).getLast? ≠ some 92 := by
  rw [List.getLast?_append]
  cases hlast : w.getLast? with
  | none => exact ha
  | some c =>
    have hc := hw c (List.mem_of_getLast? hlast)
    rintro ⟨⟩
    exact absurd hc (by decide)

variable {limit : Nat} {m : Text}

theorem member_scalar {k key : Text} {v : Json} (hk : Characters k key) (hv : Scalar s v) :
    Member (Value limit) (34 :: k ++ [34] ++ 58 :: s) (key, v) := by
  have hvalue : Value limit s v := by
    cases limit with
    | zero => exact hv
    | succ limit => exact .inl hv
  simpa using Member.binding blank_nil (.quotes hk) blank_nil (.blanks blank_nil hvalue blank_nil)

theorem separated_last {α : Type} {item : Text → α → Prop} {as : List α}
    (h : Separated item s as) :
    ∃ before last as' a, s = before ++ last ∧ as = as' ++ [a] ∧ item last a ∧
      (before = [] ∧ as' = [] ∨ ∃ s', before = s' ++ [44] ∧ Separated item s' as') := by
  induction h with
  | one ha => exact ⟨[], _, [], _, rfl, rfl, ha, .inl ⟨rfl, rfl⟩⟩
  | @more s rest a as ha hrest ih =>
    obtain ⟨before, last, as', b, rfl, rfl, hb, hbefore⟩ := ih
    refine ⟨s ++ 44 :: before, last, a :: as', b, by simp, rfl, hb, .inr ?_⟩
    obtain ⟨rfl, rfl⟩ | ⟨s', rfl, hs'⟩ := hbefore
    · exact ⟨s, rfl, .one ha⟩
    · exact ⟨s ++ 44 :: s', by simp, .more ha hs'⟩

theorem separated_first {kv : Text × Json} {ms : List (Text × Json)}
    (hm : Member (Value limit) m kv)
    (h : Separated (Member (Value limit)) (m ++ 44 :: s) ms) :
    ∃ ms', ms = kv :: ms' ∧ Separated (Member (Value limit)) s ms' := by
  -- both the whole and its first member are read to the end, so the rest is read as well
  obtain ⟨n, hn⟩ : ∃ n, n = (m ++ 44 :: s).length := ⟨_, rfl⟩
  have hall := members_complete (value_complete (n + 1) limit) h (by omega)
    (show (m ++ 44 :: s).length < n + 1 by omega) []
  cases hm with
  | @binding before name after t key v hbefore hname hafter ht =>
    cases ht with
    | @blanks before' src after' _ hbefore' hv hafter' =>
      simp only [List.length_append, List.length_cons] at hn
      have hkey := memberKey_complete hbefore hname hafter (show name.length < n + 1 by omega)
        (before' ++ (src ++ (after' ++ 44 :: (s ++ [125]))))
      have hvalue := value_complete (n + 1) limit hbefore' hv (by omega)
        (endsValue_append hafter' (.inl rfl) (s ++ [125]))
      simp only [List.append_assoc, List.cons_append] at hall
      rw [members_next hkey hvalue (skipBlank_append_cons hafter' rfl _)] at hall
      cases hrest : members (value (n + 1) limit) n (s ++ [125]) with
      | error stop => simp [hrest, Except.map] at hall
      | ok read =>
        obtain ⟨ms', rest⟩ := read
        simp only [hrest, Except.map, Except.ok.injEq, Prod.mk.injEq] at hall
        obtain ⟨rfl, rfl⟩ := hall
        obtain ⟨src', hsep, hs⟩ := members_sound (value_sound _ _) hrest
        obtain ⟨rfl, -⟩ := List.append_inj' hs rfl
        exact ⟨ms', rfl, hsep⟩

theorem member_of_quote {kv : Text × Json} (h : Member (Value limit) m kv)
    (hlast : m.getLast? = some 34) :
    ∃ before key after blank src t, m = before ++ 34 :: key ++ 34 :: after ++ 58 :: blank ++
        34 :: src ++ [34] ∧ Blank before ∧ Blank after ∧ Blank blank ∧ Characters key kv.1 ∧
        Characters src t ∧ kv.2 = .string t := by
  cases h with
  | @binding before name after _ key v hbefore hname hafter hv =>
    cases hname with
    | @quotes k _ hk =>
    cases hv with
    | @blanks blank src after' _ hblank hsrc hafter' =>
      obtain ⟨m', hm'⟩ := List.getLast?_eq_some_iff.mp hlast
      have hend : (before ++ (34 :: k ++ [34]) ++ after ++ 58 :: (blank ++ src)) ++ after' =
          m' ++ [34] := by simpa using hm'
      obtain ⟨rfl, hsplit⟩ := blank_eq_nil hafter' rfl hend
      have hsrc' : src.getLast? = some 34 := by
        obtain ⟨c, rest, rfl, -⟩ := value_starts src v hsrc
        have hlast' := congrArg List.getLast? hsplit
        rw [List.getLast?_concat, ← List.cons_append, ← List.append_assoc,
          List.getLast?_append_of_ne_nil _ (List.cons_ne_nil c rest)] at hlast'
        exact hlast'
      obtain ⟨src, t, rfl, rfl, ht⟩ := value_of_quote hsrc hsrc'
      exact ⟨before, k, after, blank, src, t, by simp, hbefore, hafter, hblank, hk, ht, rfl⟩

theorem member_ne_nil {kv : Text × Json} (h : Member (Value limit) m kv) : m ≠ [] := by
  cases h
  simp

/-- The last of several members is known where it binds a key to a string: the quotes around them
are the last ones without a backslash before them. -/
theorem separated_last_member {front k e : Text} {ms : List (Text × Json)}
    (h : Separated (Member (Value limit))
      (front ++ [44] ++ (34 :: k ++ [34]) ++ [58] ++ (34 :: e ++ [34])) ms)
    (hk : Escaped k) (he : Escaped e) :
    ∃ ms' key t, ms = ms' ++ [(key, .string t)] ∧ Separated (Member (Value limit)) front ms' ∧
      Characters k key ∧ Characters e t := by
  obtain ⟨before, last, ms', ⟨key, v⟩, htext, rfl, hmember, hbefore⟩ := separated_last h
  have hlast : last.getLast? = some 34 := by
    rw [← List.getLast?_append_of_ne_nil before (member_ne_nil hmember), ← htext,
      ← List.append_assoc, List.getLast?_concat]
  obtain ⟨pad, name, after, blank, src, t, rfl, hpad, hafter, hblank, hname, ht, rfl⟩ :=
    member_of_quote hmember hlast
  -- from the right: the string, the colon, the key and the comma, with no blanks between them
  have hstring : (before ++ pad ++ 34 :: name ++ 34 :: after ++ [58] ++ blank) ++ 34 :: src =
      (front ++ [44] ++ (34 :: k ++ [34]) ++ [58]) ++ 34 :: e :=
    (List.append_left_inj [34]).mp (by simpa using htext.symm)
  obtain ⟨hcolon, rfl⟩ := eq_of_append_quote hstring (spells_characters ht).escaped he
    (getLast?_append_blank hblank (getLast?_concat_ne (by decide))) (getLast?_concat_ne (by decide))
  obtain ⟨rfl, hcolon⟩ := blank_eq_nil hblank rfl hcolon
  have hquote : (before ++ pad ++ 34 :: name ++ [34]) ++ after =
      (front ++ [44] ++ 34 :: k) ++ [34] :=
    (List.append_left_inj [58]).mp (by simpa using hcolon)
  obtain ⟨rfl, hkey⟩ := blank_eq_nil hafter rfl hquote
  have hbefore' : before.getLast? ≠ some 92 := by
    obtain ⟨rfl, -⟩ | ⟨s', rfl, -⟩ := hbefore <;> simp
  obtain ⟨hcomma, rfl⟩ := eq_of_append_quote (List.append_cancel_right hkey)
    (spells_characters hname).escaped hk (getLast?_append_blank hpad hbefore')
    (getLast?_concat_ne (by decide))
  obtain ⟨rfl, hfront⟩ := blank_eq_nil hpad rfl hcomma
  obtain ⟨rfl, -⟩ | ⟨s', rfl, hs'⟩ := hbefore
  · simp at hfront
  · obtain rfl := List.append_cancel_right hfront
    exact ⟨ms', key, t, rfl, hs', hname, ht⟩

theorem scalar_of_string {depth : Nat} {t : Text} (h : Value depth s (.string t)) :
    Scalar s (.string t) := by
  cases depth with
  | zero => exact h
  | succ depth =>
    rcases h with h | h
    · exact h
    · cases h

theorem member_length {key t : Text} (h : Member (Value limit) m (key, .string t)) :
    ∃ k src, Characters k key ∧ Characters src t ∧ k.length + src.length + 5 ≤ m.length := by
  cases h with
  | binding hbefore hname hafter hv =>
    cases hname with
    | @quotes k _ hk =>
    cases hv with
    | blanks hblank hsrc hafter' =>
      cases scalar_of_string hsrc with
      | string hq =>
        cases hq with
        | @quotes src _ hsrc =>
          refine ⟨k, src, hk, hsrc, ?_⟩
          simp only [List.length_append, List.length_cons, List.length_nil]
          omega

theorem clean_of_separated {key t : Text} {ms : List (Text × Json)}
    (h : Separated (Member (Value limit)) s ms) (hmem : (key, .string t) ∈ ms)
    (hlen : s.length ≤ key.length + t.length + 5) : Clean t := by
  induction h with
  | one hm =>
    obtain rfl := List.mem_singleton.mp hmem
    obtain ⟨k, src, hk, hsrc, hle⟩ := member_length hm
    have hkey := (spells_characters hk).length_le
    obtain ⟨rfl, hclean⟩ | hlt := (spells_characters hsrc).shorter
    · exact hclean
    · omega
  | more hm _ ih =>
    rw [List.length_append, List.length_cons] at hlen
    obtain rfl | hmem := List.mem_cons.mp hmem
    · obtain ⟨k, src, hk, hsrc, hle⟩ := member_length hm
      have hkey := (spells_characters hk).length_le
      have ht := (spells_characters hsrc).length_le
      omega
    · exact ih hmem (by omega)

theorem document_of_parse {v : Json} (h : parse s = .ok v) : Document maxDepth s v := by
  apply document_sound
  unfold parse at h
  split at h
  · rename_i hd
    cases h
    exact hd
  · cases h

theorem eq_of_append_blank {a b w w' : Text} {c : UInt8} (hw : Blank w) (hw' : Blank w')
    (hc : isBlank c = false) (h : a ++ [c] ++ w = b ++ [c] ++ w') : a = b ∧ w = w' := by
  obtain ⟨z, hb, rfl⟩ | ⟨z, ha, rfl⟩ := List.append_eq_append_iff.mp h
  · obtain ⟨rfl, hab⟩ := blank_eq_nil (fun d hd => hw d (by simp [hd])) hc hb.symm
    exact ⟨List.append_cancel_right hab, rfl⟩
  · obtain ⟨rfl, hab⟩ := blank_eq_nil (fun d hd => hw' d (by simp [hd])) hc ha.symm
    exact ⟨(List.append_cancel_right hab).symm, rfl⟩

theorem members_of_document {body w : Text} {ms : List (Text × Json)} (hw : Blank w)
    (h : Document (limit + 1) (123 :: body ++ [125] ++ w) (.object ms)) (hne : ms ≠ []) :
    ∃ written, Separated (Member (Value limit)) body written ∧ Merged written ms := by
  generalize htext : 123 :: body ++ [125] ++ w = text at h
  cases h with
  | @blanks before src after _ hbefore hv hafter =>
    rcases hv with hv | hv
    · cases hv
    · -- no blank opens the text, and the closing brace is where the last blanks end
      have hnil : before = [] := by
        cases before with
        | nil => rfl
        | cons c before =>
          obtain ⟨rfl, -⟩ := List.cons.inj htext
          exact absurd (hbefore 123 (by simp)) (by decide)
      subst hnil
      cases hv with
      | emptyObject => exact absurd rfl hne
      | object hsep hmerged =>
        obtain ⟨hbody, -⟩ := eq_of_append_blank hw hafter rfl htext
        obtain rfl := (List.cons.inj hbody).2
        exact ⟨_, hsep, hmerged⟩

end Bindery.Json
