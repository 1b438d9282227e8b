import Bindery.Proofs.Json.Numerals
import Bindery.Proofs.Json.Strings

/-!
The parser accepts exactly the texts of the grammar and returns the value they stand for. Reading
goes wrong only where no rule applies, and a reader with more fuel than bytes never runs out. Both
directions follow the nesting of containers: the reader of items is sound or complete as soon as
the reader of one item is.
-/

set_option autoImplicit false

namespace Bindery.Json

open Grammar

theorem ofMembers_eq (ms : List (Text × Json)) :
    ofMembers ms = .object (Sorted.ofBindings Text.before ms) := rfl

theorem merged_ofBindings (ms : List (Text × Json)) :
    Merged ms (Sorted.ofBindings Text.before ms) :=
  ⟨Sorted.ofBindings_increasing Text.before_isOrder ms,
    Sorted.lookup_ofBindings Text.before_isOrder ms⟩

theorem eq_ofBindings_of_merged {ms obj : List (Text × Json)} (h : Merged ms obj) :
    obj = Sorted.ofBindings Text.before ms := by
  apply Sorted.eq_of_lookup_eq Text.before_isOrder h.increasing (merged_ofBindings ms).increasing
  intro key
  rw [h.last, (merged_ofBindings ms).last]

section Soundness

variable {item : Text → Read Json} {val : Text → Json → Prop}

/-- What the reader consumes is a value, after some blanks. -/
def Sound (item : Text → Read Json) (val : Text → Json → Prop) : Prop :=
  ∀ {s rest : Text} {v : Json}, item s = .ok (v, rest) →
    ∃ w src, Blank w ∧ val src v ∧ s = w ++ (src ++ rest)

theorem items_sound (hitem : Sound item val) {fuel : Nat} {s rest : Text} {vs : List Json}
    (h : items item fuel s = .ok (vs, rest)) :
    ∃ src, Separated (Padded val) src vs ∧ s = src ++ 93 :: rest := by
  induction fuel generalizing s vs with
  | zero => simp [items] at h
  | succ fuel ih =>
    unfold items at h
    cases hi : item s with
    | error stop => simp [hi] at h
    | ok result =>
      obtain ⟨v, rest₁⟩ := result
      obtain ⟨w, src, hw, hv, hs⟩ := hitem hi
      obtain ⟨w', hw', hrest₁⟩ := exists_blank_append_skipBlank rest₁
      have hpad : Padded val (w ++ src ++ w') v := .blanks hw hv hw'
      simp only [hi] at h
      cases hskip : skipBlank rest₁ with
      | nil => simp [hskip] at h
      | cons c rest₂ =>
        rw [hskip] at hrest₁
        simp only [hskip] at h
        -- blanks after the value belong to it, so what follows is a bracket or a comma
        split_ifs at h with hclose hcomma
        · cases h
          refine ⟨w ++ src ++ w', .one hpad, ?_⟩
          rw [hs, hrest₁, hclose]
          simp
        · cases hmore : items item fuel rest₂ with
          | error stop => simp [hmore] at h
          | ok result =>
            obtain ⟨vs', rest₃⟩ := result
            simp [hmore] at h
            obtain ⟨rfl, rfl⟩ := h
            obtain ⟨src', hsep, hrest₂⟩ := ih hmore
            refine ⟨w ++ src ++ w' ++ 44 :: src', .more hpad hsep, ?_⟩
            rw [hs, hrest₁, hcomma, hrest₂]
            simp

theorem separated_append {α : Type} {part : Text → α → Prop} {w s : Text} {as : List α}
    (hpart : ∀ s a, part s a → part (w ++ s) a) (h : Separated part s as) :
    Separated part (w ++ s) as := by
  cases h with
  | one ha => exact .one (hpart _ _ ha)
  | more ha has =>
    rw [← List.append_assoc]
    exact .more (hpart _ _ ha) has

theorem blank_nil : Blank [] := by simp [Blank]

theorem blank_append {v w : Text} (hv : Blank v) (hw : Blank w) : Blank (v ++ w) := by
  intro c hc
  rcases List.mem_append.mp hc with hc | hc
  · exact hv c hc
  · exact hw c hc

theorem padded_append {w : Text} (hw : Blank w) (s : Text) (v : Json) (h : Padded val s v) :
    Padded val (w ++ s) v := by
  cases h with
  | blanks hb hv ha =>
    simp only [← List.append_assoc]
    exact .blanks (blank_append hw hb) hv ha

theorem member_append {w : Text} (hw : Blank w) (s : Text) (m : Text × Json)
    (h : Member val s m) : Member val (w ++ s) m := by
  cases h with
  | binding hb hname ha hs =>
    simp only [← List.append_assoc]
    exact .binding (blank_append hw hb) hname ha hs

theorem arrayBody_sound (hitem : Sound item val) {fuel : Nat} {s rest : Text} {vs : List Json}
    (h : arrayBody item fuel s = .ok (vs, rest)) :
    ∃ src, Container val (91 :: src ++ [93]) (.array vs) ∧ s = src ++ 93 :: rest := by
  obtain ⟨w, hw, hs⟩ := exists_blank_append_skipBlank s
  unfold arrayBody at h
  split at h
  · rename_i rest' hskip
    cases h
    exact ⟨w, .emptyArray hw, by rw [hs, hskip]⟩
  · obtain ⟨src, hsep, hrest⟩ := items_sound hitem h
    refine ⟨w ++ src, .array (separated_append (padded_append hw) hsep), ?_⟩
    rw [hs, hrest]
    simp

theorem memberKey_sound {fuel : Nat} {s key rest : Text}
    (h : memberKey fuel s = .ok (key, rest)) :
    ∃ w name w', Blank w ∧ Quoted name key ∧ Blank w' ∧ s = w ++ name ++ w' ++ 58 :: rest := by
  obtain ⟨w, hw, hs⟩ := exists_blank_append_skipBlank s
  unfold memberKey at h
  split at h
  · rename_i rest₁ hskip
    cases hb : stringBody fuel rest₁ with
    | error stop => simp [hb] at h
    | ok result =>
      obtain ⟨key', rest₂⟩ := result
      obtain ⟨w', hw', hrest₂⟩ := exists_blank_append_skipBlank rest₂
      obtain ⟨src, hsrc, hrest₁⟩ := stringBody_sound hb
      simp only [hb] at h
      split at h
      · rename_i rest₃ hskip'
        cases h
        refine ⟨w, 34 :: src ++ [34], w', hw, .quotes hsrc, hw', ?_⟩
        rw [hs, hskip, hrest₁, hrest₂, hskip']
        simp
      · cases h
  · cases h

theorem members_sound (hitem : Sound item val) {fuel : Nat} {s rest : Text}
    {ms : List (Text × Json)} (h : members item fuel s = .ok (ms, rest)) :
    ∃ src, Separated (Member val) src ms ∧ s = src ++ 125 :: rest := by
  induction fuel generalizing s ms with
  | zero => simp [members] at h
  | succ fuel ih =>
    unfold members at h
    cases hk : memberKey (fuel + 1) s with
    | error stop => simp [hk] at h
    | ok result =>
      obtain ⟨key, rest₁⟩ := result
      obtain ⟨w, name, w', hw, hname, hw', hs⟩ := memberKey_sound hk
      simp only [hk] at h
      cases hi : item rest₁ with
      | error stop => simp [hi] at h
      | ok result =>
        obtain ⟨v, rest₂⟩ := result
        obtain ⟨before, src, hbefore, hv, hrest₁⟩ := hitem hi
        obtain ⟨after, hafter, hrest₂⟩ := exists_blank_append_skipBlank rest₂
        have hmember : Member val (w ++ name ++ w' ++ 58 :: (before ++ src ++ after)) (key, v) :=
          .binding hw hname hw' (.blanks hbefore hv hafter)
        simp only [hi] at h
        cases hskip : skipBlank rest₂ with
        | nil => simp [hskip] at h
        | cons c rest₃ =>
          rw [hskip] at hrest₂
          simp only [hskip] at h
          split_ifs at h with hclose hcomma
          · cases h
            refine ⟨_, .one hmember, ?_⟩
            rw [hs, hrest₁, hrest₂, hclose]
            simp
          · cases hmore : members item fuel rest₃ with
            | error stop => simp [hmore] at h
            | ok result =>
              obtain ⟨ms', rest₄⟩ := result
              simp [hmore] at h
              obtain ⟨rfl, rfl⟩ := h
              obtain ⟨src', hsep, hrest₃⟩ := ih hmore
              refine ⟨_, .more hmember hsep, ?_⟩
              rw [hs, hrest₁, hrest₂, hcomma, hrest₃]
              simp

theorem objectBody_sound (hitem : Sound item val) {fuel : Nat} {s rest : Text}
    {ms : List (Text × Json)} (h : objectBody item fuel s = .ok (ms, rest)) :
    ∃ src, Container val (123 :: src ++ [125]) (ofMembers ms) ∧ s = src ++ 125 :: rest := by
  obtain ⟨w, hw, hs⟩ := exists_blank_append_skipBlank s
  unfold objectBody at h
  split at h
  · rename_i rest' hskip
    cases h
    exact ⟨w, .emptyObject hw, by rw [hs, hskip]⟩
  · obtain ⟨src, hsep, hrest⟩ := members_sound hitem h
    refine ⟨w ++ src, ?_, ?_⟩
    · exact .object (separated_append (member_append hw) hsep) (merged_ofBindings ms)
    · rw [hs, hrest]
      simp

/-- A value is a scalar, or a container where one may be opened. -/
theorem valueWith_sound {nested : Option (Text → Read Json)}
    (hnested : ∀ item ∈ nested, Sound item val) {fuel : Nat} {s rest : Text} {v : Json}
    (h : valueWith fuel nested s = .ok (v, rest)) :
    ∃ w src, Blank w ∧ (Scalar src v ∨ nested.isSome = true ∧ Container val src v) ∧
      s = w ++ (src ++ rest) := by
  obtain ⟨w, hw, hs⟩ := exists_blank_append_skipBlank s
  unfold valueWith at h
  cases hskip : skipBlank s with
  | nil => simp [hskip] at h
  | cons c t =>
    rw [hskip] at hs
    simp only [hskip] at h
    split_ifs at h with hbrace hbracket hquote hletter hdigit
    · cases nested with
      | none => cases h
      | some item =>
        cases hb : objectBody item fuel t with
        | error stop => simp [hb] at h
        | ok result =>
          obtain ⟨ms, rest'⟩ := result
          simp [hb] at h
          obtain ⟨rfl, rfl⟩ := h
          obtain ⟨src, hsrc, ht⟩ := objectBody_sound (hnested item rfl) hb
          exact ⟨w, 123 :: src ++ [125], hw, .inr ⟨rfl, hsrc⟩, by simp [hs, hbrace, ht]⟩
    · cases nested with
      | none => cases h
      | some item =>
        cases hb : arrayBody item fuel t with
        | error stop => simp [hb] at h
        | ok result =>
          obtain ⟨vs, rest'⟩ := result
          simp [hb] at h
          obtain ⟨rfl, rfl⟩ := h
          obtain ⟨src, hsrc, ht⟩ := arrayBody_sound (hnested item rfl) hb
          exact ⟨w, 91 :: src ++ [93], hw, .inr ⟨rfl, hsrc⟩, by simp [hs, hbracket, ht]⟩
    · cases hb : stringBody fuel t with
      | error stop => simp [hb] at h
      | ok result =>
        obtain ⟨text, rest'⟩ := result
        simp [hb] at h
        obtain ⟨rfl, rfl⟩ := h
        obtain ⟨src, hsrc, ht⟩ := stringBody_sound hb
        exact ⟨w, 34 :: src ++ [34], hw, .inl (.string (.quotes hsrc)), by simp [hs, hquote, ht]⟩
    · obtain ⟨src, hsrc, ht⟩ := keyword_sound h
      exact ⟨w, src, hw, .inl hsrc, by rw [hs, ht]⟩
    · cases hn : numeral (c :: t) with
      | error stop => simp [hn] at h
      | ok result =>
        obtain ⟨n, rest'⟩ := result
        simp [hn] at h
        obtain ⟨rfl, rfl⟩ := h
        obtain ⟨src, hsrc, ht⟩ := numeral_sound hn
        exact ⟨w, src, hw, .inl (.number hsrc (denotes_value n)), by rw [hs, ht]⟩

theorem value_sound (fuel limit : Nat) : Sound (value fuel limit) (Value limit) := by
  induction limit with
  | zero =>
    intro s rest v h
    have hnone : ∀ item ∈ (none : Option (Text → Read Json)), Sound item Scalar := by simp
    obtain ⟨w, src, hw, hsrc, hs⟩ := valueWith_sound hnone h
    exact ⟨w, src, hw, by simpa [Value] using hsrc, hs⟩
  | succ limit ih =>
    intro s rest v h
    have hsome : ∀ item ∈ some (value fuel limit), Sound item (Value limit) := by
      rintro item ⟨⟩
      exact ih
    obtain ⟨w, src, hw, hsrc, hs⟩ := valueWith_sound hsome h
    exact ⟨w, src, hw, by simpa [Value] using hsrc, hs⟩

end Soundness

section Completeness

variable {item : Text → Read Json} {val : Text → Json → Prop} {bound fuel : Nat}

def EndsValue (rest : Text) : Prop :=
  ∀ c ∈ rest.head?, isBlank c = true ∨ c = 44 ∨ c = 93 ∨ c = 125

theorem EndsValue.endsNumber {rest : Text} (h : EndsValue rest) : EndsNumber rest := by
  intro c hc
  have hcase := h c hc
  rw [isBlank_iff] at hcase
  rcases hcase with (rfl | rfl | rfl | rfl) | rfl | rfl | rfl <;> decide

theorem endsValue_blank {w : Text} (hw : Blank w) : EndsValue w := by
  intro c hc
  exact .inl (isBlank_iff.mpr (hw c (List.mem_of_mem_head? hc)))

theorem endsValue_append {w : Text} (hw : Blank w) {c : UInt8} (hc : c = 44 ∨ c = 93 ∨ c = 125)
    (rest : Text) : EndsValue (w ++ c :: rest) := by
  cases w with
  | nil =>
    intro d hd
    cases hd
    exact .inr hc
  | cons b w =>
    intro d hd
    cases hd
    exact .inl (isBlank_iff.mpr (hw b (by simp)))

/-- Every value shorter than the bound is read, whatever blanks are before it. -/
def Complete (bound : Nat) (item : Text → Read Json) (val : Text → Json → Prop) : Prop :=
  ∀ {w src rest : Text} {v : Json}, Blank w → val src v → src.length < bound → EndsValue rest →
    item (w ++ (src ++ rest)) = .ok (v, rest)

theorem skipBlank_append_cons {w : Text} (hw : Blank w) {c : UInt8} (hc : isBlank c = false)
    (s : Text) : skipBlank (w ++ c :: s) = c :: s := by
  rw [skipBlank_append hw, skipBlank_cons hc]

theorem items_last {s after rest : Text} {v : Json} (hi : item s = .ok (v, after))
    (hskip : skipBlank after = 93 :: rest) : items item (fuel + 1) s = .ok ([v], rest) := by
  simp [items, hi, hskip]

theorem items_next {s after rest : Text} {v : Json} (hi : item s = .ok (v, after))
    (hskip : skipBlank after = 44 :: rest) :
    items item (fuel + 1) s = (items item fuel rest).map fun r => (v :: r.1, r.2) := by
  cases hmore : items item fuel rest <;>
    simp [items, hi, hskip, Byte.closeBracket, hmore, Except.map]

theorem items_complete (hitem : Complete bound item val) {src : Text} {vs : List Json}
    (h : Separated (Padded val) src vs) (hb : src.length < bound) (hf : src.length < fuel)
    (rest : Text) : items item fuel (src ++ 93 :: rest) = .ok (vs, rest) := by
  induction h generalizing fuel with
  | one hpad =>
    cases hpad with
    | @blanks before s after v hbefore hv hafter =>
      cases fuel with
      | zero => simp at hf
      | succ fuel =>
        have hi := hitem hbefore hv (by simp at hb; omega)
          (endsValue_append hafter (.inr (.inl rfl)) rest)
        simp only [List.append_assoc]
        exact items_last hi (skipBlank_append_cons hafter rfl rest)
  | @more _ more _ _ hpad _ ih =>
    cases hpad with
    | @blanks before s after v hbefore hv hafter =>
      cases fuel with
      | zero => simp at hf
      | succ fuel =>
        have hmore := @ih fuel (by simp at hb; omega) (by simp at hf; omega)
        have hi := hitem hbefore hv (by simp at hb; omega)
          (endsValue_append hafter (.inl rfl) (more ++ 93 :: rest))
        simp only [List.append_assoc, List.cons_append]
        rw [items_next hi (skipBlank_append_cons hafter rfl _), hmore]
        rfl

/-- The first byte of a value or a key: neither a blank nor the end of a container. -/
def Starts (s : Text) : Prop := ∃ c t, s = c :: t ∧ isBlank c = false ∧ c ≠ 93 ∧ c ≠ 125

theorem Starts.append {s : Text} (h : Starts s) (tail : Text) : Starts (s ++ tail) := by
  obtain ⟨c, t, rfl, hc⟩ := h
  exact ⟨c, t ++ tail, rfl, hc⟩

theorem separated_trim {α : Type} {part : Text → α → Prop} {s : Text} {as : List α}
    (hpart : ∀ s a, part s a → ∃ w t, Blank w ∧ s = w ++ t ∧ part t a ∧ Starts t)
    (h : Separated part s as) : ∃ w t, Blank w ∧ s = w ++ t ∧ Separated part t as ∧ Starts t := by
  cases h with
  | one ha =>
    obtain ⟨w, t, hw, hs, ht, hstart⟩ := hpart _ _ ha
    exact ⟨w, t, hw, hs, .one ht, hstart⟩
  | more ha has =>
    obtain ⟨w, t, hw, rfl, ht, c, t', rfl, hc⟩ := hpart _ _ ha
    exact ⟨w, _, hw, List.append_assoc .., .more ht has, c, _, rfl, hc⟩

theorem padded_trim (hval : ∀ s v, val s v → Starts s) (s : Text) (v : Json)
    (h : Padded val s v) : ∃ w t, Blank w ∧ s = w ++ t ∧ Padded val t v ∧ Starts t := by
  cases h with
  | @blanks before t after _ hbefore hv hafter =>
    obtain ⟨c, t', rfl, hc⟩ := hval _ _ hv
    have hpad : Padded val ([] ++ c :: t' ++ after) v := .blanks blank_nil hv hafter
    exact ⟨before, c :: t' ++ after, hbefore, List.append_assoc .., hpad, c, _, rfl, hc⟩

theorem member_trim (s : Text) (m : Text × Json) (h : Member val s m) :
    ∃ w t, Blank w ∧ s = w ++ t ∧ Member val t m ∧ Starts t := by
  cases h with
  | @binding before name after t _ _ hbefore hname hafter ht =>
    have hmember : Member val ([] ++ name ++ after ++ 58 :: t) _ :=
      .binding blank_nil hname hafter ht
    refine ⟨before, name ++ after ++ 58 :: t, hbefore, by simp, hmember, ?_⟩
    cases hname with
    | quotes _ => exact ⟨34, _, rfl, rfl, by decide, by decide⟩

theorem arrayBody_starts {w s : Text} (hw : Blank w) (hs : Starts s) :
    arrayBody item fuel (w ++ s) = items item fuel s := by
  obtain ⟨c, t, rfl, hc, hclose, -⟩ := hs
  simp [arrayBody, skipBlank_append_cons hw hc, hclose]

theorem arrayBody_complete (hitem : Complete bound item val) (hval : ∀ s v, val s v → Starts s)
    {src : Text} {vs : List Json} (h : Separated (Padded val) src vs) (hb : src.length < bound)
    (hf : src.length < fuel) (rest : Text) :
    arrayBody item fuel (src ++ 93 :: rest) = .ok (vs, rest) := by
  obtain ⟨w, t, hw, rfl, hsep, hstarts⟩ := separated_trim (padded_trim hval) h
  rw [List.length_append] at hb hf
  rw [List.append_assoc, arrayBody_starts hw (hstarts.append _)]
  exact items_complete hitem hsep (by omega) (by omega) rest

theorem memberKey_complete {before name after key : Text} (hbefore : Blank before)
    (hname : Quoted name key) (hafter : Blank after) (hf : name.length < fuel) (rest : Text) :
    memberKey fuel (before ++ (name ++ (after ++ 58 :: rest))) = .ok (key, rest) := by
  cases hname with
  | @quotes s _ hs =>
    have hbody := stringBody_complete hs (show s.length < fuel by simp at hf; omega)
      (after ++ 58 :: rest)
    have hquote := skipBlank_append_cons hbefore (c := 34) rfl (s ++ 34 :: (after ++ 58 :: rest))
    have hcolon := skipBlank_append_cons hafter (c := 58) rfl rest
    simp [memberKey, hquote, hbody, hcolon]

theorem members_last {s mid after rest key : Text} {v : Json}
    (hk : memberKey (fuel + 1) s = .ok (key, mid)) (hi : item mid = .ok (v, after))
    (hskip : skipBlank after = 125 :: rest) :
    members item (fuel + 1) s = .ok ([(key, v)], rest) := by
  simp [members, hk, hi, hskip]

theorem members_next {s mid after rest key : Text} {v : Json}
    (hk : memberKey (fuel + 1) s = .ok (key, mid)) (hi : item mid = .ok (v, after))
    (hskip : skipBlank after = 44 :: rest) :
    members item (fuel + 1) s =
      (members item fuel rest).map fun r => ((key, v) :: r.1, r.2) := by
  cases hmore : members item fuel rest <;>
    simp [members, hk, hi, hskip, Byte.closeBrace, hmore, Except.map]

theorem members_complete (hitem : Complete bound item val) {src : Text}
    {ms : List (Text × Json)} (h : Separated (Member val) src ms) (hb : src.length < bound)
    (hf : src.length < fuel) (rest : Text) :
    members item fuel (src ++ 125 :: rest) = .ok (ms, rest) := by
  induction h generalizing fuel with
  | one hmember =>
    cases hmember with
    | @binding before name after _ key _ hbefore hname hafter hpad =>
      cases hpad with
      | @blanks before' s after' v hbefore' hv hafter' =>
        cases fuel with
        | zero => simp at hf
        | succ fuel =>
          have hi := hitem hbefore' hv (by simp at hb; omega)
            (endsValue_append hafter' (.inr (.inr rfl)) rest)
          have hk := memberKey_complete hbefore hname hafter
            (show name.length < fuel + 1 by simp at hf; omega)
            (before' ++ (s ++ (after' ++ 125 :: rest)))
          simp only [List.append_assoc, List.cons_append]
          exact members_last hk hi (skipBlank_append_cons hafter' rfl rest)
  | @more _ more _ _ hmember _ ih =>
    cases hmember with
    | @binding before name after _ key _ hbefore hname hafter hpad =>
      cases hpad with
      | @blanks before' s after' v hbefore' hv hafter' =>
        cases fuel with
        | zero => simp at hf
        | succ fuel =>
          have hmore := @ih fuel (by simp at hb; omega) (by simp at hf; omega)
          have hi := hitem hbefore' hv (by simp at hb; omega)
            (endsValue_append hafter' (.inl rfl) (more ++ 125 :: rest))
          have hk := memberKey_complete hbefore hname hafter
            (show name.length < fuel + 1 by simp at hf; omega)
            (before' ++ (s ++ (after' ++ 44 :: (more ++ 125 :: rest))))
          simp only [List.append_assoc, List.cons_append]
          rw [members_next hk hi (skipBlank_append_cons hafter' rfl _), hmore]
          rfl

theorem objectBody_starts {w s : Text} (hw : Blank w) (hs : Starts s) :
    objectBody item fuel (w ++ s) = members item fuel s := by
  obtain ⟨c, t, rfl, hc, -, hclose⟩ := hs
  simp [objectBody, skipBlank_append_cons hw hc, hclose]

theorem objectBody_complete (hitem : Complete bound item val) {src : Text}
    {ms : List (Text × Json)} (h : Separated (Member val) src ms) (hb : src.length < bound)
    (hf : src.length < fuel) (rest : Text) :
    objectBody item fuel (src ++ 125 :: rest) = .ok (ms, rest) := by
  obtain ⟨w, t, hw, rfl, hsep, hstarts⟩ := separated_trim member_trim h
  rw [List.length_append] at hb hf
  rw [List.append_assoc, objectBody_starts hw (hstarts.append _)]
  exact members_complete hitem hsep (by omega) (by omega) rest

theorem valueWith_append {w : Text} (hw : Blank w) (nested : Option (Text → Read Json))
    (s : Text) : valueWith fuel nested (w ++ s) = valueWith fuel nested s := by
  simp only [valueWith, skipBlank_append hw]

theorem valueWith_string (nested : Option (Text → Read Json)) {src t : Text}
    (h : Characters src t) (hf : src.length < fuel) (rest : Text) :
    valueWith fuel nested (34 :: (src ++ 34 :: rest)) = .ok (.string t, rest) := by
  simp [valueWith, skipBlank_cons (show isBlank 34 = false from rfl), Byte.openBrace,
    Byte.openBracket, stringBody_complete h hf]

theorem valueWith_array (s : Text) :
    valueWith fuel (some item) (91 :: s) =
      (arrayBody item fuel s).map fun r => (.array r.1, r.2) := by
  cases h : arrayBody item fuel s <;>
    simp [valueWith, skipBlank_cons (show isBlank 91 = false from rfl), Byte.openBrace, h,
      Except.map]

theorem valueWith_object (s : Text) :
    valueWith fuel (some item) (123 :: s) =
      (objectBody item fuel s).map fun r => (ofMembers r.1, r.2) := by
  cases h : objectBody item fuel s <;>
    simp [valueWith, skipBlank_cons (show isBlank 123 = false from rfl), h, Except.map]

def StartsNumeral (c : UInt8) : Prop := c = 45 ∨ 48 ≤ c.toNat ∧ c.toNat ≤ 57

instance : DecidablePred StartsNumeral := fun c =>
  inferInstanceAs (Decidable (c = 45 ∨ 48 ≤ c.toNat ∧ c.toNat ≤ 57))

theorem StartsNumeral.ne {c d : UInt8} (hc : StartsNumeral c) (hd : ¬ StartsNumeral d) : c ≠ d := by
  rintro rfl
  exact hd hc

theorem StartsNumeral.not_blank {c : UInt8} (hc : StartsNumeral c) : isBlank c = false := by
  rw [Bool.eq_false_iff, ne_eq, isBlank_iff]
  rintro (rfl | rfl | rfl | rfl) <;> exact absurd hc (by decide)

theorem written_head {src : Text} {n : Numeral} (h : Written src n) :
    ∃ c t, src = c :: t ∧ StartsNumeral c := by
  cases h with
  | @parts sign whole point power _ _ _ hsign hwhole _ _ =>
    cases hsign with
    | present => exact ⟨45, whole ++ point ++ power, rfl, .inl rfl⟩
    | absent =>
      cases hwhole with
      | zero => exact ⟨48, point ++ power, rfl, .inr (by decide)⟩
      | @positive c ds h₁ h₂ _ => exact ⟨c, ds ++ point ++ power, rfl, .inr ⟨by omega, h₂⟩⟩

theorem valueWith_number (nested : Option (Text → Read Json)) {src rest : Text} {n : Numeral}
    (h : Written src n) (hr : EndsNumber rest) :
    valueWith fuel nested (src ++ rest) = .ok (.number n.value, rest) := by
  have hn := numeral_complete h hr
  obtain ⟨c, t, rfl, hc⟩ := written_head h
  have hsign : c = Byte.minus ∨ Byte.isDigit c = true := by
    rw [Byte.isDigit_iff]
    exact hc
  have hne := fun (d : UInt8) (hd : ¬ StartsNumeral d) => hc.ne hd
  rw [List.cons_append] at hn ⊢
  simp [valueWith, skipBlank_cons hc.not_blank, hne 123 (by decide), hne 91 (by decide),
    hne 34 (by decide), hne 116 (by decide), hne 102 (by decide), hne 110 (by decide), hsign, hn]

theorem valueWith_scalar (nested : Option (Text → Read Json)) {src rest : Text} {v : Json}
    (h : Scalar src v) (hf : src.length < fuel) (hr : EndsValue rest) :
    valueWith fuel nested (src ++ rest) = .ok (v, rest) := by
  cases h with
  | null => rfl
  | false => rfl
  | true => rfl
  | string hq =>
    cases hq with
    | @quotes s t hs =>
      have hlen : s.length < fuel := by simp at hf; omega
      simpa using valueWith_string nested hs hlen rest
  | number hw hd =>
    rw [valueWith_number nested hw hr.endsNumber, value_eq_of_denotes hd]

theorem scalar_starts {s : Text} {v : Json} (h : Scalar s v) : Starts s := by
  cases h with
  | null => exact ⟨110, _, rfl, by decide⟩
  | false => exact ⟨102, _, rfl, by decide⟩
  | true => exact ⟨116, _, rfl, by decide⟩
  | string hq =>
    cases hq with
    | quotes _ => exact ⟨34, _, rfl, by decide⟩
  | number hw _ =>
    obtain ⟨c, t, rfl, hc⟩ := written_head hw
    exact ⟨c, t, rfl, hc.not_blank, hc.ne (by decide), hc.ne (by decide)⟩

theorem value_starts {depth : Nat} (s : Text) (v : Json) (h : Value depth s v) : Starts s := by
  cases depth with
  | zero => exact scalar_starts h
  | succ depth =>
    rcases h with h | h
    · exact scalar_starts h
    · cases h with
      | emptyArray _ => exact ⟨91, _, rfl, by decide⟩
      | array _ => exact ⟨91, _, rfl, by decide⟩
      | emptyObject _ => exact ⟨123, _, rfl, by decide⟩
      | object _ _ => exact ⟨123, _, rfl, by decide⟩

theorem valueWith_container (hitem : Complete fuel item val) (hval : ∀ s v, val s v → Starts s)
    {src : Text} {v : Json} (h : Container val src v) (hf : src.length < fuel) (rest : Text) :
    valueWith fuel (some item) (src ++ rest) = .ok (v, rest) := by
  cases h with
  | @emptyArray s hs =>
    simp only [List.cons_append, List.append_assoc, List.nil_append]
    rw [valueWith_array, arrayBody, skipBlank_append_cons hs rfl]
    rfl
  | @array s vs hsep =>
    have hlen : s.length < fuel := by simp at hf; omega
    simp only [List.cons_append, List.append_assoc, List.nil_append]
    rw [valueWith_array, arrayBody_complete hitem hval hsep hlen hlen]
    rfl
  | @emptyObject s hs =>
    simp only [List.cons_append, List.append_assoc, List.nil_append]
    rw [valueWith_object, objectBody, skipBlank_append_cons hs rfl]
    rfl
  | @object s written obj hsep hmerged =>
    have hlen : s.length < fuel := by simp at hf; omega
    simp only [List.cons_append, List.append_assoc, List.nil_append]
    rw [valueWith_object, objectBody_complete hitem hsep hlen hlen,
      eq_ofBindings_of_merged hmerged]
    rfl

theorem value_complete (fuel limit : Nat) : Complete fuel (value fuel limit) (Value limit) := by
  induction limit with
  | zero =>
    intro w src rest v hw hv hf hr
    rw [value, valueWith_append hw]
    exact valueWith_scalar none hv hf hr
  | succ limit ih =>
    intro w src rest v hw hv hf hr
    rw [value, valueWith_append hw]
    rcases hv with hv | hv
    · exact valueWith_scalar _ hv hf hr
    · exact valueWith_container ih value_starts hv hf rest

end Completeness

theorem document_sound {s : Text} {v : Json} (h : document s = .ok v) : Document maxDepth s v := by
  unfold document at h
  cases hv : value (s.length + 1) maxDepth s with
  | error stop => simp [hv] at h
  | ok result =>
    obtain ⟨v', rest⟩ := result
    obtain ⟨w, src, hw, hsrc, hs⟩ := value_sound _ _ hv
    obtain ⟨w', hw', hrest⟩ := exists_blank_append_skipBlank rest
    simp only [hv] at h
    cases hskip : skipBlank rest with
    | nil =>
      simp [hskip] at h
      subst h
      rw [hskip, List.append_nil] at hrest
      rw [hs, hrest, ← List.append_assoc]
      exact .blanks hw hsrc hw'
    | cons c t => simp [hskip] at h

theorem document_complete {s : Text} {v : Json} (h : Document maxDepth s v) :
    document s = .ok v := by
  cases h with
  | @blanks before src after _ hbefore hv hafter =>
    have hvalue := value_complete ((before ++ src ++ after).length + 1) maxDepth hbefore hv
      (by simp only [List.length_append]; omega) (endsValue_blank hafter)
    rw [← List.append_assoc] at hvalue
    rw [document, hvalue]
    simp only [skipBlank_blank hafter]

/-- A text is accepted with a value exactly if the grammar derives that value for it with at most
512 containers open at once. -/
theorem parse_eq_ok_iff_derives (text : Text) (v : Json) :
    parse text = .ok v ↔ Document 512 text v := by
  constructor
  · intro h
    apply document_sound
    unfold parse at h
    split at h
    · rename_i hd
      cases h
      exact hd
    · cases h
  · intro h
    simp [parse, document_complete h]

end Bindery.Json
