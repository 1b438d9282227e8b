import Bindery.Json.Printer
import Bindery.Proofs.Json.Language

/-!
Printing and reading back. A value without binary64 numbers comes back as it was, but that an
unsigned number a signed one can hold comes back signed; a value that nests too deep is refused for
just that reason, both with and without indentation.
-/

set_option autoImplicit false

namespace Bindery

/-- The number as reading its text gives it: signed if a signed one can hold it. -/
def Number.reread : Number → Number
  | .nat n => if n.toNat < 2 ^ 63 then .int (Int64.ofNat n.toNat) else .nat n
  | x => x

namespace Json

open Grammar

/-- Induction over a value whose containers are looked at as collections of items. -/
theorem induction {motive : Json → Prop} (null : motive null) (bool : ∀ b, motive (bool b))
    (number : ∀ n, motive (number n)) (string : ∀ s, motive (string s))
    (array : ∀ items, (∀ v ∈ items, motive v) → motive (array items))
    (object : ∀ members, (∀ m ∈ members, motive m.2) → motive (object members)) (v : Json) :
    motive v := by
  refine @Json.rec motive (fun items => ∀ v ∈ items, motive v)
    (fun members => ∀ m ∈ members, motive m.2) (fun m => motive m.2)
    null bool number string array object ?_ ?_ ?_ ?_ ?_ v
  · simp
  · intro v vs hv hvs w hw
    rcases List.mem_cons.mp hw with rfl | hw
    · exact hv
    · exact hvs w hw
  · simp
  · intro m ms hm hms w hw
    rcases List.mem_cons.mp hw with rfl | hw
    · exact hm
    · exact hms w hw
  · intro key v hv
    exact hv

mutual

/-- No number is a binary64, and the members of every object are in increasing order. -/
def Exact : Json → Prop
  | number (.real _) => False
  | array items => ExactItems items
  | object members => Sorted.KeysIncrease Text.before members ∧ ExactMembers members
  | _ => True

def ExactItems : List Json → Prop
  | [] => True
  | v :: vs => Exact v ∧ ExactItems vs

def ExactMembers : List (Text × Json) → Prop
  | [] => True
  | (_, v) :: vs => Exact v ∧ ExactMembers vs

end

mutual

def reread : Json → Json
  | number n => number n.reread
  | array items => array (rereadItems items)
  | object members => object (rereadMembers members)
  | v => v

def rereadItems : List Json → List Json
  | [] => []
  | v :: vs => reread v :: rereadItems vs

def rereadMembers : List (Text × Json) → List (Text × Json)
  | [] => []
  | (key, v) :: vs => (key, reread v) :: rereadMembers vs

end

theorem hexDigit_hexDigit {n : Nat} (h : n < 16) : HexDigit (hexDigit n) n := by
  unfold hexDigit
  split
  · rename_i hlt
    have hn := Byte.toNat_ofDigit hlt
    have hd := HexDigit.decimal (c := Byte.ofDigit n) (by omega) (by omega)
    rwa [hn, Nat.add_sub_cancel_left] at hd
  · have hn : (UInt8.ofNat (87 + n)).toNat = 87 + n :=
      UInt8.toNat_ofNat_of_lt (by show 87 + n < 256; omega)
    have hd := HexDigit.lower (c := UInt8.ofNat (87 + n)) (by omega) (by omega)
    rwa [hn, show 87 + n - 97 + 10 = n by omega] at hd

theorem character_control {c : UInt8} (hc : c < 32) :
    Character ("\\u00" ++ [hexDigit (c.toNat / 16), hexDigit (c.toNat % 16)]) [c] := by
  have hlt : c.toNat < 32 := UInt8.lt_iff_toNat_lt.mp hc
  obtain ⟨ch, hch⟩ := exists_char (n := c.toNat) (by omega)
  have hzero : HexDigit 48 0 := .decimal (c := 48) (by decide) (by decide)
  have hquad : HexQuad [48, 48, hexDigit (c.toNat / 16), hexDigit (c.toNat % 16)] ch.toNat := by
    have hq := HexQuad.digits hzero hzero (hexDigit_hexDigit (n := c.toNat / 16) (by omega))
      (hexDigit_hexDigit (n := c.toNat % 16) (by omega))
    rwa [show 4096 * 0 + 256 * 0 + 16 * (c.toNat / 16) + c.toNat % 16 = ch.toNat by omega] at hq
  have hbytes : String.utf8EncodeChar ch = [c] := by
    rw [← utf8_toNat, hch, utf8, if_pos (by omega), UInt8.ofNat_toNat]
  have h := Character.scalar hquad
  rwa [hbytes] at h

theorem character_escapeByte (c : UInt8) : Character (escapeByte c) [c] := by
  unfold escapeByte
  split_ifs with h₁ h₂ h₃ h₄ h₅ h₆ h₇ h₈
  · subst h₁
    exact .short .quote
  · subst h₂
    exact .short .backslash
  · subst h₃
    exact .short .backspace
  · subst h₄
    exact .short .formFeed
  · subst h₅
    exact .short .lineFeed
  · subst h₆
    exact .short .carriageReturn
  · subst h₇
    exact .short .tab
  · exact character_control h₈
  · exact .plain (UInt8.not_lt.mp h₈) h₁ h₂

theorem characters_flatMap (s : Text) : Characters (s.flatMap escapeByte) s := by
  induction s with
  | nil => exact .nil
  | cons c s ih => exact .cons (character_escapeByte c) ih

theorem quoted_quote (s : Text) : Quoted (quote s) s := .quotes (characters_flatMap s)

theorem whole_decimal (n : Nat) : Whole (decimal n) := by
  have hmem := fun c (hc : c ∈ decimal n) => Byte.isDigit_iff.mp (isDigit_of_mem_decimal hc)
  obtain ⟨c, t, hn, hc, hzero⟩ := decimal_eq_cons n
  rw [hn] at hmem ⊢
  by_cases h : c = Byte.zero
  · rw [hzero h, h]
    exact .zero
  · have hne : c.toNat ≠ 48 := fun he => h (UInt8.toNat_inj.mp he)
    have hrange := hmem c (by simp)
    exact .positive (by omega) hrange.2 fun d hd => hmem d (by simp [hd])

theorem written_decimalInt (z : Int) :
    Written (decimalInt z) ⟨decide (z < 0), decimal z.natAbs, none, none⟩ := by
  have hw := whole_decimal z.natAbs
  cases z with
  | ofNat n =>
    have hz : decide (Int.ofNat n < 0) = false := decide_eq_false (by simp)
    have h := Written.parts .absent hw .absent .absent
    rw [hz]
    simpa [decimalInt] using h
  | negSucc n =>
    have h := Written.parts .present hw .absent .absent
    simpa [decimalInt] using h

theorem integerValue_decimal (z : Int) :
    IntegerValue ⟨decide (z < 0), decimal z.natAbs, none, none⟩ z := by
  rw [integerValue_iff, digitsValue_decimal]
  refine ⟨rfl, rfl, ?_⟩
  by_cases hz : z < 0
  · rw [decide_eq_true hz, if_pos rfl]
    omega
  · rw [decide_eq_false hz, if_neg Bool.false_ne_true]
    omega

theorem scalar_numberText {n : Number} (hn : ∀ x, n ≠ .real x) :
    Scalar (numberText n) (.number n.reread) := by
  cases n with
  | int i => exact .number (written_decimalInt i.toInt) (.int (integerValue_decimal i.toInt))
  | nat n =>
    refine .number (written_decimalInt n.toNat) ?_
    have hz := integerValue_decimal n.toNat
    by_cases hlt : n.toNat < 2 ^ 63
    · rw [Number.reread, if_pos hlt]
      exact .int (by rwa [Int64.toInt_ofNat_of_lt hlt])
    · rw [Number.reread, if_neg hlt]
      exact .nat hz (by omega)
  | real x => exact absurd rfl (hn x)

theorem blank_lineBreak (indent depth : Nat) : Blank (lineBreak indent depth) := by
  unfold lineBreak
  split
  · exact blank_nil
  · intro c hc
    rcases List.mem_cons.mp hc with rfl | hc
    · exact .inr (.inr (.inl rfl))
    · exact .inl (List.eq_of_mem_replicate hc)

theorem separator_eq (indent : Nat) : ∃ w, Blank w ∧ separator indent = 58 :: w := by
  unfold separator
  split
  · exact ⟨[], blank_nil, rfl⟩
  · exact ⟨[32], by simp [Blank], rfl⟩

theorem itemsOnto_endsValue (indent depth : Nat) (vs : List Json) {tail : Text}
    (h : EndsValue tail) : EndsValue (itemsOnto indent depth vs tail) := by
  cases vs with
  | nil => exact h
  | cons v vs => exact endsValue_append blank_nil (.inl rfl) _

theorem membersOnto_endsValue (indent depth : Nat) (ms : List (Text × Json)) {tail : Text}
    (h : EndsValue tail) : EndsValue (membersOnto indent depth ms tail) := by
  cases ms with
  | nil => exact h
  | cons m ms => exact endsValue_append blank_nil (.inl rfl) _

theorem itemsOnto_append {indent depth : Nat} {vs : List Json} (h : ∀ v ∈ vs, ∀ tail more,
      renderOnto indent depth v (tail ++ more) = renderOnto indent depth v tail ++ more)
    (tail more : Text) :
    itemsOnto indent depth vs (tail ++ more) = itemsOnto indent depth vs tail ++ more := by
  induction vs with
  | nil => rfl
  | cons v vs ih =>
    have hmore := ih fun u hu => h u (by simp [hu])
    simp only [itemsOnto, hmore, h v (by simp), List.cons_append, List.append_assoc]

theorem membersOnto_append {indent depth : Nat} {ms : List (Text × Json)}
    (h : ∀ m ∈ ms, ∀ tail more,
      renderOnto indent depth m.2 (tail ++ more) = renderOnto indent depth m.2 tail ++ more)
    (tail more : Text) :
    membersOnto indent depth ms (tail ++ more) = membersOnto indent depth ms tail ++ more := by
  induction ms with
  | nil => rfl
  | cons m ms ih =>
    have hmore := ih fun u hu => h u (by simp [hu])
    simp only [membersOnto, hmore, h m (by simp), List.cons_append, List.append_assoc]

theorem renderOnto_append (indent : Nat) (v : Json) (depth : Nat) (tail more : Text) :
    renderOnto indent depth v (tail ++ more) = renderOnto indent depth v tail ++ more := by
  induction v using Json.induction generalizing depth tail more with
  | null | bool | number | string => simp only [renderOnto, List.append_assoc]
  | array items ih =>
    cases items with
    | nil => simp only [renderOnto, List.append_assoc]
    | cons v vs =>
      have hmore := @itemsOnto_append indent (depth + 1) vs
        fun u hu => ih u (by simp [hu]) (depth + 1)
      simp only [renderOnto, ← hmore, ← ih v (by simp), List.cons_append, List.append_assoc]
  | object ms ih =>
    cases ms with
    | nil => simp only [renderOnto, List.cons_append]
    | cons m ms =>
      have hmore := @membersOnto_append indent (depth + 1) ms
        fun u hu => ih u (by simp [hu]) (depth + 1)
      simp only [renderOnto, ← hmore, ← ih m (by simp), List.cons_append, List.append_assoc]

theorem length_le_renderOnto (indent depth : Nat) (v : Json) (tail : Text) :
    tail.length ≤ (renderOnto indent depth v tail).length := by
  have happend := renderOnto_append indent v depth [] tail
  rw [List.nil_append] at happend
  rw [happend, List.length_append]
  omega

theorem length_lt_itemsOnto (indent depth : Nat) (v : Json) (vs : List Json) (tail : Text) :
    (renderOnto indent depth v (itemsOnto indent depth vs tail)).length <
      (itemsOnto indent depth (v :: vs) tail).length := by
  simp only [itemsOnto, List.length_cons, List.length_append]
  omega

theorem length_lt_membersOnto (indent depth : Nat) (m : Text × Json) (ms : List (Text × Json))
    (tail : Text) :
    (quote m.1 ++ (separator indent ++
      renderOnto indent depth m.2 (membersOnto indent depth ms tail))).length <
      (membersOnto indent depth (m :: ms) tail).length := by
  simp only [membersOnto, List.length_cons, List.length_append]
  omega

theorem quote_starts (s : Text) : Starts (quote s) := ⟨34, _, rfl, by decide⟩

theorem renderOnto_scalar {v : Json} (hv : Exact v) (hd : v.depth = 0) :
    ∃ src, Scalar src v.reread ∧
      ∀ indent depth tail, renderOnto indent depth v tail = src ++ tail := by
  cases v with
  | null => exact ⟨_, .null, fun _ _ _ => rfl⟩
  | bool b =>
    cases b with
    | false => exact ⟨_, .false, fun _ _ _ => rfl⟩
    | true => exact ⟨_, .true, fun _ _ _ => rfl⟩
  | number n =>
    have hn : ∀ x, n ≠ .real x := by
      rintro x rfl
      exact hv
    exact ⟨_, scalar_numberText hn, fun _ _ _ => rfl⟩
  | string s => exact ⟨_, .string (quoted_quote s), fun _ _ _ => rfl⟩
  | array items => exact absurd hd (Nat.succ_ne_zero _)
  | object members => exact absurd hd (Nat.succ_ne_zero _)

theorem renderOnto_starts {v : Json} (hv : Exact v) (indent depth : Nat) (tail : Text) :
    Starts (renderOnto indent depth v tail) := by
  cases v with
  | array items => cases items <;> exact ⟨91, _, rfl, by decide⟩
  | object members => cases members <;> exact ⟨123, _, rfl, by decide⟩
  | _ =>
    obtain ⟨src, hsrc, htext⟩ := renderOnto_scalar hv rfl
    rw [htext]
    exact (scalar_starts hsrc).append tail

/-- The outcome of reading something that nests `depth` containers where `limit` are allowed. -/
def Within {α : Type} (limit depth : Nat) (r : Read α) (a : α) (rest : Text) : Prop :=
  (depth ≤ limit → r = .ok (a, rest)) ∧
    (limit < depth → ∃ stop, r = .error stop ∧ stop.fault = .tooDeep)

theorem within_zero {α : Type} {limit : Nat} {r : Read α} {a : α} {rest : Text}
    (h : r = .ok (a, rest)) : Within limit 0 r a rest :=
  ⟨fun _ => h, fun hlt => absurd hlt (Nat.not_lt_zero limit)⟩

theorem Within.map {α β : Type} {limit depth : Nat} {r : Read α} {a : α} {rest : Text}
    (f : α → β) (h : Within limit depth r a rest) :
    Within limit depth (r.map fun p => (f p.1, p.2)) (f a) rest := by
  refine ⟨fun hle => ?_, fun hlt => ?_⟩
  · rw [h.1 hle]
    rfl
  · obtain ⟨stop, hr, hstop⟩ := h.2 hlt
    exact ⟨stop, by rw [hr]; rfl, hstop⟩

/-- One thing read after another: a failure of the first is that of both. -/
theorem Within.next {α β : Type} {limit d e : Nat} {r : Read α} {s t : Read β} {a : α} {b : β}
    {mid rest : Text} (hr : Within limit d r a mid) (ht : Within limit e t b rest)
    (hok : r = .ok (a, mid) → s = t) (herror : ∀ stop, r = .error stop → s = .error stop) :
    Within limit (max d e) s b rest := by
  -- the first to nest too deep decides, so the depths are compared one after the other
  by_cases hd : d ≤ limit
  · rw [hok (hr.1 hd)]
    exact ⟨fun hle => ht.1 (by omega), fun hlt => ht.2 (by omega)⟩
  · refine ⟨fun hle => by omega, fun _ => ?_⟩
    obtain ⟨stop, hstop, hdeep⟩ := hr.2 (by omega)
    exact ⟨stop, herror stop hstop, hdeep⟩

theorem items_error {item : Text → Read Json} {fuel : Nat} {s : Text} {stop : Stop}
    (h : item s = .error stop) : items item (fuel + 1) s = .error stop := by
  simp [items, h]

theorem members_error {item : Text → Read Json} {fuel : Nat} {s mid key : Text} {stop : Stop}
    (hk : memberKey (fuel + 1) s = .ok (key, mid)) (h : item mid = .error stop) :
    members item (fuel + 1) s = .error stop := by
  simp [members, hk, h]

section
variable (limit fuel indent depth : Nat)

/-- What `item` makes of a printed value, with blanks before it and `tail` behind. -/
def Rereads (item : Text → Read Json) (v : Json) : Prop :=
  ∀ ⦃w tail : Text⦄, Blank w → EndsValue tail → (renderOnto indent depth v tail).length < fuel →
    Within limit v.depth (item (w ++ renderOnto indent depth v tail)) v.reread tail

end

variable {limit bound indent depth : Nat} {item : Text → Read Json}

theorem items_printed {vs : List Json} {v : Json} {w stop tail : Text} {fuel : Nat}
    (hitem : ∀ u ∈ v :: vs, Rereads limit bound indent depth item u) (hstop : Blank stop)
    (hw : Blank w) (hf : (renderOnto indent depth v (itemsOnto indent depth vs
      (stop ++ 93 :: tail))).length < fuel) (hle : fuel ≤ bound) :
    Within limit (depthItems (v :: vs)) (items item fuel (w ++ renderOnto indent depth v
      (itemsOnto indent depth vs (stop ++ 93 :: tail)))) (rereadItems (v :: vs)) tail := by
  obtain ⟨fuel, rfl⟩ : ∃ n, fuel = n + 1 := ⟨fuel - 1, by omega⟩
  have hends : EndsValue (stop ++ 93 :: tail) := endsValue_append hstop (.inr (.inl rfl)) tail
  induction vs generalizing v w fuel with
  | nil =>
    have hv := hitem v (by simp) hw hends (Nat.lt_of_lt_of_le hf hle)
    refine hv.next (within_zero rfl) (fun hok => ?_) (fun stop herr => items_error herr)
    exact items_last hok (skipBlank_append_cons hstop rfl tail)
  | cons u us ih =>
    have hends' := itemsOnto_endsValue indent depth (u :: us) hends
    have hv := hitem v (by simp) hw hends' (Nat.lt_of_lt_of_le hf hle)
    -- every item takes a comma of the text at least, so the fuel outlasts the items
    have hlen := length_le_renderOnto indent depth v
      (itemsOnto indent depth (u :: us) (stop ++ 93 :: tail))
    have hlt := length_lt_itemsOnto indent depth u us (stop ++ 93 :: tail)
    obtain ⟨fuel, rfl⟩ : ∃ n, fuel = n + 1 := ⟨fuel - 1, by omega⟩
    have hmore := ih (fun x hx => hitem x (List.mem_cons_of_mem v hx))
      (blank_lineBreak indent depth) fuel (by omega) (by omega)
    refine hv.next (hmore.map (v.reread :: ·)) (fun hok => ?_) (fun stop herr => items_error herr)
    exact items_next hok (skipBlank_append_cons blank_nil rfl _)

theorem member_printed {fuel : Nat} {key w tail : Text} {v : Json}
    (hv : Rereads limit bound indent depth item v) (hw : Blank w) (htail : EndsValue tail)
    (hf : (quote key ++ (separator indent ++ renderOnto indent depth v tail)).length < fuel)
    (hle : fuel ≤ bound) :
    ∃ mid, memberKey fuel (w ++ (quote key ++ (separator indent ++
        renderOnto indent depth v tail))) = .ok (key, mid) ∧
      Within limit v.depth (item mid) v.reread tail := by
  obtain ⟨sep, hsep, hcolon⟩ := separator_eq indent
  simp only [List.length_append] at hf
  refine ⟨sep ++ renderOnto indent depth v tail, ?_, hv hsep htail (by omega)⟩
  rw [hcolon]
  exact memberKey_complete hw (quoted_quote key) blank_nil (by omega) _

theorem members_printed {ms : List (Text × Json)} {m : Text × Json} {w stop tail : Text}
    {fuel : Nat} (hitem : ∀ u ∈ m :: ms, Rereads limit bound indent depth item u.2)
    (hstop : Blank stop) (hw : Blank w)
    (hf : (quote m.1 ++ (separator indent ++ renderOnto indent depth m.2
      (membersOnto indent depth ms (stop ++ 125 :: tail)))).length < fuel) (hle : fuel ≤ bound) :
    Within limit (depthMembers (m :: ms)) (members item fuel (w ++ (quote m.1 ++
      (separator indent ++ renderOnto indent depth m.2
        (membersOnto indent depth ms (stop ++ 125 :: tail))))))
      (rereadMembers (m :: ms)) tail := by
  obtain ⟨fuel, rfl⟩ : ∃ n, fuel = n + 1 := ⟨fuel - 1, by omega⟩
  have hends : EndsValue (stop ++ 125 :: tail) := endsValue_append hstop (.inr (.inr rfl)) tail
  induction ms generalizing m w fuel with
  | nil =>
    obtain ⟨mid, hkey, hv⟩ := member_printed (hitem m (by simp)) hw hends hf hle
    refine hv.next (within_zero rfl) (fun hok => ?_) (fun stop herr => members_error hkey herr)
    exact members_last hkey hok (skipBlank_append_cons hstop rfl tail)
  | cons u us ih =>
    have hends' := membersOnto_endsValue indent depth (u :: us) hends
    obtain ⟨mid, hkey, hv⟩ := member_printed (hitem m (by simp)) hw hends' hf hle
    have hlen := length_le_renderOnto indent depth m.2
      (membersOnto indent depth (u :: us) (stop ++ 125 :: tail))
    have hlt := length_lt_membersOnto indent depth u us (stop ++ 125 :: tail)
    rw [List.length_append, List.length_append] at hf
    obtain ⟨fuel, rfl⟩ : ∃ n, fuel = n + 1 := ⟨fuel - 1, by omega⟩
    have hmore := ih (fun x hx => hitem x (List.mem_cons_of_mem m hx))
      (blank_lineBreak indent depth) fuel (by omega) (by omega)
    refine hv.next (hmore.map ((m.1, m.2.reread) :: ·)) (fun hok => ?_)
      (fun stop herr => members_error hkey herr)
    exact members_next hkey hok (skipBlank_append_cons blank_nil rfl _)

theorem Within.succ {α : Type} {limit depth : Nat} {r : Read α} {a : α} {rest : Text}
    (h : Within limit depth r a rest) : Within (limit + 1) (depth + 1) r a rest :=
  ⟨fun hle => h.1 (by omega), fun hlt => h.2 (by omega)⟩

theorem within_closed {fuel d : Nat} {c : UInt8} (hc : c = 91 ∨ c = 123) {w : Text} (hw : Blank w)
    (s : Text) (v : Json) (rest : Text) :
    Within 0 (d + 1) (value fuel 0 (w ++ c :: s)) v rest := by
  refine ⟨fun hle => absurd hle (by omega), fun _ => ⟨⟨.tooDeep, c :: s⟩, ?_, rfl⟩⟩
  rw [value, valueWith_append hw]
  rcases hc with rfl | rfl <;> rfl

theorem rereads_scalar {fuel : Nat} {v : Json} (hv : Exact v) (hd : v.depth = 0) :
    Rereads limit fuel indent depth (value fuel limit) v := by
  intro w tail hw htail hf
  obtain ⟨src, hsrc, htext⟩ := renderOnto_scalar hv hd
  rw [htext, List.length_append] at hf
  rw [hd, htext]
  apply within_zero
  cases limit <;> exact (valueWith_append hw _ _).trans (valueWith_scalar _ hsrc (by omega) htail)

theorem rereads_array {fuel : Nat} {vs : List Json} (hvs : ∀ v ∈ vs, Exact v)
    (ih : ∀ v ∈ vs, ∀ limit depth, Rereads limit fuel indent depth (value fuel limit) v) :
    Rereads limit fuel indent depth (value fuel limit) (array vs) := by
  intro w tail hw htail hf
  cases limit with
  | zero => cases vs <;> exact within_closed (.inl rfl) hw _ _ _
  | succ limit =>
    rw [value, valueWith_append hw]
    apply Within.succ
    cases vs with
    | nil => exact within_zero rfl
    | cons v vs =>
      have hstarts := renderOnto_starts (hvs v (by simp)) indent (depth + 1)
        (itemsOnto indent (depth + 1) vs (lineBreak indent depth ++ 93 :: tail))
      simp only [renderOnto, Byte.openBracket, Byte.closeBracket] at hf ⊢
      rw [List.length_cons, List.length_append] at hf
      rw [valueWith_array, arrayBody_starts (blank_lineBreak indent (depth + 1)) hstarts]
      apply Within.map array
      exact items_printed (w := []) (fun u hu => ih u hu limit (depth + 1))
        (blank_lineBreak indent depth) blank_nil (by omega) (Nat.le_refl fuel)

theorem keys_rereadMembers (ms : List (Text × Json)) :
    (rereadMembers ms).map Prod.fst = ms.map Prod.fst := by
  induction ms with
  | nil => rfl
  | cons m ms ih => simp only [rereadMembers, List.map_cons, ih]

theorem ofMembers_rereadMembers {ms : List (Text × Json)}
    (h : Sorted.KeysIncrease Text.before ms) :
    ofMembers (rereadMembers ms) = object (rereadMembers ms) := by
  have hkeys : ((rereadMembers ms).map Prod.fst).Pairwise fun a b => Text.before a b = true := by
    rw [keys_rereadMembers]
    exact List.pairwise_map.mpr h
  rw [ofMembers_eq, Sorted.ofBindings_of_increasing Text.before_isOrder]
  exact List.pairwise_map.mp hkeys

theorem rereads_object {fuel : Nat} {ms : List (Text × Json)}
    (hms : Sorted.KeysIncrease Text.before ms)
    (ih : ∀ m ∈ ms, ∀ limit depth, Rereads limit fuel indent depth (value fuel limit) m.2) :
    Rereads limit fuel indent depth (value fuel limit) (object ms) := by
  intro w tail hw htail hf
  cases limit with
  | zero => cases ms <;> exact within_closed (.inr rfl) hw _ _ _
  | succ limit =>
    rw [value, valueWith_append hw]
    apply Within.succ
    cases ms with
    | nil => exact within_zero rfl
    | cons m ms =>
      simp only [renderOnto, Byte.openBrace, Byte.closeBrace] at hf ⊢
      rw [List.length_cons, List.length_append] at hf
      -- keys that increase stay as they are when the members are put in one by one
      rw [valueWith_object, objectBody_starts (blank_lineBreak indent (depth + 1))
        ((quote_starts m.1).append _), reread, ← ofMembers_rereadMembers hms]
      apply Within.map ofMembers
      exact members_printed (w := []) (fun u hu => ih u hu limit (depth + 1))
        (blank_lineBreak indent depth) blank_nil (by omega) (Nat.le_refl fuel)

theorem exact_of_mem_items {vs : List Json} (h : ExactItems vs) : ∀ v ∈ vs, Exact v := by
  induction vs with
  | nil => simp
  | cons v vs ih => exact List.forall_mem_cons.mpr ⟨h.1, ih h.2⟩

theorem exact_of_mem_members {ms : List (Text × Json)} (h : ExactMembers ms) :
    ∀ m ∈ ms, Exact m.2 := by
  induction ms with
  | nil => simp
  | cons m ms ih => exact List.forall_mem_cons.mpr ⟨h.1, ih h.2⟩

theorem rereads_value (fuel indent : Nat) {v : Json} (hv : Exact v) (limit depth : Nat) :
    Rereads limit fuel indent depth (value fuel limit) v := by
  induction v using Json.induction generalizing limit depth with
  | null | bool | number | string => exact rereads_scalar hv rfl
  | array vs ih =>
    have hvs := exact_of_mem_items hv
    exact rereads_array hvs fun v hmem => ih v hmem (hvs v hmem)
  | object ms ih =>
    have hms := exact_of_mem_members hv.2
    exact rereads_object hv.1 fun m hmem => ih m hmem (hms m hmem)

theorem document_renderOnto {v : Json} (hv : Exact v) (indent : Nat) {w : Text} (hw : Blank w) :
    (v.depth ≤ maxDepth → document (renderOnto indent 0 v w) = .ok v.reread) ∧
    (maxDepth < v.depth →
      ∃ stop, document (renderOnto indent 0 v w) = .error stop ∧ stop.fault = .tooDeep) := by
  have h := rereads_value _ indent hv maxDepth 0 blank_nil (endsValue_blank hw)
    (Nat.lt_succ_self (renderOnto indent 0 v w).length)
  rw [List.nil_append] at h
  refine ⟨fun hle => ?_, fun hlt => ?_⟩
  · simp [document, h.1 hle, skipBlank_blank hw]
  · obtain ⟨stop, hstop, hdeep⟩ := h.2 hlt
    exact ⟨stop, by simp [document, hstop], hdeep⟩

theorem parse_renderOnto {v : Json} (hv : Exact v) (indent : Nat) {w : Text} (hw : Blank w) :
    (v.depth ≤ 512 → parse (renderOnto indent 0 v w) = .ok v.reread) ∧
    (512 < v.depth → ∃ e, parse (renderOnto indent 0 v w) = .error e ∧
      e.message = "Maximum nesting depth exceeded") := by
  have h := document_renderOnto hv indent hw
  refine ⟨fun hle => ?_, fun hlt => ?_⟩
  · simp [parse, h.1 hle]
  · obtain ⟨stop, hstop, hdeep⟩ := h.2 hlt
    refine ⟨stop.error (renderOnto indent 0 v w), by simp [parse, hstop], ?_⟩
    simp [Stop.error, hdeep, Fault.message]

/-- A value without binary64 numbers is read back from both its texts, unsigned numbers that a
signed one can hold as signed; one that nests too deep is refused for that. -/
theorem parse_printed (v : Json) (hv : Exact v) (indent : Int) :
    (v.depth ≤ 512 → parse v.compact = .ok v.reread ∧ parse (v.pretty indent) = .ok v.reread) ∧
    (512 < v.depth →
      (∃ e, parse v.compact = .error e ∧ e.message = "Maximum nesting depth exceeded") ∧
      ∃ e, parse (v.pretty indent) = .error e ∧ e.message = "Maximum nesting depth exceeded") := by
  have hnewline : Blank [Byte.newline] := by simp [Blank, Byte.newline]
  have hcompact := parse_renderOnto hv 0 blank_nil
  have hpretty := parse_renderOnto hv indent.toNat hnewline
  exact ⟨fun hle => ⟨hcompact.1 hle, hpretty.1 hle⟩, fun hlt => ⟨hcompact.2 hlt, hpretty.2 hlt⟩⟩

def nest : (n : Nat) → Json → Json
  | 0, v => v
  | n + 1, v => array [nest n v]

theorem depth_nest (n : Nat) (v : Json) : (nest n v).depth = n + v.depth := by
  induction n with
  | zero => rw [nest, Nat.zero_add]
  | succ n ih =>
    rw [nest, depth, depthItems, depthItems, ih]
    omega

theorem exact_nest (n : Nat) {v : Json} (hv : Exact v) : Exact (nest n v) := by
  induction n with
  | zero => exact hv
  | succ n ih => exact ⟨ih, trivial⟩

theorem reread_nest (n : Nat) (v : Json) : (nest n v).reread = nest n v.reread := by
  induction n with
  | zero => rfl
  | succ n ih => rw [nest, reread, rereadItems, rereadItems, ih, nest]

def boundaries : Json :=
  object [([0, 34, 127, 255], array [number (.nat 9223372036854775807),
    number (.nat 9223372036854775808), number (.int (-9223372036854775808)), object []])]

theorem exact_boundaries : Exact boundaries :=
  ⟨List.pairwise_singleton _ _, ⟨trivial, trivial, trivial, ⟨List.Pairwise.nil, trivial⟩, trivial⟩,
    trivial⟩

theorem parse_printed_boundaries :
    parse (nest 509 boundaries).compact = .ok (nest 509 (object [([0, 34, 127, 255],
      array [number (.int 9223372036854775807), number (.nat 9223372036854775808),
        number (.int (-9223372036854775808)), object []])])) ∧
    ∃ e, parse ((nest 510 boundaries).pretty 2) = .error e ∧
      e.message = "Maximum nesting depth exceeded" := by
  have hread := (parse_printed (nest 509 boundaries) (exact_nest 509 exact_boundaries) 2).1
  have hfail := (parse_printed (nest 510 boundaries) (exact_nest 510 exact_boundaries) 2).2
  refine ⟨?_, (hfail (by rw [depth_nest]; decide)).2⟩
  rw [(hread (by rw [depth_nest]; decide)).1, reread_nest]
  rfl

end Json

end Bindery
