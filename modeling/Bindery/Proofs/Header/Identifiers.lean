import Bindery.Header.Cpp
import Mathlib.Data.List.Nodup

/-!
Names after escaping. A reserved word gets an underscore, and in C++ a name that is taken gets one
more, whatever the other names of its scope are. So a name falls together with another exactly if
the other is the name with the underscores it gets in addition.
-/

set_option autoImplicit false

namespace Bindery

def underscores (n : Nat) : Text := List.replicate n Byte.underscore

@[simp] theorem underscores_zero : underscores 0 = [] := rfl

theorem underscores_one : underscores 1 = ascii "_" := rfl

theorem underscores_add (m n : Nat) : underscores (m + n) = underscores m ++ underscores n :=
  List.replicate_add m n _

theorem nodup_map_iff {f : Text → Text} {names : List Text} :
    (names.map f).Nodup ↔ names.Nodup ∧ ∀ x ∈ names, ∀ y ∈ names, f x = f y → x = y := by
  constructor
  · intro h
    exact ⟨h.of_map f, (List.nodup_map_iff_inj_on (h.of_map f)).mp h⟩
  · rintro ⟨hnodup, hinj⟩
    exact (List.nodup_map_iff_inj_on hnodup).mpr hinj

theorem map_map_zip {α β γ δ : Type} {xs : List α} {ys : List β} (hlength : xs.length = ys.length)
    (f : α × β → γ) (g : γ → δ) (k : α → δ) (h : ∀ x, g (f x) = k x.1) :
    ((xs.zip ys).map f).map g = xs.map k := by
  conv_rhs => rw [← List.map_fst_zip (Nat.le_of_eq hlength), List.map_map]
  rw [List.map_map]
  exact List.map_congr_left fun x _ => h x

namespace Identifier

theorem not_isReserved_append (name : Text) : isReserved (name ++ "_") = false := by
  have hwords : ∀ word ∈ reservedWords, word.getLast? ≠ some Byte.underscore := by decide +kernel
  rw [Bool.eq_false_iff]
  intro hreserved
  exact hwords _ (List.contains_iff_mem.mp hreserved) List.getLast?_append

theorem of_mem_hiddenNames {name : Text} (h : name ∈ hiddenNames) :
    isReserved name = false ∧ name.getLast? ≠ some Byte.underscore := by
  have hnames : ∀ name ∈ hiddenNames,
      isReserved name = false ∧ name.getLast? ≠ some Byte.underscore := by decide +kernel
  exact hnames name h

theorem escape_of_isReserved {name : Text} (h : isReserved name = true) :
    escape name = name ++ ascii "_" := if_pos h

theorem escape_of_not_isReserved {name : Text} (h : isReserved name = false) :
    escape name = name := if_neg (by simp [h])

theorem escape_eq_iff {s t : Text} :
    escape s = escape t ↔
      s = t ∨ isReserved s = true ∧ t = s ++ "_" ∨ isReserved t = true ∧ s = t ++ "_" := by
  have hreserved : ∀ {u v : Text}, isReserved u = true → v = u ++ "_" → isReserved v = false := by
    rintro u v - rfl
    exact not_isReserved_append u
  constructor
  · intro h
    cases hs : isReserved s <;> cases ht : isReserved t
    · rw [escape_of_not_isReserved hs, escape_of_not_isReserved ht] at h
      exact .inl h
    · rw [escape_of_not_isReserved hs, escape_of_isReserved ht] at h
      exact .inr (.inr ⟨rfl, h⟩)
    · rw [escape_of_isReserved hs, escape_of_not_isReserved ht] at h
      exact .inr (.inl ⟨rfl, h.symm⟩)
    · rw [escape_of_isReserved hs, escape_of_isReserved ht] at h
      exact .inl (List.append_cancel_right h)
  · rintro (rfl | ⟨hs, heq⟩ | ⟨ht, heq⟩)
    · rfl
    · rw [escape_of_isReserved hs, escape_of_not_isReserved (hreserved hs heq), heq]
    · rw [escape_of_isReserved ht, escape_of_not_isReserved (hreserved ht heq), heq]

/-- A reserved word stands beside the name that it is escaped to. -/
def Merges (names : List Text) : Prop :=
  ∃ word ∈ names, isReserved word = true ∧ word ++ ascii "_" ∈ names

instance : DecidablePred Merges := fun names =>
  inferInstanceAs (Decidable (∃ word ∈ names, isReserved word = true ∧ word ++ ascii "_" ∈ names))

theorem nodup_escape_iff {names : List Text} :
    (names.map escape).Nodup ↔ names.Nodup ∧ ¬ Merges names := by
  rw [nodup_map_iff]
  refine and_congr_right fun _ => ⟨?_, ?_⟩
  · rintro h ⟨word, hword, hreserved, hother⟩
    have heq := h word hword _ hother (escape_eq_iff.mpr (.inr (.inl ⟨hreserved, rfl⟩)))
    exact absurd (List.self_eq_append_right.mp heq) (by decide)
  · intro h x hx y hy heq
    rcases escape_eq_iff.mp heq with heq | ⟨hreserved, rfl⟩ | ⟨hreserved, rfl⟩
    · exact heq
    · exact absurd ⟨x, hx, hreserved, hy⟩ h
    · exact absurd ⟨y, hy, hreserved, hx⟩ h

end Identifier

/-- The name means something else in the scope of a class. -/
def Names.Takes (names : Names) (owner id : Text) : Prop :=
  id = owner ∨ id = asFFI ∨ id = fromFFI ∨ Text.startsWith id "ffi_" = true ∨
    names.hasType id = true

instance (names : Names) (owner id : Text) : Decidable (names.Takes owner id) :=
  inferInstanceAs (Decidable (_ ∨ _))

section
variable (names : Names) (owner : Text)

theorem hostIdentifier_of_takes {name : Text} (h : names.Takes owner (Identifier.escape name)) :
    hostIdentifier names owner name = Identifier.escape name ++ ascii "_" := if_pos h

theorem hostIdentifier_of_not_takes {name : Text}
    (h : ¬ names.Takes owner (Identifier.escape name)) :
    hostIdentifier names owner name = Identifier.escape name := if_neg h

def hostSuffix (name : Text) : Nat :=
  (if Identifier.isReserved name then 1 else 0) +
    if names.Takes owner (Identifier.escape name) then 1 else 0

theorem hostIdentifier_eq (name : Text) :
    hostIdentifier names owner name = name ++ underscores (hostSuffix names owner name) := by
  have hescape : Identifier.escape name =
      name ++ underscores (if Identifier.isReserved name then 1 else 0) := by
    rw [Identifier.escape]
    split_ifs
    · rfl
    · exact (List.append_nil name).symm
  rw [hostSuffix, underscores_add, ← List.append_assoc, ← hescape]
  by_cases htaken : names.Takes owner (Identifier.escape name)
  · rw [hostIdentifier_of_takes names owner htaken, if_pos htaken, underscores_one]
  · rw [hostIdentifier_of_not_takes names owner htaken, if_neg htaken, underscores_zero,
      List.append_nil]

/-- The second name is the first with underscores that the first gets and the second does not. -/
def HostMerges (x y : Text) : Prop :=
  ∃ k, 0 < k ∧ y = x ++ underscores k ∧ hostSuffix names owner x = k + hostSuffix names owner y

variable {names owner}

theorem HostMerges.hostIdentifier_eq {x y : Text} (h : HostMerges names owner x y) :
    hostIdentifier names owner x = hostIdentifier names owner y := by
  obtain ⟨k, -, rfl, hsuffix⟩ := h
  rw [Bindery.hostIdentifier_eq, Bindery.hostIdentifier_eq, hsuffix, underscores_add,
    List.append_assoc]

theorem hostMerges_of_le {x y : Text}
    (h : hostIdentifier names owner x = hostIdentifier names owner y)
    (hle : hostSuffix names owner y ≤ hostSuffix names owner x) :
    x = y ∨ HostMerges names owner x y := by
  obtain ⟨k, hk⟩ := Nat.exists_eq_add_of_le' hle
  rw [hostIdentifier_eq, hostIdentifier_eq, hk, underscores_add, ← List.append_assoc] at h
  have hy : x ++ underscores k = y := List.append_cancel_right h
  rcases Nat.eq_zero_or_pos k with rfl | hpos
  · exact .inl ((List.append_nil x).symm.trans hy)
  · exact .inr ⟨k, hpos, hy.symm, hk⟩

theorem hostIdentifier_eq_iff {x y : Text} :
    hostIdentifier names owner x = hostIdentifier names owner y ↔
      x = y ∨ HostMerges names owner x y ∨ HostMerges names owner y x := by
  constructor
  · intro h
    rcases Nat.le_total (hostSuffix names owner y) (hostSuffix names owner x) with hle | hle
    · exact (hostMerges_of_le h hle).imp_right .inl
    · exact (hostMerges_of_le h.symm hle).imp Eq.symm .inr
  · rintro (rfl | h | h)
    · rfl
    · exact h.hostIdentifier_eq
    · exact h.hostIdentifier_eq.symm

theorem HostMerges.ne {x y : Text} (h : HostMerges names owner x y) : x ≠ y := by
  obtain ⟨k, hpos, rfl, -⟩ := h
  intro heq
  have hnil := List.self_eq_append_right.mp heq
  rw [underscores, List.replicate_eq_nil_iff] at hnil
  omega

theorem nodup_hostIdentifier_iff {members : List Text} :
    (members.map (hostIdentifier names owner)).Nodup ↔
      members.Nodup ∧ ¬ ∃ x ∈ members, ∃ y ∈ members, HostMerges names owner x y := by
  rw [nodup_map_iff]
  refine and_congr_right fun _ => ⟨?_, ?_⟩
  · rintro h ⟨x, hx, y, hy, hmerge⟩
    exact hmerge.ne (h x hx y hy hmerge.hostIdentifier_eq)
  · intro h x hx y hy heq
    rcases hostIdentifier_eq_iff.mp heq with heq | hmerge | hmerge
    · exact heq
    · exact absurd ⟨x, hx, y, hy, hmerge⟩ h
    · exact absurd ⟨y, hy, x, hx, hmerge⟩ h

theorem hostIdentifier_eq_taken_iff {name id : Text} (hid : names.Takes owner id) :
    hostIdentifier names owner name = id ↔
      names.Takes owner (Identifier.escape name) ∧ id = Identifier.escape name ++ ascii "_" := by
  by_cases htaken : names.Takes owner (Identifier.escape name)
  · rw [hostIdentifier_of_takes names owner htaken]
    exact ⟨fun h => ⟨htaken, h.symm⟩, fun h => h.2.symm⟩
  · rw [hostIdentifier_of_not_takes names owner htaken]
    exact ⟨fun h => absurd (h ▸ hid) htaken, fun h => absurd h.1 htaken⟩

theorem hostIdentifier_ne_of_getLast? {name id : Text} (hid : names.Takes owner id)
    (hlast : id.getLast? ≠ some Byte.underscore) : hostIdentifier names owner name ≠ id := by
  rw [Ne, hostIdentifier_eq_taken_iff hid]
  rintro ⟨-, rfl⟩
  exact hlast List.getLast?_append

theorem hostIdentifier_ne_asFFI (name : Text) : hostIdentifier names owner name ≠ asFFI :=
  hostIdentifier_ne_of_getLast? (.inr (.inl rfl)) (by decide)

theorem hostIdentifier_ne_fromFFI (name : Text) : hostIdentifier names owner name ≠ fromFFI :=
  hostIdentifier_ne_of_getLast? (.inr (.inr (.inl rfl))) (by decide)

theorem hostIdentifier_of_startsWith {name : Text} (h : Text.startsWith name "ffi_" = true) :
    hostIdentifier names owner name = name ++ ascii "_" := by
  have hwords : ∀ word ∈ Identifier.reservedWords, Text.startsWith word "ffi_" = false := by
    decide +kernel
  have hreserved : Identifier.isReserved name = false := by
    rw [Bool.eq_false_iff]
    intro hmem
    rw [hwords name (List.contains_iff_mem.mp hmem)] at h
    cases h
  have hescape := Identifier.escape_of_not_isReserved hreserved
  rw [hostIdentifier_of_takes names owner (hescape.symm ▸ .inr (.inr (.inr (.inl h)))), hescape]

theorem hostSuffix_le_two (name : Text) : hostSuffix names owner name ≤ 2 := by
  rw [hostSuffix]
  split_ifs <;> omega

theorem startsWith_of_append_eq {name suffix rest : Text} (hsuffix : suffix.length ≤ 4)
    (h : name ++ suffix = "ffi_arg_" ++ rest) : Text.startsWith name "ffi_" = true := by
  have hlength : 4 ≤ name.length := by
    have hlen := congrArg List.length h
    simp only [List.length_append, show (ascii "ffi_arg_").length = 8 from rfl] at hlen
    omega
  rw [Text.startsWith, List.isPrefixOf_iff_prefix]
  exact List.prefix_of_prefix_length_le ⟨ascii "arg_" ++ rest, h.symm⟩ (List.prefix_append _ _)
    hlength

/-- The local of an argument is a host name exactly if it is a name with one underscore more. -/
theorem hostIdentifier_eq_argLocal_iff {name arg : Text} :
    hostIdentifier names owner name = MethodBody.argLocal arg ↔
      name ++ "_" = MethodBody.argLocal arg := by
  constructor
  · intro h
    have hstart : Text.startsWith name "ffi_" = true := by
      refine startsWith_of_append_eq ?_ ((hostIdentifier_eq names owner name).symm.trans h)
      rw [underscores, List.length_replicate]
      exact Nat.le_trans (hostSuffix_le_two name) (by decide)
    exact (hostIdentifier_of_startsWith hstart).symm.trans h
  · intro h
    exact (hostIdentifier_of_startsWith (startsWith_of_append_eq (by decide) h)).trans h

end

end Bindery
