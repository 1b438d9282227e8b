import Bindery.Proofs.Json.RoundTrip

/-!
Values that come back from their texts just as they are: built from strings and signed integers by
arrays and objects that do not nest too deep.
-/

set_option autoImplicit false

namespace Bindery

namespace Json

open Grammar

variable {v : Json} {vs : List Json} {ms : List (Text × Json)} {limit : Nat}

/-- The value is what reading either of its texts gives, and nests at most so deep. -/
structure Faithful (limit : Nat) (v : Json) : Prop where
  exact : v.Exact
  reread : v.reread = v
  depth : v.depth ≤ limit

theorem Faithful.mono {limit' : Nat} (h : v.Faithful limit) (hle : limit ≤ limit') :
    v.Faithful limit' := ⟨h.exact, h.reread, h.depth.trans hle⟩

theorem faithful_string (s : Text) (limit : Nat) : (string s).Faithful limit :=
  ⟨trivial, rfl, Nat.zero_le _⟩

theorem faithful_int (i : Int64) (limit : Nat) : (number (.int i)).Faithful limit :=
  ⟨trivial, rfl, Nat.zero_le _⟩

theorem faithful_array (h : ∀ v ∈ vs, v.Faithful limit) : (array vs).Faithful (limit + 1) := by
  have hitems : ExactItems vs ∧ rereadItems vs = vs ∧ depthItems vs ≤ limit := by
    induction vs with
    | nil => exact ⟨trivial, rfl, Nat.zero_le _⟩
    | cons v vs ih =>
      rw [List.forall_mem_cons] at h
      obtain ⟨hexact, hreread, hdepth⟩ := ih h.2
      refine ⟨⟨h.1.exact, hexact⟩, ?_, Nat.max_le.mpr ⟨h.1.depth, hdepth⟩⟩
      rw [rereadItems, h.1.reread, hreread]
  obtain ⟨hexact, hreread, hdepth⟩ := hitems
  exact ⟨hexact, congrArg array hreread, Nat.succ_le_succ hdepth⟩

theorem faithful_ofMembers (h : ∀ m ∈ ms, m.2.Faithful limit) :
    (ofMembers ms).Faithful (limit + 1) := by
  have hkeys := Sorted.ofBindings_increasing Text.before_isOrder ms
  have hleft : ∀ m ∈ Sorted.ofBindings Text.before ms, m.2.Faithful limit :=
    fun m hm => h m (Sorted.mem_of_mem_ofBindings hm)
  rw [ofMembers_eq]
  generalize Sorted.ofBindings Text.before ms = left at hkeys hleft
  have hmembers : ExactMembers left ∧ rereadMembers left = left ∧ depthMembers left ≤ limit := by
    clear hkeys
    induction left with
    | nil => exact ⟨trivial, rfl, Nat.zero_le _⟩
    | cons m left ih =>
      rw [List.forall_mem_cons] at hleft
      obtain ⟨hexact, hreread, hdepth⟩ := ih hleft.2
      refine ⟨⟨hleft.1.exact, hexact⟩, ?_, Nat.max_le.mpr ⟨hleft.1.depth, hdepth⟩⟩
      rw [rereadMembers, hleft.1.reread, hreread]
  obtain ⟨hexact, hreread, hdepth⟩ := hmembers
  exact ⟨⟨hkeys, hexact⟩, congrArg object hreread, Nat.succ_le_succ hdepth⟩

theorem Faithful.parse_pretty (h : v.Faithful 512) (indent : Int) :
    parse (v.pretty indent) = .ok v := by
  have hnewline : Blank [Byte.newline] := by simp [Blank, Byte.newline]
  have hparse := (parse_renderOnto h.exact indent.toNat hnewline).1 h.depth
  rwa [h.reread] at hparse

theorem Faithful.parse_closed (h : v.Faithful 512) : parse v.compact.closed = .ok v := by
  have hnewline : Blank [Byte.newline] := by simp [Blank, Byte.newline]
  have hparse := (parse_renderOnto h.exact 0 hnewline).1 h.depth
  have htext : renderOnto 0 0 v [Byte.newline] = v.compact.closed :=
    renderOnto_append 0 v 0 [] [Byte.newline]
  rwa [h.reread, htext] at hparse

theorem get?_ofMembers (ms : List (Text × Json)) (key : Text) :
    (ofMembers ms).get? key = ms.reverse.lookup key :=
  Sorted.lookup_ofBindings Text.before_isOrder ms key

end Json

end Bindery
