import Bindery.Proofs.Mapping.NativeSide

/-!
What a mapping makes of a reference apart from its layout. Neither what is accepted nor the spelling
of a type depends on the width of a pointer. A signature depends on it in how the method returns.
-/

set_option autoImplicit false

namespace Bindery

def Native.unsized (n : Native) : Native := { n with layout := ⟨0, 1⟩ }

def Mapped.unsized (x : Mapped) : Mapped := { x with native := x.native.unsized }

def Outcome.unsized (o : Outcome) : Outcome where
  record := { o.record with layout := ⟨0, 1⟩ }
  ok := o.ok.unsized
  err := o.err.unsized

/-- The way back is forgotten as well, and with it the hidden parameter for the result. -/
def Signature.unsized (s : Signature) : Signature :=
  { s with
    cReturn := []
    params := []
    passing := .void
    receiver := s.receiver.map Mapped.unsized
    declared := s.declared.map Mapped.unsized
    returns := s.returns.unsized
    outcome := s.outcome.map Outcome.unsized }

@[simp] theorem Signature.deps_unsized (s : Signature) : s.unsized.deps = s.deps := by
  have hparts : s.unsized.receiver.toList ++ s.unsized.declared ++ [s.unsized.returns] =
      (s.receiver.toList ++ s.declared ++ [s.returns]).map Mapped.unsized := by
    cases h : s.receiver <;> simp [Signature.unsized, h]
  rw [Signature.deps, hparts, List.flatMap_map]
  rfl

/-- The spellings do not tell apart what differs in layouts only. -/
structure Dialect.IgnoresLayout (d : Dialect) : Prop where
  object : ∀ name ownership isMutable position {n n' : Native}, n.unsized = n'.unsized →
    d.object name ownership isMutable position n = d.object name ownership isMutable position n'
  record : ∀ name byRef {n n' : Native}, n.unsized = n'.unsized →
    d.record name byRef n = d.record name byRef n'
  slice : ∀ view isMutable {n n' : Native}, n.unsized = n'.unsized →
    d.slice view isMutable n = d.slice view isMutable n'
  writeable : ∀ position {n n' : Native}, n.unsized = n'.unsized →
    d.writeable position n = d.writeable position n'
  nullable : ∀ {x x' : Mapped} {n n' : Native}, x.unsized = x'.unsized → n.unsized = n'.unsized →
    d.nullable x n = d.nullable x' n'
  fallible : ∀ {x x' y y' : Mapped} {n n' : Native}, x.unsized = x'.unsized →
    y.unsized = y'.unsized → n.unsized = n'.unsized → d.fallible x y n = d.fallible x' y' n'

theorem Native.unsized_eq (cType : Text) (kind : NativeKind) (l l' : Layout) :
    (⟨cType, kind, l⟩ : Native).unsized = (⟨cType, kind, l'⟩ : Native).unsized := rfl

theorem Native.cType_eq {n n' : Native} (h : n.unsized = n'.unsized) : n.cType = n'.cType :=
  (Native.mk.inj h).1

theorem Native.kind_eq {n n' : Native} (h : n.unsized = n'.unsized) : n.kind = n'.kind :=
  (Native.mk.inj h).2.1

theorem Mapped.host_eq {x x' : Mapped} (h : x.unsized = x'.unsized) : x.host = x'.host :=
  (Mapped.mk.inj h).1

theorem Mapped.native_eq {x x' : Mapped} (h : x.unsized = x'.unsized) :
    x.native.unsized = x'.native.unsized := (Mapped.mk.inj h).2.1

theorem Mapped.deps_eq {x x' : Mapped} (h : x.unsized = x'.unsized) : x.deps = x'.deps :=
  (Mapped.mk.inj h).2.2

theorem Dialect.c_ignoresLayout : Dialect.c.IgnoresLayout where
  object _ _ _ _ _ _ h := Native.cType_eq h
  record _ _ _ _ h := Native.cType_eq h
  slice _ _ _ _ h := Native.cType_eq h
  writeable _ _ _ h := Native.cType_eq h
  nullable _ h := Native.cType_eq h
  fallible _ _ h := Native.cType_eq h

theorem Dialect.cpp_ignoresLayout : Dialect.cpp.IgnoresLayout where
  object _ _ _ _ _ _ _ := rfl
  record _ _ _ _ _ := rfl
  slice _ _ _ _ _ := rfl
  writeable _ _ _ _ := rfl
  nullable hx hn := by simp only [Dialect.cpp, Native.kind_eq hn, Mapped.host_eq hx]
  fallible hx hy _ := by simp only [Dialect.cpp, Mapped.host_eq hx, Mapped.host_eq hy]

def Mapper.atWidth (m : Mapper) (width : Int) : Mapper := { m with pointerWidth := width }

@[simp] theorem Mapper.lookup_atWidth (m : Mapper) (width : Int) :
    (m.atWidth width).lookup = m.lookup := rfl

@[simp] theorem Mapper.capabilities_atWidth (m : Mapper) (width : Int) :
    (m.atWidth width).capabilities = m.capabilities := rfl

def verdict {ε α : Type} (x : Except ε α) : Except ε Unit := x.map fun _ => ()

theorem verdict_map {ε α β : Type} (f : α → β) (x : Except ε α) :
    verdict (x.map f) = verdict x := by
  cases x <;> rfl

theorem verdict_eq {ε α β : Type} {f : α → β} {x y : Except ε α} (h : x.map f = y.map f) :
    verdict x = verdict y := by
  rw [← verdict_map f x, h, verdict_map]

/-- Two attempts come to the same up to `f`: they fail alike, or `f` sees no difference. -/
theorem map_eq_map_cases {ε α β : Type} {f : α → β} {x y : Except ε α} (h : x.map f = y.map f) :
    (∃ e, x = .error e ∧ y = .error e) ∨ ∃ a b, x = .ok a ∧ y = .ok b ∧ f a = f b := by
  cases x with
  | error e =>
    cases y with
    | error e' =>
      cases h
      exact .inl ⟨e, rfl, rfl⟩
    | ok b => cases h
  | ok a =>
    cases y with
    | error e' => cases h
    | ok b => exact .inr ⟨a, b, rfl, rfl, Except.ok.inj h⟩

namespace Mapper

variable {m : Mapper} (hd : m.dialect.IgnoresLayout) (w w' : Int)

section
variable {layoutOf layoutOf' : TypeDef → Except MapFault Layout}

theorem nullableNative_unsized {inner : TypeRef} {x x' : Mapped} (hx : x.unsized = x'.unsized) :
    ((m.atWidth w).nullableNative inner x).map Native.unsized =
      ((m.atWidth w').nullableNative inner x').map Native.unsized := by
  have hkind := Native.kind_eq (Mapped.native_eq hx)
  have hcType := Native.cType_eq (Mapped.native_eq hx)
  unfold nullableNative
  rw [capabilities_atWidth, capabilities_atWidth, ← hkind, ← hcType]
  cases hkind : x.native.kind with
  | handle | slice => exact congrArg Except.ok (Mapped.native_eq hx)
  | scalar | enumeration | record =>
    dsimp only
    split_ifs
    · rfl
    · exact congrArg Except.ok (Native.unsized_eq ..)
  | _ => rfl

include hd

theorem mapObject_unsized (id : TypeId) (ownership : Ownership) (isMutable : Bool)
    (position : Position) :
    ((m.atWidth w).mapObject id ownership isMutable position).map Mapped.unsized =
      ((m.atWidth w').mapObject id ownership isMutable position).map Mapped.unsized := by
  rw [mapObject, mapObject, lookup_atWidth, lookup_atWidth]
  cases m.lookup id .object with
  | error fault => rfl
  | ok t =>
    dsimp only
    split_ifs
    · rfl
    · simp only [Except.map, Mapped.unsized, Except.ok.injEq, Mapped.mk.injEq, and_true]
      exact ⟨hd.object _ _ _ _ (Native.unsized_eq ..), Native.unsized_eq ..⟩

theorem mapRecord_unsized (hlayout : ∀ t, verdict (layoutOf t) = verdict (layoutOf' t))
    (id : TypeId) (byRef : Bool) (position : Position) :
    ((m.atWidth w).mapRecord layoutOf id byRef position).map Mapped.unsized =
      ((m.atWidth w').mapRecord layoutOf' id byRef position).map Mapped.unsized := by
  rw [mapRecord, mapRecord, lookup_atWidth, lookup_atWidth]
  cases m.lookup id .record with
  | error fault => rfl
  | ok t =>
    dsimp only
    split_ifs
    · rfl
    all_goals
      rcases map_eq_map_cases (hlayout t) with ⟨fault, h, h'⟩ | ⟨l, l', h, h', -⟩
      · rw [h, h']
      · simp only [h, h', Except.map, Mapped.unsized, Except.ok.injEq, Mapped.mk.injEq, and_true]
        exact ⟨hd.record _ _ (Native.unsized_eq ..), Native.unsized_eq ..⟩

theorem mapWith_unsized (hlayout : ∀ t, verdict (layoutOf t) = verdict (layoutOf' t))
    (ref : TypeRef) (position : Position) (name : Text) :
    ((m.atWidth w).mapWith layoutOf ref position name).map Mapped.unsized =
      ((m.atWidth w').mapWith layoutOf' ref position name).map Mapped.unsized := by
  induction ref generalizing position name with
  | unit => rfl
  | primitive p => rfl
  | object id ownership isMutable => exact mapObject_unsized hd w w' id ownership isMutable position
  | record id byRef => exact mapRecord_unsized hd w w' hlayout id byRef position
  | enumeration id => rfl
  | slice view isMutable =>
    have hfault : ∀ w, (m.atWidth w).sliceFault? view isMutable position =
        m.sliceFault? view isMutable position := fun _ => rfl
    rw [mapWith, mapWith, mapSlice, mapSlice, hfault, hfault]
    cases m.sliceFault? view isMutable position with
    | some fault => rfl
    | none =>
      simp only [Except.map, Mapped.unsized, Except.ok.injEq, Mapped.mk.injEq, and_true]
      exact ⟨hd.slice _ _ (Native.unsized_eq ..), Native.unsized_eq ..⟩
  | writeable =>
    rw [mapWith, mapWith, mapWriteable, mapWriteable, capabilities_atWidth, capabilities_atWidth]
    split_ifs
    · rfl
    · simp only [Except.map, Mapped.unsized, Except.ok.injEq, Mapped.mk.injEq, and_true]
      exact ⟨hd.writeable _ (Native.unsized_eq ..), Native.unsized_eq ..⟩
    · rfl
  | nullable inner ih =>
    rw [mapWith, mapWith]
    cases nullableFault? inner position with
    | some fault => rfl
    | none =>
      dsimp only
      rcases map_eq_map_cases (ih .nullablePayload []) with ⟨e, h, h'⟩ | ⟨x, x', h, h', hx⟩
      · rw [h, h']
      · rw [h, h']
        dsimp only
        rcases map_eq_map_cases (nullableNative_unsized w w' hx) with
          ⟨e, hn, hn'⟩ | ⟨n, n', hn, hn', hnative⟩
        · rw [hn, hn']
        · simp only [hn, hn', Except.map, Mapped.unsized, Except.ok.injEq, Mapped.mk.injEq]
          exact ⟨hd.nullable hx hnative, hnative, Mapped.deps_eq hx⟩
  | fallible ok err ihOk ihErr =>
    rw [mapWith, mapWith]
    split_ifs
    · rfl
    · rfl
    · rfl
    · rcases map_eq_map_cases (ihOk .okPayload []) with ⟨e, h, h'⟩ | ⟨x, x', h, h', hx⟩
      · rw [h, h']
      · rcases map_eq_map_cases (ihErr .errPayload []) with ⟨e, k, k'⟩ | ⟨y, y', k, k', hy⟩
        · rw [h, h', k, k']
        · simp only [h, h', k, k', Except.map, Mapped.unsized, Except.ok.injEq, Mapped.mk.injEq]
          refine ⟨hd.fallible hx hy (Native.unsized_eq ..), Native.unsized_eq .., ?_⟩
          rw [Mapped.deps_eq hx, Mapped.deps_eq hy]

omit hd in
theorem fieldLayouts_verdict {f g : TypeRef → Except MapFault Mapped}
    (h : ∀ ref, (f ref).map Mapped.unsized = (g ref).map Mapped.unsized) (owner : Text)
    (fields : List Field) :
    verdict (fieldLayouts f owner fields) = verdict (fieldLayouts g owner fields) := by
  induction fields with
  | nil => rfl
  | cons field fields ih =>
    rw [fieldLayouts, fieldLayouts]
    rcases map_eq_map_cases (h field.type) with ⟨e, hf, hg⟩ | ⟨x, x', hf, hg, -⟩
    · rw [hf, hg]
    · rcases map_eq_map_cases ih with ⟨e, k, k'⟩ | ⟨ls, ls', k, k', -⟩
      · rw [hf, hg, k, k']
      · rw [hf, hg, k, k']
        rfl

theorem layoutWithin_verdict (depth : Nat) (enclosing : List TypeId) (t : TypeDef) :
    verdict ((m.atWidth w).layoutWithin depth enclosing t) =
      verdict ((m.atWidth w').layoutWithin depth enclosing t) := by
  induction depth generalizing enclosing t with
  | zero => rfl
  | succ depth ih =>
    rw [layoutWithin_succ, layoutWithin_succ, layoutFrom, layoutFrom]
    split_ifs
    · rfl
    · have hfields := fieldLayouts_verdict
        (fun ref => mapWith_unsized hd w w' (ih (t.id :: enclosing)) ref .field []) t.name t.fields
      rcases map_eq_map_cases hfields with ⟨e, h, h'⟩ | ⟨ls, ls', h, h', -⟩
      · rw [h, h']
      · rw [h, h']
        rfl

theorem recordLayout_verdict (t : TypeDef) :
    verdict ((m.atWidth w).recordLayout t) = verdict ((m.atWidth w').recordLayout t) :=
  layoutWithin_verdict hd w w' (m.registry.size + 1) [] t

theorem map_unsized (ref : TypeRef) (position : Position) (name : Text) :
    ((m.atWidth w).map ref position name).map Mapped.unsized =
      ((m.atWidth w').map ref position name).map Mapped.unsized :=
  mapWith_unsized hd w w' (recordLayout_verdict hd w w') ref position name

end

section
include hd

theorem mapIn_unsized (context : Text) (ref : TypeRef) (position : Position) (name : Text) :
    ((m.atWidth w).mapIn context ref position name).map Mapped.unsized =
      ((m.atWidth w').mapIn context ref position name).map Mapped.unsized := by
  rw [mapIn, mapIn]
  rcases map_eq_map_cases (map_unsized hd w w' ref position name) with
    ⟨e, h, h'⟩ | ⟨x, x', h, h', hx⟩
  · rw [h, h']
  · rw [h, h']
    exact congrArg Except.ok hx

theorem mapReceiver_unsized (owner : TypeDef) (receiver : Receiver) :
    ((m.atWidth w).mapReceiver owner receiver).map (Option.map Mapped.unsized) =
      ((m.atWidth w').mapReceiver owner receiver).map (Option.map Mapped.unsized) := by
  unfold mapReceiver
  cases receiverRef owner receiver with
  | error fault => rfl
  | ok ref =>
    cases ref with
    | none => rfl
    | some ref =>
      dsimp only
      rcases map_eq_map_cases (mapIn_unsized hd w w' "self: " ref .param []) with
        ⟨e, h, h'⟩ | ⟨x, x', h, h', hx⟩
      · rw [h, h']
      · rw [h, h']
        exact congrArg (Except.ok ∘ some) hx

theorem mapParams_unsized (params : List Param) :
    ((m.atWidth w).mapParams params).map (List.map Mapped.unsized) =
      ((m.atWidth w').mapParams params).map (List.map Mapped.unsized) := by
  have hparam : ∀ p, ((m.atWidth w).mapParam p).map Mapped.unsized =
      ((m.atWidth w').mapParam p).map Mapped.unsized := by
    intro p
    rw [mapParam, mapParam]
    split_ifs
    · rfl
    · exact mapIn_unsized hd w w' _ p.type .param []
  induction params with
  | nil => rfl
  | cons p ps ih =>
    rw [mapParams, mapParams]
    rcases map_eq_map_cases (hparam p) with ⟨e, h, h'⟩ | ⟨x, x', h, h', hx⟩
    · rw [h, h']
    · rcases map_eq_map_cases ih with ⟨e, k, k'⟩ | ⟨xs, xs', k, k', hxs⟩
      · rw [h, h', k, k']
      · simp only [h, h', k, k', Except.map, List.map_cons, hx, hxs]

theorem outcomeOf_unsized (returns : TypeRef) {n n' : Native} (hn : n.unsized = n'.unsized) :
    ((m.atWidth w).outcomeOf returns n).map (Option.map Outcome.unsized) =
      ((m.atWidth w').outcomeOf returns n').map (Option.map Outcome.unsized) := by
  have hmember : ∀ {x x' : Mapped}, x.unsized = x'.unsized →
      payloadMember x = payloadMember x' := by
    intro x x' hx
    have hnative := Mapped.native_eq hx
    rw [payloadMember, payloadMember, Native.isPayload, Native.isPayload, Native.kind_eq hnative,
      Native.cType_eq hnative]
  cases returns with
  | fallible ok err =>
    rw [outcomeOf, outcomeOf, mapOutcome, mapOutcome]
    rcases map_eq_map_cases (mapIn_unsized hd w w' "return: " ok .okPayload []) with
      ⟨e, h, h'⟩ | ⟨x, x', h, h', hx⟩
    · rw [h, h']
    · rcases map_eq_map_cases (mapIn_unsized hd w w' "return: " err .errPayload []) with
        ⟨e, k, k'⟩ | ⟨y, y', k, k', hy⟩
      · rw [h, h', k, k']
      · simp only [h, h', k, k', Except.map, Option.map_some, Outcome.unsized, hx, hy, hmember hx,
          hmember hy, Native.cType_eq hn]
  | _ => rfl

theorem signature_unsized (owner : TypeDef) (method : Method) :
    ((m.atWidth w).signature owner method).map Signature.unsized =
      ((m.atWidth w').signature owner method).map Signature.unsized := by
  rw [signature, signature]
  rcases map_eq_map_cases (mapReceiver_unsized hd w w' owner method.receiver) with
    ⟨e, h, h'⟩ | ⟨self, self', h, h', hself⟩
  · rw [h, h']
  rcases map_eq_map_cases (mapParams_unsized hd w w' method.params) with
    ⟨e, k, k'⟩ | ⟨declared, declared', k, k', hdeclared⟩
  · rw [h, h', k, k']
  rcases map_eq_map_cases (mapIn_unsized hd w w' "return: " method.returns .result
    (resultName owner method)) with ⟨e, r, r'⟩ | ⟨returns, returns', r, r', hreturns⟩
  · rw [h, h', k, k', r, r']
  have houtcomes := outcomeOf_unsized hd w w' method.returns (Mapped.native_eq hreturns)
  rcases map_eq_map_cases houtcomes with ⟨e, o, o'⟩ | ⟨outcome, outcome', o, o', houtcome⟩
  · simp only [h, h', k, k', r, r', o, o']
  · simp only [h, h', k, k', r, r', o, o', Except.map, Signature.unsized, hself, hdeclared,
      hreturns, houtcome]

end

variable (m)

/-- A dialect may look at layouts, but has no say in what is accepted. -/
theorem map_verdict (ref : TypeRef) (position : Position) (name : Text) :
    verdict ((m.atWidth w).map ref position name) =
      verdict ((m.atWidth w').map ref position name) := by
  have hinC : ∀ w, m.inC.atWidth w = (m.atWidth w).inC := fun _ => rfl
  have h := verdict_eq (map_unsized (m := m.inC) Dialect.c_ignoresLayout w w' ref position name)
  rwa [hinC, hinC, map_inC, map_inC, verdict_map, verdict_map] at h

theorem signature_verdict (owner : TypeDef) (method : Method) :
    verdict ((m.atWidth w).signature owner method) =
      verdict ((m.atWidth w').signature owner method) := by
  have hinC : ∀ w, m.inC.atWidth w = (m.atWidth w).inC := fun _ => rfl
  have h := verdict_eq (signature_unsized (m := m.inC) Dialect.c_ignoresLayout w w' owner method)
  rwa [hinC, hinC, signature_inC, signature_inC, verdict_map, verdict_map] at h

end Mapper

end Bindery
