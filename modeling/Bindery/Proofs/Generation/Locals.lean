import Bindery.Proofs.Generation.Includes
import Bindery.Proofs.Header.Identifiers

/-!
The locals of a method body. A body is a row of statements, and its locals are the names these
declare: one for each parameter that needs a copy or a view, those for text that is written, and
one for the result. A parameter whose name starts like a local gets an underscore behind it, and so
meets the local of a parameter whose own name ends in one.
-/

set_option autoImplicit false

namespace Bindery

/-- A line of a method body: the declaration of a local, or anything else. -/
inductive Statement where
  | declare (type name init : Text)
  | plain (line : Text)

namespace Statement

def text : Statement → Text
  | declare type name init => type ++ name ++ init
  | plain line => line

def declared : Statement → List Text
  | declare _ name _ => [name]
  | plain _ => []

theorem map_text_plain (lines : List Text) : (lines.map plain).map text = lines := by
  simp [Function.comp_def, text]

theorem flatMap_declared_plain (lines : List Text) : (lines.map plain).flatMap declared = [] := by
  simp [List.flatMap_map, declared]

end Statement

namespace Conversion

variable (names : Names)

def prelude : TypeRef → (expr temp : Text) → List Statement
  | .record id true, expr, temp =>
    [.declare ("::" ++ names.name id ++ " ") temp (" = " ++ expr ++ ".AsFFI();")]
  | .slice .strings _, expr, temp =>
    [.declare "std::vector<::WeldStringView> " temp ";",
      .plain (temp ++ ".reserve(" ++ expr ++ ".size());"),
      .plain ("for (std::string_view ffi_item : " ++ expr ++ ") \x7b"),
      .plain ("    " ++ temp ++ ".push_back(" ++
        aggregate "::WeldStringView" "ffi_item.data()" "ffi_item.size()" ++ ");"),
      .plain "\x7d"]
  | .writeable, expr, temp =>
    [.declare "::WeldWriteable " temp (" = weld_rt::WriteToString(" ++ expr ++ ");")]
  | .nullable inner, expr, temp => prelude inner ("(*" ++ expr ++ ")") temp
  | _, _, _ => []

def needsLocal : TypeRef → Bool
  | .record _ byRef => byRef
  | .slice view _ => view = .strings
  | .writeable => true
  | .nullable inner => needsLocal inner
  | _ => false

theorem lower_nullable_eq_wrap (inner : TypeRef) (position : Position) (expr temp : Text) :
    ∃ value, lower names (.nullable inner) position expr temp =
      (lower names inner .nullablePayload ("(*" ++ expr ++ ")") temp).wrap fun _ => value := by
  refine ⟨(lower names (.nullable inner) position expr temp).value, ?_⟩
  cases inner <;> rfl

theorem lower_before (ref : TypeRef) (position : Position) (expr temp : Text) :
    (lower names ref position expr temp).before =
      (prelude names ref expr temp).map Statement.text := by
  induction ref generalizing position expr with
  | record id byRef =>
    cases byRef with
    | false => rfl
    | true =>
      simp only [lower, if_true, lowerRecordRef, prelude, List.map, Statement.text,
        List.append_assoc]
  | slice view isMutable => cases view <;> rfl
  | writeable =>
    simp only [lower, lowerWriteable, prelude, List.map, Statement.text, List.append_assoc]
  | nullable inner ih =>
    obtain ⟨value, hwrap⟩ := lower_nullable_eq_wrap names inner position expr temp
    rw [hwrap]
    exact ih .nullablePayload _
  | _ => rfl

theorem lower_locals (ref : TypeRef) (position : Position) (expr temp : Text) :
    (lower names ref position expr temp).locals = if needsLocal ref then [temp] else [] := by
  induction ref generalizing position expr with
  | record id byRef => cases byRef <;> rfl
  | slice view isMutable => cases view <;> rfl
  | nullable inner ih =>
    obtain ⟨value, hwrap⟩ := lower_nullable_eq_wrap names inner position expr temp
    rw [hwrap]
    exact ih .nullablePayload _
  | _ => rfl

theorem declared_prelude (ref : TypeRef) (expr temp : Text) :
    (prelude names ref expr temp).flatMap Statement.declared =
      if needsLocal ref then [temp] else [] := by
  induction ref generalizing expr with
  | record id byRef => cases byRef <;> rfl
  | slice view isMutable => cases view <;> rfl
  | nullable inner ih => exact ih _
  | _ => rfl

end Conversion

namespace MethodBody

section
variable (names : Names) (owner : TypeDef)

def argStatements (params : List Param) : List Statement :=
  params.flatMap fun p =>
    let hostName := hostIdentifier names owner.name p.name
    Conversion.prelude names p.type hostName (argLocal hostName)

def writerStatements (hasWrite : Bool) : List Statement :=
  if hasWrite then
    [.declare "std::string " outputLocal ";",
      .declare "::WeldWriteable " writerLocal " = weld_rt::WriteToString(ffi_output);"]
  else []

def callStatements (p : MethodPlan) : List Statement :=
  let call := callText names owner p
  match p.signature.passing with
  | .void => [.plain (call ++ ";")]
  | .direct => [.declare "auto " resultLocal (" = " ++ call ++ ";")]
  | .out =>
    [.declare (p.signature.returns.native.qualified ++ " ") resultLocal "\x7b\x7d;",
      .plain (call ++ ";")]

/-- The body of a method. Nothing is declared once the call has been made. -/
def statements (p : MethodPlan) : List Statement :=
  argStatements names owner p.method.params ++ writerStatements p.signature.hasWrite ++
    callStatements names owner p ++
    ((lowerParams names owner p.method.params).flatMap Lowered.after ++
      flushLines p.signature.hasWrite ++ returnLines names p).map .plain

variable (p : MethodPlan)

theorem callLines_eq :
    callLines names owner p = (callStatements names owner p).map Statement.text := by
  unfold callLines callStatements
  cases p.signature.passing with
  | void => rfl
  | direct =>
    have hname : ascii "auto ffi_result = " = ascii "auto " ++ (resultLocal ++ ascii " = ") := rfl
    simp only [List.map, Statement.text, hname, List.append_assoc]
  | out =>
    have hname : ascii " ffi_result\x7b\x7d;" =
      ascii " " ++ (resultLocal ++ ascii "\x7b\x7d;") := rfl
    simp only [List.map, Statement.text, hname, List.append_assoc]

theorem lines_eq : lines names owner p = (statements names owner p).map Statement.text := by
  have hargs : (lowerParams names owner p.method.params).flatMap Lowered.before =
      (argStatements names owner p.method.params).map Statement.text := by
    simp only [lowerParams, argStatements, List.flatMap_map, List.map_flatMap,
      Conversion.lower_before]
  have hwriter : writerLines p.signature.hasWrite =
      (writerStatements p.signature.hasWrite).map Statement.text := by
    cases p.signature.hasWrite <;> rfl
  rw [lines, statements, hargs, hwriter, callLines_eq]
  simp only [List.map_append, Statement.map_text_plain, List.append_assoc]

theorem locals_eq_declared :
    locals names owner p = (statements names owner p).flatMap Statement.declared := by
  have hargs : (lowerParams names owner p.method.params).flatMap Lowered.locals =
      (argStatements names owner p.method.params).flatMap Statement.declared := by
    simp only [lowerParams, argStatements, List.flatMap_map, List.flatMap_assoc,
      Conversion.lower_locals, Conversion.declared_prelude]
  have hwriter : (writerStatements p.signature.hasWrite).flatMap Statement.declared =
      if p.signature.hasWrite then [outputLocal, writerLocal] else [] := by
    cases p.signature.hasWrite <;> rfl
  have hcall : (callStatements names owner p).flatMap Statement.declared =
      if p.signature.passing = .void then [] else [resultLocal] := by
    unfold callStatements
    cases p.signature.passing <;> rfl
  rw [locals, statements]
  simp only [List.flatMap_append, hargs, hwriter, hcall, Statement.flatMap_declared_plain,
    List.append_nil]

def temporaries (params : List Param) : List Text :=
  (params.filter fun q => Conversion.needsLocal q.type).map Param.name

def fixedLocals (s : Signature) : List Text :=
  (if s.hasWrite then [outputLocal, writerLocal] else []) ++
    if s.passing = .void then [] else [resultLocal]

theorem fixedLocals_sublist (s : Signature) :
    (fixedLocals s).Sublist [outputLocal, writerLocal, resultLocal] := by
  unfold fixedLocals
  cases s.hasWrite <;> cases s.passing <;> decide

theorem locals_eq : locals names owner p =
    ((temporaries p.method.params).map (hostIdentifier names owner.name)).map argLocal ++
      fixedLocals p.signature := by
  have htemps : ∀ params : List Param, (lowerParams names owner params).flatMap Lowered.locals =
      ((temporaries params).map (hostIdentifier names owner.name)).map argLocal := by
    intro params
    induction params with
    | nil => rfl
    | cons q params ih =>
      rw [lowerParams, List.map_cons, List.flatMap_cons, Conversion.lower_locals, ← lowerParams, ih]
      cases hneeds : Conversion.needsLocal q.type <;> simp [temporaries, hneeds]
  rw [locals, htemps, fixedLocals, List.append_assoc]

variable {names owner p}

theorem argLocal_injective : Function.Injective argLocal := fun _ _ h => List.append_cancel_left h

theorem argLocal_not_mem_fixedLocals (hostName : Text) (s : Signature) :
    argLocal hostName ∉ fixedLocals s := by
  intro hmem
  have hfixed : ∀ l ∈ [outputLocal, writerLocal, resultLocal], l.take 5 ≠ ascii "ffi_a" := by
    decide
  exact hfixed _ ((fixedLocals_sublist s).subset hmem) rfl

/-- Host names end in an underscore where they start like a local. -/
theorem hostIdentifier_not_mem_fixedLocals (name : Text) (s : Signature) :
    hostIdentifier names owner.name name ∉ fixedLocals s := by
  intro hmem
  have hfixed : ∀ l ∈ [outputLocal, writerLocal, resultLocal],
      Text.startsWith l "ffi_" = true ∧ l.getLast? ≠ some Byte.underscore := by decide
  obtain ⟨hstart, hlast⟩ := hfixed _ ((fixedLocals_sublist s).subset hmem)
  exact hostIdentifier_ne_of_getLast? (.inr (.inr (.inr (.inl hstart)))) hlast rfl

theorem mem_locals {l : Text} : l ∈ locals names owner p ↔
    (∃ y ∈ temporaries p.method.params, argLocal (hostIdentifier names owner.name y) = l) ∨
      l ∈ fixedLocals p.signature := by
  simp [locals_eq]

theorem locals_nodup_iff : (locals names owner p).Nodup ↔
    (temporaries p.method.params).Nodup ∧ ¬ ∃ x ∈ temporaries p.method.params,
      ∃ y ∈ temporaries p.method.params, HostMerges names owner.name x y := by
  have hfixed : (fixedLocals p.signature).Nodup :=
    List.Nodup.sublist (fixedLocals_sublist p.signature) (by decide)
  have hdisjoint : (((temporaries p.method.params).map (hostIdentifier names owner.name)).map
      argLocal).Disjoint (fixedLocals p.signature) := by
    intro l hl
    obtain ⟨hostName, -, rfl⟩ := List.mem_map.mp hl
    exact argLocal_not_mem_fixedLocals _ _
  rw [locals_eq, List.nodup_append', List.nodup_map_iff argLocal_injective,
    nodup_hostIdentifier_iff]
  exact and_iff_left ⟨hfixed, hdisjoint⟩

theorem selfParam_not_mem_locals : selfParam ∉ locals names owner p := by
  rw [mem_locals]
  rintro (⟨y, -, h⟩ | hmem)
  · have htake : ascii "ffi_" = ascii "self" := congrArg (List.take 4) h
    exact absurd htake (by decide)
  · have hfixed : selfParam ∉ [outputLocal, writerLocal, resultLocal] := by decide
    exact hfixed ((fixedLocals_sublist p.signature).subset hmem)

/-- Besides the object a method consumes, the host parameters are the declared ones. -/
theorem mem_hostParams (hlength : p.method.params.length = p.signature.declared.length) {id : Text}
    (hid : id ≠ selfParam) :
    id ∈ (HostMethod.ofPlan names owner p).params.map HostParam.name ↔
      ∃ q ∈ p.method.params, hostIdentifier names owner.name q.name = id := by
  rw [HostMethod.ofPlan]
  simp only [List.map_append, List.mem_append]
  rw [map_map_zip hlength _ HostParam.name fun q => hostIdentifier names owner.name q.name]
  · simp only [List.mem_map]
    refine or_iff_right ?_
    rintro ⟨param, hparam, rfl⟩
    split_ifs at hparam
    · obtain ⟨mapped, -, rfl⟩ := List.mem_map.mp hparam
      exact hid rfl
    · exact absurd hparam List.not_mem_nil
  · exact fun _ => rfl

/-- No two of the parameters that have a local share it, and none of the parameters is called like
the local of another one, but for the underscore that is put behind its name. -/
structure Apart (names : Names) (owner : TypeDef) (params : List Param) : Prop where
  distinct : (temporaries params).Nodup
  unmerged : ¬ ∃ x ∈ temporaries params, ∃ y ∈ temporaries params, HostMerges names owner.name x y
  clear : ∀ q ∈ params, ∀ y ∈ temporaries params,
    q.name ++ ascii "_" ≠ argLocal (hostIdentifier names owner.name y)

theorem apart_iff (hlength : p.method.params.length = p.signature.declared.length) :
    ((locals names owner p).Nodup ∧ ∀ l ∈ locals names owner p,
      l ∉ (HostMethod.ofPlan names owner p).params.map HostParam.name) ↔
    Apart names owner p.method.params := by
  have hclear : (∀ l ∈ locals names owner p,
      l ∉ (HostMethod.ofPlan names owner p).params.map HostParam.name) ↔
      ∀ q ∈ p.method.params, ∀ y ∈ temporaries p.method.params,
        q.name ++ ascii "_" ≠ argLocal (hostIdentifier names owner.name y) := by
    constructor
    · intro h q hq y hy hmeet
      have hl : argLocal (hostIdentifier names owner.name y) ∈ locals names owner p :=
        mem_locals.mpr (.inl ⟨y, hy, rfl⟩)
      have hself : argLocal (hostIdentifier names owner.name y) ≠ selfParam := by
        intro hself
        exact selfParam_not_mem_locals (hself ▸ hl)
      exact h _ hl ((mem_hostParams hlength hself).mpr
        ⟨q, hq, hostIdentifier_eq_argLocal_iff.mpr hmeet⟩)
    · intro h l hl hparam
      have hself : l ≠ selfParam := by
        rintro rfl
        exact selfParam_not_mem_locals hl
      obtain ⟨q, hq, rfl⟩ := (mem_hostParams hlength hself).mp hparam
      -- only the local of an argument can end in the underscore a host name like it ends in
      rcases mem_locals.mp hl with ⟨y, hy, hmeet⟩ | hfixed
      · exact h q hq y hy (hostIdentifier_eq_argLocal_iff.mp hmeet.symm)
      · exact hostIdentifier_not_mem_fixedLocals _ _ hfixed
  rw [locals_nodup_iff, hclear]
  exact ⟨fun ⟨⟨h₁, h₂⟩, h₃⟩ => ⟨h₁, h₂, h₃⟩, fun ⟨h₁, h₂, h₃⟩ => ⟨⟨h₁, h₂⟩, h₃⟩⟩

end

end MethodBody

/-- The body that a method is defined with is the text of its statements, and its locals are the
names these declare. They differ from each other and from the parameters exactly if no two
parameters with a local have the same host name, and none is called like the local of one but for
the underscore at the end. -/
theorem definition_locals_apart_iff {m : Mapper} {owner : TypeDef} {p : MethodPlan}
    (h : m.signature owner p.method = .ok p.signature) (names : Names) :
    let body := MethodBody.statements names owner p
    let locals := body.flatMap Statement.declared
    let host := HostMethod.ofPlan names owner p
    p.definition names owner = .definition owner.name host locals (body.map Statement.text) ∧
    ((locals.Nodup ∧ ∀ l ∈ locals, l ∉ host.params.map HostParam.name) ↔
      MethodBody.Apart names owner p.method.params) := by
  obtain ⟨receiver, declared, returns, outcome, -, hparams, -, -, hsignature⟩ :=
    Mapper.signature_eq_ok_iff.mp h
  have hlength : p.method.params.length = p.signature.declared.length := by
    rw [hsignature]
    exact (Mapper.mapParams_eq_ok_iff.mp hparams).length_eq
  dsimp only
  rw [← MethodBody.locals_eq_declared, ← MethodBody.lines_eq]
  exact ⟨rfl, MethodBody.apart_iff hlength⟩

namespace Plotting

def point : TypeDef := ⟨1, "Point", [], [], .record [⟨"x", [], .primitive .i32⟩] []⟩

def plot : TypeDef :=
  ⟨2, "Plot", [], [], .object
    [⟨"draw", [], [], .shared, [⟨"x_", .record 1 true⟩, ⟨"ffi_arg_x", .primitive .i32⟩], .unit⟩,
      ⟨"trace", [], [], .shared, [⟨"from", .record 1 true⟩, ⟨"ffi_arg_to", .writeable⟩],
        .fallible .writeable .unit⟩]⟩

def registry : Registry := ⟨"plotting", [point, plot]⟩

def options : Options := ⟨[], 64, "chart", 0, false⟩

def names : Names := (runContext registry .cpp options).names

theorem build_registry : Registry.build "plotting" [point, plot] = .ok registry :=
  Registry.build_of_increasing _ (by decide) (by decide)

theorem plot_mem : plot ∈ runTypes registry .cpp options :=
  mem_runTypes.mpr ⟨by simp [registry], rfl⟩

theorem run : (generate registry .cpp options).success = true ∧
    (∃ p ∈ (runPlan registry .cpp options plot).methods,
      MethodBody.locals names plot p =
        ["ffi_arg_from", "ffi_arg_ffi_arg_to_", "ffi_output", "ffi_writer", "ffi_result"] ∧
      (HostMethod.ofPlan names plot p).params.map HostParam.name = ["from", "ffi_arg_to_"]) ∧
    ∃ p ∈ (runPlan registry .cpp options plot).methods,
      MethodBody.locals names plot p = ["ffi_arg_x_"] ∧
      (HostMethod.ofPlan names plot p).params.map HostParam.name = ["x_", "ffi_arg_x_"] := by
  decide +kernel

end Plotting

theorem definition_locals_apart_plot :
    ∃ p ∈ (runPlan Plotting.registry .cpp Plotting.options Plotting.plot).methods,
      MethodBody.locals Plotting.names Plotting.plot p =
        ["ffi_arg_from", "ffi_arg_ffi_arg_to_", "ffi_output", "ffi_writer", "ffi_result"] ∧
      MethodBody.Apart Plotting.names Plotting.plot p.method.params := by
  obtain ⟨-, ⟨p, hp, hlocals, hparams⟩, -⟩ := Plotting.run
  have happart := (definition_locals_apart_iff (mem_draftType_methods hp).2 Plotting.names).2
  rw [← MethodBody.locals_eq_declared, hparams, hlocals] at happart
  exact ⟨p, hp, hlocals, happart.mp ⟨by decide, by decide⟩⟩

/-- A successful run in which the local of a parameter is called like another parameter. -/
theorem locals_meet_parameters :
    Registry.build "plotting" [Plotting.point, Plotting.plot] = .ok Plotting.registry ∧
    (generate Plotting.registry .cpp Plotting.options).success = true ∧
    ¬ ∀ t ∈ runTypes Plotting.registry .cpp Plotting.options,
      ∀ p ∈ (runPlan Plotting.registry .cpp Plotting.options t).methods,
        (MethodBody.locals Plotting.names t p).Nodup ∧
        ∀ l ∈ MethodBody.locals Plotting.names t p,
          l ∉ (HostMethod.ofPlan Plotting.names t p).params.map HostParam.name := by
  obtain ⟨hsuccess, -, p, hp, hlocals, hparams⟩ := Plotting.run
  refine ⟨Plotting.build_registry, hsuccess, fun h => ?_⟩
  have hapart := (h _ Plotting.plot_mem p hp).2
  rw [hlocals, hparams] at hapart
  exact hapart "ffi_arg_x_" (List.mem_singleton_self _) (by decide)

end Bindery
