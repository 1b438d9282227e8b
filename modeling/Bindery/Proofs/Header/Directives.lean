import Bindery.Header.Basic
import Bindery.Proofs.Json.Numerals
import Mathlib.Data.List.Basic
import Mathlib.Tactic.Common

/-!
The include directives of a text, found in the text itself: a hash that comes first on its line, the
word, and a name in quotes. A header names the files it includes, and nothing in its declarations
adds to them as long as no hash stands outside of comments.
-/

set_option autoImplicit false

namespace Bindery

def Include.name : Include → Text
  | file name => name
  | system name => name

def Include.files : Include → List Text
  | file name => [name]
  | system _ => []

def isGap (c : UInt8) : Bool := c == Byte.space || c == Byte.tab

def quotedInclude? (t : Text) : Option Text :=
  match Text.after? "include" (t.dropWhile isGap) with
  | none => none
  | some rest =>
    match rest.dropWhile isGap with
    | 34 :: name => some (name.takeWhile (· != Byte.quote))
    | _ => none

/-- The names in the quoted include directives of a text. The flag tells whether only gaps have
been seen on the line so far. -/
def includesFrom : (fresh : Bool) → Text → List Text
  | _, [] => []
  | fresh, c :: t =>
    if c = Byte.newline then includesFrom true t
    else if fresh && isGap c then includesFrom true t
    else if fresh && c == Byte.hash then (quotedInclude? t).toList ++ includesFrom false t
    else includesFrom false t

def includedFiles (content : Text) : List Text := includesFrom true content

/-- Lines that name the given files and leave it to the next line to go on. -/
def Announces (t : Text) (files : List Text) : Prop :=
  ∀ rest, includedFiles (t ++ rest) = files ++ includedFiles rest

/-- Lines without a quoted include. -/
def Silent (t : Text) : Prop := Announces t []

section
variable {s t : Text} {files files' : List Text} {α : Type}

theorem Announces.includedFiles_eq (h : Announces t files) : includedFiles t = files := by
  have hend := h []
  rwa [List.append_nil, includedFiles, includedFiles, includesFrom, List.append_nil] at hend

theorem Announces.append (hs : Announces s files) (ht : Announces t files') :
    Announces (s ++ t) (files ++ files') := by
  intro rest
  rw [List.append_assoc, hs, ht, List.append_assoc]

theorem Announces.flatMap {f : α → Text} {g : α → List Text} {l : List α}
    (h : ∀ a ∈ l, Announces (f a) (g a)) : Announces (l.flatMap f) (l.flatMap g) := by
  induction l with
  | nil => exact fun rest => rfl
  | cons a l ih =>
    rw [List.flatMap_cons, List.flatMap_cons]
    exact (h a List.mem_cons_self).append (ih fun b hb => h b (List.mem_cons_of_mem a hb))

theorem silent_nil : Silent [] := fun _ => rfl

theorem Silent.append (hs : Silent s) (ht : Silent t) : Silent (s ++ t) := Announces.append hs ht

theorem Silent.flatMap {f : α → Text} {l : List α} (h : ∀ a ∈ l, Silent (f a)) :
    Silent (l.flatMap f) := by
  have hnone : l.flatMap (fun _ => ([] : List Text)) = [] := by simp
  have hall := Announces.flatMap (g := fun _ => []) h
  rwa [hnone] at hall

end

/-- The state at the end of a text, if no line of it starts with a hash. -/
def scan : (fresh : Bool) → Text → Option Bool
  | fresh, [] => some fresh
  | fresh, c :: t =>
    if c = Byte.newline then scan true t
    else if fresh && isGap c then scan true t
    else if fresh && c == Byte.hash then none
    else scan false t

theorem scan_append (fresh : Bool) (s t : Text) :
    scan fresh (s ++ t) = (scan fresh s).bind fun fresh' => scan fresh' t := by
  induction s generalizing fresh with
  | nil => rfl
  | cons c s ih =>
    simp only [List.cons_append, scan, ih]
    split_ifs <;> rfl

theorem includesFrom_append {fresh fresh' : Bool} {s : Text} (h : scan fresh s = some fresh')
    (t : Text) : includesFrom fresh (s ++ t) = includesFrom fresh' t := by
  induction s generalizing fresh with
  | nil =>
    cases h
    rfl
  | cons c s ih =>
    rw [scan] at h
    rw [List.cons_append, includesFrom]
    split_ifs at h ⊢
    · exact ih h
    · exact ih h
    · exact ih h

theorem silent_of_scan {t : Text} (h : scan true t = some true) : Silent t := fun rest =>
  includesFrom_append h rest

def NoHash (t : Text) : Prop := (35 : UInt8) ∉ t

instance (t : Text) : Decidable (NoHash t) := inferInstanceAs (Decidable (_ ∉ t))

@[simp] theorem noHash_nil : NoHash [] := List.not_mem_nil

@[simp] theorem noHash_append {s t : Text} : NoHash (s ++ t) ↔ NoHash s ∧ NoHash t := by
  simp [NoHash]

/-- Literals are looked at as lists of characters, without being encoded first. -/
theorem noHash_ascii (l : List Char) (h : (l.all fun c => c.toNat.toUInt8 != 35) = true) :
    NoHash (ascii (String.ofList l)) := by
  rw [ascii, String.toList_ofList]
  intro hmem
  obtain ⟨c, hc, heq⟩ := List.mem_map.mp hmem
  have hne := List.all_eq_true.mp h c hc
  rw [heq] at hne
  exact absurd hne (by decide)

theorem scan_of_noHash {t : Text} (h : NoHash t) (fresh : Bool) :
    ∃ fresh', scan fresh t = some fresh' := by
  induction t generalizing fresh with
  | nil => exact ⟨fresh, rfl⟩
  | cons c t ih =>
    simp only [NoHash, List.mem_cons, not_or] at h
    have hc : (c == Byte.hash) = false := beq_false_of_ne fun he => h.1 he.symm
    simp only [scan, hc, Bool.and_false, Bool.false_eq_true, ↓reduceIte]
    split_ifs
    · exact ih h.2 true
    · exact ih h.2 true
    · exact ih h.2 false

theorem silent_of_noHash {t ending : Text} (h : NoHash t)
    (hend : ∀ fresh, scan fresh ending = some true) : Silent (t ++ ending) := by
  obtain ⟨fresh, hscan⟩ := scan_of_noHash h true
  apply silent_of_scan
  rw [scan_append, hscan]
  exact hend fresh

theorem includesFrom_false_line {line : Text} (h : Byte.newline ∉ line) (rest : Text) :
    includesFrom false (line ++ Byte.newline :: rest) = includedFiles rest := by
  induction line with
  | nil => rfl
  | cons c line ih =>
    simp only [List.mem_cons, not_or] at h
    have hc : c ≠ Byte.newline := fun he => h.1 he.symm
    simp only [List.cons_append, includesFrom, if_neg hc, Bool.false_and, Bool.false_eq_true,
      ↓reduceIte]
    exact ih h.2

theorem includedFiles_directive {line : Text} (h : Byte.newline ∉ line) (rest : Text) :
    includedFiles (Byte.hash :: line ++ Byte.newline :: rest) =
      (quotedInclude? (line ++ Byte.newline :: rest)).toList ++ includedFiles rest := by
  rw [← includesFrom_false_line h rest]
  rfl

theorem announces_file {name : Text} (hline : Byte.newline ∉ name) (hquote : Byte.quote ∉ name) :
    Announces (Include.text (.file name)) [name] := by
  intro rest
  have htext : Include.text (.file name) ++ rest = Byte.hash ::
      (ascii "include \"" ++ name ++ ascii "\"") ++ Byte.newline :: rest := by
    simp only [Include.text, List.cons_append, List.append_assoc]
    rfl
  have hname : quotedInclude? ((ascii "include \"" ++ name ++ ascii "\"") ++
      Byte.newline :: rest) = some name := by
    have hbegin : (ascii "include \"" ++ name ++ ascii "\"") ++ Byte.newline :: rest =
        ascii "include" ++ (Byte.space :: Byte.quote :: (name ++ Byte.quote ::
          Byte.newline :: rest)) := by
      simp only [List.append_assoc]
      rfl
    have hgap : ∀ t, (ascii "include" ++ t).dropWhile isGap = ascii "include" ++ t := fun t => rfl
    rw [hbegin, quotedInclude?, hgap, Json.after?_eq_some_iff.mpr rfl]
    show some ((name ++ Byte.quote :: Byte.newline :: rest).takeWhile (· != Byte.quote)) = _
    rw [List.takeWhile_append_of_pos]
    · simp
    · intro c hc
      exact bne_iff_ne.mpr fun he => hquote (he ▸ hc)
  have hnoline : Byte.newline ∉ ascii "include \"" ++ name ++ ascii "\"" := by
    simp only [List.mem_append, not_or]
    exact ⟨⟨by decide, hline⟩, by decide⟩
  rw [htext, includedFiles_directive hnoline, hname]
  rfl

theorem silent_directive {line : Text} (hline : Byte.newline ∉ line)
    (hquoted : ∀ rest, quotedInclude? (line ++ rest) = none) :
    Silent (Byte.hash :: line ++ [Byte.newline]) := by
  intro rest
  rw [List.append_assoc, List.singleton_append, includedFiles_directive hline, hquoted]
  rfl

theorem announces_include {i : Include} (hline : Byte.newline ∉ i.name)
    (hquote : Byte.quote ∉ i.name) : Announces i.text i.files := by
  cases i with
  | file name => exact announces_file hline hquote
  | system name =>
    have htext : Include.text (.system name) =
        Byte.hash :: (ascii "include <" ++ name ++ ascii ">") ++ [Byte.newline] := by
      simp only [Include.text, List.cons_append, List.append_assoc]
      rfl
    rw [htext]
    refine silent_directive ?_ fun rest => rfl
    simp only [List.mem_append, not_or]
    exact ⟨⟨by decide, hline⟩, by decide⟩

theorem newline_notMem_splitOn (t : Text) :
    ∀ piece ∈ Text.splitOn Byte.newline t, Byte.newline ∉ piece := by
  induction t with
  | nil => simp [Text.splitOn]
  | cons c t ih =>
    rw [Text.splitOn]
    split_ifs with hc
    · simpa using ih
    · have hc : Byte.newline ≠ c := fun he => hc he.symm
      cases hpieces : Text.splitOn Byte.newline t with
      | nil => simpa using hc
      | cons piece pieces =>
        rw [hpieces] at ih
        simp only [List.mem_cons, forall_eq_or_imp, not_or] at ih ⊢
        exact ⟨⟨hc, ih.1⟩, ih.2⟩

theorem newline_notMem_lines (t : Text) : ∀ line ∈ Text.lines t, Byte.newline ∉ line := by
  intro line hline
  rw [Text.lines] at hline
  split_ifs at hline
  · exact newline_notMem_splitOn t line (List.dropLast_subset _ hline)
  · exact newline_notMem_splitOn t line hline

/-- What a comment says is on the line of its slashes, whatever it is. -/
theorem silent_commentLine {indent line : Text} (hindent : scan true indent = some true)
    (hline : Byte.newline ∉ line) : Silent (commentLine indent line) := by
  have hrest : Byte.newline ∉ ascii "//" ++ (if line.isEmpty then [] else Byte.space :: line) := by
    have hslashes : Byte.newline ∉ ascii "//" := by decide
    have hspace : Byte.newline ≠ Byte.space := by decide
    split_ifs
    · simpa using hslashes
    · simp [hslashes, hspace, hline]
  have htext : commentLine indent line = indent ++ (Byte.slash :: (ascii "//" ++
      (if line.isEmpty then [] else Byte.space :: line)) ++ [Byte.newline]) := by
    simp only [commentLine, List.append_assoc]
    rfl
  intro rest
  rw [htext, List.append_assoc, includedFiles, includesFrom_append hindent]
  show includesFrom false ((_ ++ [Byte.newline]) ++ rest) = _
  rw [List.append_assoc, List.singleton_append]
  exact includesFrom_false_line hrest rest

theorem silent_docComment {indent : Text} (hindent : scan true indent = some true)
    (hhash : NoHash indent) (docs : Text) {extra : List Text}
    (hextra : ∀ line ∈ extra, NoHash line) :
    Silent (docComment indent docs extra) := by
  have hclosed : ∀ fresh, scan fresh (ascii "///\n") = some true := by decide
  have hnewline : ∀ fresh, scan fresh (ascii "\n") = some true := by decide
  rw [docComment]
  refine (Silent.append ?_ ?_).append ?_
  · apply Silent.flatMap
    intro line hline
    exact silent_commentLine hindent (newline_notMem_lines docs line hline)
  · split_ifs
    · exact silent_nil
    · exact silent_of_noHash hhash hclosed
  · apply Silent.flatMap
    intro line hline
    refine silent_of_noHash ?_ hnewline
    have hslashes : NoHash (ascii "/// ") := noHash_ascii _ (by decide)
    simp [hhash, hslashes, hextra line hline]

theorem forall_byte {P : UInt8 → Prop} (h : ∀ n : Fin 256, P (UInt8.ofFin n)) (c : UInt8) : P c :=
  h c.toFin

theorem guardByte_ne_newline : ∀ c, guardByte c ≠ Byte.newline :=
  forall_byte (by decide +kernel)

theorem newline_notMem_guardName (file : Text) : Byte.newline ∉ guardName file := by
  intro hmem
  obtain ⟨c, -, hc⟩ := List.mem_map.mp hmem
  exact guardByte_ne_newline c hc

theorem silent_openGuard (file : Text) : Silent (openGuard file) := by
  have hguard := newline_notMem_guardName file
  have hifndef : Silent (Byte.hash :: (ascii "ifndef " ++ guardName file) ++ [Byte.newline]) := by
    refine silent_directive ?_ fun rest => rfl
    simp only [List.mem_append, not_or]
    exact ⟨by decide, hguard⟩
  have hdefine : Silent (Byte.hash :: (ascii "define " ++ guardName file) ++ [Byte.newline]) := by
    refine silent_directive ?_ fun rest => rfl
    simp only [List.mem_append, not_or]
    exact ⟨by decide, hguard⟩
  have hblank : Silent [Byte.newline] := fun _ => rfl
  have htext : openGuard file = (Byte.hash :: (ascii "ifndef " ++ guardName file) ++
      [Byte.newline]) ++ (Byte.hash :: (ascii "define " ++ guardName file) ++ [Byte.newline]) ++
      [Byte.newline] := by
    simp only [openGuard, List.append_assoc, List.cons_append]
    rfl
  rw [htext]
  exact (hifndef.append hdefine).append hblank

theorem silent_closeGuard (file : Text) : Silent (closeGuard file) := by
  have htext : closeGuard file =
      Byte.hash :: (ascii "endif // " ++ guardName file) ++ [Byte.newline] := by
    simp only [closeGuard, List.append_assoc, List.cons_append]
    rfl
  rw [htext]
  refine silent_directive ?_ fun rest => rfl
  simp only [List.mem_append, not_or]
  exact ⟨by decide, newline_notMem_guardName file⟩

def Scope.Plain : Scope → Prop
  | linkage => True
  | named ns => NoHash ns

theorem silent_opening {scope : Scope} (h : scope.Plain) : Silent scope.opening := by
  cases scope with
  | linkage => exact fun _ => rfl
  | named ns =>
    have hword : NoHash (ascii "namespace ") := noHash_ascii _ (by decide)
    exact silent_of_noHash (noHash_append.mpr ⟨hword, h⟩) (by decide)

theorem silent_closing {scope : Scope} (h : scope.Plain) : Silent scope.closing := by
  cases scope with
  | linkage => exact fun _ => rfl
  | named ns =>
    have hword : NoHash (ascii "\x7d // namespace ") := noHash_ascii _ (by decide)
    exact silent_of_noHash (noHash_append.mpr ⟨hword, h⟩) (by decide)

section
variable {δ : Type}

theorem Header.files_eq (h : Header δ) :
    h.files = h.includes.flatMap fun group => group.flatMap Include.files := by
  have hgroup : ∀ group : List Include, (group.filterMap fun i =>
      match i with
      | .file name => some name
      | .system _ => none) = group.flatMap Include.files := by
    intro group
    induction group with
    | nil => rfl
    | cons i group ih => cases i <;> simp [Include.files, ih]
  rw [Header.files, List.filterMap_flatten, List.flatMap]
  exact congrArg List.flatten (List.map_congr_left fun group _ => hgroup group)

structure Header.Plain (h : Header δ) : Prop where
  includes : ∀ group ∈ h.includes, ∀ i ∈ group, Byte.newline ∉ i.name ∧ Byte.quote ∉ i.name
  scope : h.scope.Plain

/-- A header whose declarations are silent includes the files it says it does. -/
theorem includedFiles_render {declText : δ → Text} {h : Header δ} (hplain : h.Plain)
    (hdecls : ∀ d ∈ h.decls, Silent (declText d)) :
    includedFiles (h.render declText) = h.files := by
  have hbanner : Silent banner := fun _ => rfl
  have hblank : Silent (ascii "\n") := fun _ => rfl
  have hincludes : Announces (Header.includeText h.includes) h.files := by
    rw [h.files_eq, Header.includeText]
    apply Announces.flatMap
    intro group hgroup
    have hlines : Announces (group.flatMap Include.text) (group.flatMap Include.files) := by
      apply Announces.flatMap
      intro i hi
      obtain ⟨hline, hquote⟩ := hplain.includes group hgroup i hi
      exact announces_include hline hquote
    have hgroup := hlines.append hblank
    rwa [List.append_nil] at hgroup
  have hbody := ((silent_opening hplain.scope).append (Silent.flatMap hdecls)).append
    (silent_closing hplain.scope)
  have hhead := Announces.append (hbanner.append (silent_openGuard h.file)) hincludes
  have hall := (hhead.append (hbody.append (silent_closeGuard h.file))).includedFiles_eq
  rw [List.nil_append, List.append_nil] at hall
  rw [← hall, Header.render]
  simp only [List.append_assoc]

end

end Bindery
