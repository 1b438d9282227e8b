import Bindery.Command.Run
import Bindery.Proofs.Files.Names

/-!
Writing the artifacts of a report into a directory. Writing one of them is in the way of no other,
so all are written if each could be, and afterwards each is found as it should be, nothing but
artifacts has changed, and none would be written again.
-/

set_option autoImplicit false

namespace Bindery

open Bindery.Path

namespace FileTree

variable {t t' u : FileTree} {directory : Text} {d : Place} {a : Artifact}
  {artifacts : List Artifact}

/-- The artifact can be written, or need not be. -/
def Admits (t : FileTree) (directory : Text) (a : Artifact) : Prop :=
  ∃ new, (t.writeIfChanged (join directory a.path) a.content).1 = .ok new

def writeAll (directory : Text) : List Artifact → FileTree → Except Fault Nat × FileTree
  | [], t => (.ok 0, t)
  | a :: rest, t =>
    match t.writeIfChanged (join directory a.path) a.content with
    | (.error fault, t) => (.error fault, t)
    | (.ok new, t) =>
      match writeAll directory rest t with
      | (.error fault, t) => (.error fault, t)
      | (.ok count, t) => (.ok (if new then count + 1 else count), t)

theorem writeAll_cons {count : Nat} (h : writeAll directory (a :: artifacts) t = (.ok count, t')) :
    ∃ new t₁ others, t.writeIfChanged (join directory a.path) a.content = (.ok new, t₁) ∧
      writeAll directory artifacts t₁ = (.ok others, t') := by
  rw [writeAll] at h
  cases hwrite : t.writeIfChanged (join directory a.path) a.content with
  | mk result t₁ =>
    cases result with
    | error fault =>
      rw [hwrite] at h
      cases h
    | ok new =>
      cases hall : writeAll directory artifacts t₁ with
      | mk result t₂ =>
        cases result with
        | error fault => simp [hwrite, hall] at h
        | ok others =>
          simp only [hwrite, hall] at h
          cases h
          exact ⟨new, t₁, others, rfl, hall⟩

theorem Ready.admits_iff (hready : t.Ready directory u d) (hzero : (0 : UInt8) ∉ directory)
    (ha : IsName a.path) :
    t.Admits directory a ↔
      Fits directory a.path ∧ u.shown? (d ++ [a.path]) ≠ some .directory := by
  rw [Admits, writeIfChanged_isOk_iff hzero ha]
  constructor
  · rintro ⟨hfits, u', d', hready', hentry⟩
    obtain ⟨rfl, rfl⟩ := hready.unique hready' ha
    exact ⟨hfits, hentry⟩
  · exact fun ⟨hfits, hentry⟩ => ⟨hfits, u, d, hready, hentry⟩

theorem exists_ready (hzero : (0 : UInt8) ∉ directory) (ha : IsName a.path) (ht : t.WellFormed)
    {new : Bool} (h : t.writeIfChanged (join directory a.path) a.content = (.ok new, t')) :
    ∃ u d, t.Ready directory u d ∧ Wrote u (d ++ [a.path]) a.content t' ∧
      u.shown? (d ++ [a.path]) ≠ some .directory ∧ t'.Ready directory t' d := by
  have hadmits : t.Admits directory a := ⟨new, by rw [h]⟩
  obtain ⟨hfits, u, d, hready, hentry⟩ := (writeIfChanged_isOk_iff hzero ha).mp hadmits
  have hwrote := writeIfChanged_wrote hzero ha ht hready h
  exact ⟨u, d, hready, hwrote, hentry,
    ready_of_holder hzero hfits.lead_le
      (hready.holder.mono hwrote.workingDirectory (hwrote.keepsDirectories hentry))⟩

theorem writeIfChanged_wellFormed (ha : IsName a.path) (ht : t.WellFormed) {new : Bool}
    (h : t.writeIfChanged (join directory a.path) a.content = (.ok new, t')) : t'.WellFormed := by
  by_cases hzero : (0 : UInt8) ∈ directory
  · rw [(writeIfChanged_of_zero hzero ha ht h).1]
    exact ht
  · obtain ⟨u, d, -, hwrote, -⟩ := exists_ready hzero ha ht h
    exact hwrote.wellFormed

/-- One artifact is in the way of no other. -/
theorem admits_after {b : Artifact} (ha : IsName a.path) (hb : IsName b.path) (ht : t.WellFormed)
    {new : Bool} (h : t.writeIfChanged (join directory a.path) a.content = (.ok new, t')) :
    t'.Admits directory b ↔ t.Admits directory b := by
  by_cases hzero : (0 : UInt8) ∈ directory
  · rw [(writeIfChanged_of_zero hzero ha ht h).1]
  · obtain ⟨u, d, hready, hwrote, hentry, hready'⟩ := exists_ready hzero ha ht h
    rw [hready.admits_iff hzero hb, hready'.admits_iff hzero hb, hwrote.shown?]
    split_ifs with heq
    · rw [heq]
      simp [hentry]
    · rfl

theorem writeAll_isOk_iff (hnames : ∀ a ∈ artifacts, IsName a.path) (ht : t.WellFormed) :
    (∃ count, (writeAll directory artifacts t).1 = .ok count) ↔
      ∀ a ∈ artifacts, t.Admits directory a := by
  induction artifacts generalizing t with
  | nil => simp [writeAll]
  | cons a rest ih =>
    obtain ⟨ha, hrest⟩ := List.forall_mem_cons.mp hnames
    rw [List.forall_mem_cons, writeAll]
    cases hwrite : t.writeIfChanged (join directory a.path) a.content with
    | mk result t' =>
      cases result with
      | error fault =>
        have hnot : ¬t.Admits directory a := by
          rintro ⟨new, h⟩
          rw [hwrite] at h
          cases h
        simp [hnot]
      | ok new =>
        have hadmits : t.Admits directory a := ⟨new, by rw [hwrite]⟩
        have hafter : (∀ b ∈ rest, t'.Admits directory b) ↔ ∀ b ∈ rest, t.Admits directory b :=
          forall₂_congr fun b hb => admits_after ha (hrest b hb) ht hwrite
        rw [← hafter, ← ih hrest (writeIfChanged_wellFormed ha ht hwrite)]
        cases hall : writeAll directory rest t' with
        | mk result u => cases result <;> simp [hall, hadmits]

/-- What writing artifacts comes to, seen from the tree in which their directory is there. -/
structure WroteAll (u : FileTree) (d : Place) (artifacts : List Artifact) (t' : FileTree) :
    Prop where
  workingDirectory : t'.workingDirectory = u.workingDirectory
  directories : u.KeepsDirectories t'
  holds : ∀ a ∈ artifacts, t'.shown? (d ++ [a.path]) = some (.file a.content)
  others : ∀ p, (∀ a ∈ artifacts, p ≠ d ++ [a.path]) → t'.shown? p = u.shown? p

theorem WroteAll.nil (t : FileTree) (d : Place) : WroteAll t d [] t :=
  ⟨rfl, fun _ => id, List.forall_mem_nil _, fun _ _ => rfl⟩

theorem WroteAll.cons (hwrote : Wrote u (d ++ [a.path]) a.content t)
    (hentry : u.shown? (d ++ [a.path]) ≠ some .directory)
    (hdistinct : ∀ b ∈ artifacts, b.path ≠ a.path) (hall : WroteAll t d artifacts t') :
    WroteAll u d (a :: artifacts) t' where
  workingDirectory := hall.workingDirectory.trans hwrote.workingDirectory
  directories p hp := hall.directories p (hwrote.keepsDirectories hentry p hp)
  holds := by
    rw [List.forall_mem_cons]
    refine ⟨?_, hall.holds⟩
    rw [hall.others, hwrote.shown?, if_pos rfl]
    intro b hb heq
    exact hdistinct b hb (List.singleton_injective (List.append_cancel_left heq)).symm
  others p hp := by
    rw [List.forall_mem_cons] at hp
    rw [hall.others p hp.2, hwrote.shown?, if_neg hp.1]

theorem writeAll_wroteAll (hzero : (0 : UInt8) ∉ directory)
    (hnames : ∀ a ∈ artifacts, IsName a.path) (hdistinct : (artifacts.map Artifact.path).Nodup)
    (ht : t.WellFormed) {count : Nat} (h : writeAll directory artifacts t = (.ok count, t')) :
    (artifacts = [] ∧ t' = t) ∨
      ∃ u d, t.Ready directory u d ∧ t.Grows u ∧ WroteAll u d artifacts t' := by
  induction artifacts generalizing t count with
  | nil =>
    cases h
    exact .inl ⟨rfl, rfl⟩
  | cons a rest ih =>
    obtain ⟨ha, hrest⟩ := List.forall_mem_cons.mp hnames
    rw [List.map_cons, List.nodup_cons] at hdistinct
    have hne : ∀ b ∈ rest, b.path ≠ a.path := fun b hb heq =>
      hdistinct.1 (heq ▸ List.mem_map_of_mem hb)
    obtain ⟨new, t₁, others, hwrite, hall⟩ := writeAll_cons h
    obtain ⟨u, d, hready, hwrote, hentry, hready₁⟩ := exists_ready hzero ha ht hwrite
    refine .inr ⟨u, d, hready, (hready.wellFormed ht ha).2, ?_⟩
    rcases ih hrest hdistinct.2 hwrote.wellFormed hall with ⟨rfl, rfl⟩ | ⟨u', d', h', -, hall'⟩
    · exact .cons hwrote hentry hne (.nil _ d)
    · obtain ⟨rfl, rfl⟩ := hready₁.unique h' ha
      exact .cons hwrote hentry hne hall'

theorem writeAll_of_zero (hzero : (0 : UInt8) ∈ directory)
    (hnames : ∀ a ∈ artifacts, IsName a.path) (ht : t.WellFormed) {count : Nat}
    (h : writeAll directory artifacts t = (.ok count, t')) :
    t' = t ∧ ∀ a ∈ artifacts, t.file? (join directory a.path) = some a.content := by
  induction artifacts generalizing count with
  | nil =>
    cases h
    exact ⟨rfl, List.forall_mem_nil _⟩
  | cons a rest ih =>
    obtain ⟨ha, hrest⟩ := List.forall_mem_cons.mp hnames
    obtain ⟨new, t₁, others, hwrite, hall⟩ := writeAll_cons h
    obtain ⟨rfl, hfile⟩ := writeIfChanged_of_zero hzero ha ht hwrite
    obtain ⟨rfl, hfiles⟩ := ih hrest hall
    exact ⟨rfl, List.forall_mem_cons.mpr ⟨hfile, hfiles⟩⟩

/-- The tree that artifacts were written to. All of them are there, under their own names, and no
other file has changed. -/
structure Leaves (t : FileTree) (directory : Text) (artifacts : List Artifact) (t' : FileTree) :
    Prop where
  workingDirectory : t'.workingDirectory = t.workingDirectory
  directories : t.KeepsDirectories t'
  holds : ∀ a ∈ artifacts, t'.file? (join directory a.path) = some a.content
  changes : ∀ p, t'.fileAt? p ≠ t.fileAt? p → ∃ a ∈ artifacts, ∃ d, p = d ++ [a.path] ∧
    t'.resolve (join directory a.path) = .ok (.file p a.content)

theorem Leaves.refl (h : ∀ a ∈ artifacts, t.file? (join directory a.path) = some a.content) :
    t.Leaves directory artifacts t :=
  ⟨rfl, fun _ => id, h, fun _ hp => absurd rfl hp⟩

theorem fileAt?_congr {p : Place} (h : t'.shown? p = t.shown? p) : t'.fileAt? p = t.fileAt? p := by
  rw [fileAt?, fileAt?, h]

theorem WroteAll.leaves (hall : WroteAll u d artifacts t') (hzero : (0 : UInt8) ∉ directory)
    (hnames : ∀ a ∈ artifacts, IsName a.path) (hfits : ∀ a ∈ artifacts, Fits directory a.path)
    (hd : u.Holder directory d) (hgrows : t.Grows u) : t.Leaves directory artifacts t' := by
  have hholder : t'.Holder directory d := hd.mono hall.workingDirectory hall.directories
  have hresolve : ∀ a ∈ artifacts,
      t'.resolve (join directory a.path) = .ok (.file (d ++ [a.path]) a.content) := by
    intro a ha
    rw [resolve_eq_ok_iff hzero (hnames a ha)]
    exact ⟨hfits a ha, d, hholder, (spotAt_eq_file_iff.mpr ⟨rfl, hall.holds a ha⟩).symm⟩
  refine ⟨hall.workingDirectory.trans hgrows.workingDirectory,
    fun p hp => hall.directories p (hgrows.directories p hp),
    fun a ha => file?_eq_some.mpr ⟨_, hresolve a ha⟩, fun p hp => ?_⟩
  by_contra hnone
  apply hp
  have hother : ∀ a ∈ artifacts, p ≠ d ++ [a.path] := by
    rintro a ha rfl
    exact hnone ⟨a, ha, d, rfl, hresolve a ha⟩
  rw [fileAt?_congr (hall.others p hother), hgrows.files]

theorem writeAll_leaves (hnames : ∀ a ∈ artifacts, IsName a.path)
    (hdistinct : (artifacts.map Artifact.path).Nodup) (ht : t.WellFormed) {count : Nat}
    (h : writeAll directory artifacts t = (.ok count, t')) : t.Leaves directory artifacts t' := by
  by_cases hzero : (0 : UInt8) ∈ directory
  · obtain ⟨rfl, hfiles⟩ := writeAll_of_zero hzero hnames ht h
    exact .refl hfiles
  · rcases writeAll_wroteAll hzero hnames hdistinct ht h with
      ⟨rfl, rfl⟩ | ⟨u, d, hready, hgrows, hall⟩
    · exact .refl (List.forall_mem_nil _)
    · have hadmits : ∀ a ∈ artifacts, t.Admits directory a :=
        (writeAll_isOk_iff hnames ht).mp ⟨count, by rw [h]⟩
      exact hall.leaves hzero hnames
        (fun a ha => ((hready.admits_iff hzero (hnames a ha)).mp (hadmits a ha)).1) hready.holder
        hgrows

def sameFile (t : FileTree) (p q : Text) : Bool :=
  match t.resolve p, t.resolve q with
  | .ok (.file place _), .ok (.file other _) => place == other
  | _, _ => false

theorem sameFile_of_names {directory' name name' : Text} (hzero : (0 : UInt8) ∉ directory)
    (hzero' : (0 : UInt8) ∉ directory') (hname : IsName name) (hname' : IsName name')
    (hne : name ≠ name') :
    t.sameFile (join directory name) (join directory' name') = false := by
  unfold sameFile
  split
  · rename_i p c q c' hp hq
    obtain ⟨-, d, -, hspot⟩ := (resolve_eq_ok_iff hzero hname).mp hp
    obtain ⟨-, d', -, hspot'⟩ := (resolve_eq_ok_iff hzero' hname').mp hq
    obtain ⟨rfl, -⟩ := spotAt_eq_file_iff.mp hspot.symm
    obtain ⟨rfl, -⟩ := spotAt_eq_file_iff.mp hspot'.symm
    rw [beq_eq_false_iff_ne]
    intro heq
    exact hne (List.singleton_injective (List.append_inj' heq rfl).2)
  · rfl

theorem shown?_of_resolve {path : Text} {p : Place} {content : Text}
    (h : t.resolve path = .ok (.file p content)) : t.shown? p = some (.file content) :=
  (resolve_eq_ok.mp h).2.shown?_file

theorem Leaves.resolve (h : t.Leaves directory artifacts t') {path : Text} {p : Place}
    {content : Text} (hpath : t.resolve path = .ok (.file p content))
    (hapart : ∀ a ∈ artifacts, t'.sameFile (join directory a.path) path = false) :
    t'.resolve path = .ok (.file p content) := by
  obtain ⟨hfollowed, hreaches⟩ := resolve_eq_ok.mp hpath
  -- the path leads to the same place, whatever is in the file
  have hplace : ∀ {new : Text}, t'.shown? p = some (.file new) →
      t'.resolve path = .ok (.file p new) := by
    intro new hnew
    rw [resolve_eq_ok, origin_congr h.workingDirectory]
    exact ⟨hfollowed, hreaches.mono_file h.directories hnew⟩
  by_cases hsame : t'.fileAt? p = t.fileAt? p
  · apply hplace
    rw [← fileAt?_eq_some_iff, hsame, fileAt?_eq_some_iff]
    exact shown?_of_resolve hpath
  · obtain ⟨a, ha, d, -, hresolve⟩ := h.changes p hsame
    have hfound := hapart a ha
    rw [sameFile, hresolve, hplace (shown?_of_resolve hresolve)] at hfound
    simp at hfound

theorem writeAll_of_holds
    (h : ∀ a ∈ artifacts, t.file? (join directory a.path) = some a.content) :
    writeAll directory artifacts t = (.ok 0, t) := by
  induction artifacts with
  | nil => rfl
  | cons a rest ih =>
    obtain ⟨ha, hrest⟩ := List.forall_mem_cons.mp h
    rw [writeAll, writeIfChanged, if_pos ha]
    simp only [ih hrest]
    rfl

end FileTree

end Bindery
