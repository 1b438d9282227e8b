import Bindery.Proofs.Files.Growth
import Bindery.Proofs.Files.Paths

/-!
Files written into one directory under plain names. All their paths lead through the same directory,
which is made once, and each write changes what is at one name in it.
-/

set_option autoImplicit false

namespace Bindery

namespace Path

def leadSteps (directory : Text) : List Step :=
  if (lead directory).isEmpty then [] else steps (lead directory).dropLast

variable {name : Text} (hname : IsName name) (directory : Text)

include hname

theorem steps_lead : steps (lead directory ++ name) = leadSteps directory ++ [.down name] := by
  unfold leadSteps
  rcases lead_cases directory with h | ⟨q, h⟩
  · rw [h, List.nil_append, steps_name hname]
    rfl
  · rw [h, List.append_assoc, List.singleton_append, steps_append, steps_name hname,
      List.dropLast_concat, if_neg (by simp)]

theorem isAbsolute_lead : isAbsolute (lead directory ++ name) = isAbsolute (lead directory) := by
  rcases lead_cases directory with h | ⟨q, h⟩
  · rw [h, List.nil_append, hname.not_isAbsolute]
    rfl
  · rw [h]
    cases q <;> rfl

end Path

namespace FileTree

open Bindery.Path

variable {t t' u : FileTree} {directory name content : Text} {d : Place}

/-- Names in a directory that is written `directory` are at `d`. -/
def Holder (t : FileTree) (directory : Text) (d : Place) : Prop :=
  t.Reaches (t.origin (lead directory)) (leadSteps directory) (.directory d)

theorem Holder.mono (h : t.Holder directory d)
    (hworking : t'.workingDirectory = t.workingDirectory) (hkeeps : t.KeepsDirectories t') :
    t'.Holder directory d := by
  rw [Holder, origin_congr hworking]
  exact Reaches.mono hkeeps h

theorem Holder.shown? (h : t.Holder directory d) (ht : t.WellFormed) :
    t.shown? d = some .directory := Reaches.shown? h (ht.origin _)

def Fits (directory name : Text) : Prop :=
  (lead directory ++ name).length ≤ lengthLimit ∧ name.length ≤ nameLimit

def spotAt (t : FileTree) (p : Place) : Spot :=
  match t.shown? p with
  | some .directory => .directory p
  | some (.file content) => .file p content
  | none => .vacant p

theorem spotAt_eq_file_iff {p q : Place} :
    t.spotAt p = .file q content ↔ q = p ∧ t.shown? p = some (.file content) := by
  unfold spotAt
  split
  · simp [*]
  · simp [*, eq_comm]
  · simp [*]

theorem spotAt_eq_vacant_iff {p q : Place} :
    t.spotAt p = .vacant q ↔ q = p ∧ t.shown? p = none := by
  unfold spotAt
  split
  · simp [*]
  · simp [*]
  · simp [*, eq_comm]

theorem file?_eq_some {path : Text} :
    t.file? path = some content ↔ ∃ p, t.resolve path = .ok (.file p content) := by
  unfold file?
  split
  · simp [*]
  · rename_i h
    exact ⟨nofun, fun ⟨p, hp⟩ => absurd hp (h p content)⟩

theorem writable?_eq_some {path : Text} {p : Place} :
    t.writable? path = some p ↔
      (∃ content, t.resolve path = .ok (.file p content)) ∨
        t.resolve path = .ok (.vacant p) := by
  unfold writable?
  split
  · simp [*]
  · simp [*]
  · rename_i hfile hvacant
    refine ⟨nofun, ?_⟩
    rintro (⟨content, h⟩ | h)
    · exact absurd h (hfile p content)
    · exact absurd h (hvacant p)

theorem reaches_down {p : Place} {spot : Spot} :
    t.Reaches p [.down name] spot ↔
      name.length ≤ nameLimit ∧ spot = t.spotAt (p ++ [name]) := by
  unfold spotAt
  constructor
  · intro h
    cases h with
    | enter hlimit hentry h =>
      cases h
      rw [hentry]
      exact ⟨hlimit, rfl⟩
    | file hlimit hentry =>
      rw [hentry]
      exact ⟨hlimit, rfl⟩
    | vacant hlimit hentry =>
      rw [hentry]
      exact ⟨hlimit, rfl⟩
  · rintro ⟨hlimit, rfl⟩
    split
    · exact .enter hlimit ‹_› .here
    · exact .file hlimit ‹_›
    · exact .vacant hlimit ‹_›

theorem untilZero_of_notMem {path : Text} (h : (0 : UInt8) ∉ path) :
    Text.untilZero path = path := by
  rw [Text.untilZero, List.takeWhile_eq_self_iff]
  intro c hc
  exact bne_iff_ne.mpr fun heq => h (heq ▸ hc)

section
variable (hzero : (0 : UInt8) ∉ directory) (hname : IsName name)
include hzero

theorem zero_notMem_lead : (0 : UInt8) ∉ lead directory := by
  unfold lead
  split_ifs
  · simp
  · exact hzero
  · have hslash : (0 : UInt8) ≠ Byte.slash := by decide
    simp [hzero, hslash]

include hname

theorem resolve_eq_ok_iff {spot : Spot} :
    t.resolve (join directory name) = .ok spot ↔
      Fits directory name ∧ ∃ d, t.Holder directory d ∧ spot = t.spotAt (d ++ [name]) := by
  rw [join_name hname]
  have hvisible : Text.untilZero (lead directory ++ name) = lead directory ++ name :=
    untilZero_of_notMem (by simp [zero_notMem_lead hzero, hname.zero])
  have hne : lead directory ++ name ≠ [] := by simp [hname.nonempty]
  rw [resolve_eq_ok, IsFollowed, hvisible, steps_lead hname, origin, isAbsolute_lead hname]
  constructor
  · rintro ⟨hfollowed, h⟩
    obtain ⟨d, hd, hdown⟩ := h.split (List.cons_ne_nil _ _)
    obtain ⟨hlimit, hspot⟩ := reaches_down.mp hdown
    exact ⟨⟨hfollowed.2, hlimit⟩, d, hd, hspot⟩
  · rintro ⟨hfits, d, hd, hspot⟩
    exact ⟨⟨hne, hfits.1⟩, Reaches.append hd (reaches_down.mpr ⟨hfits.2, hspot⟩)⟩

theorem file?_eq_some_iff :
    t.file? (join directory name) = some content ↔
      Fits directory name ∧ ∃ d, t.Holder directory d ∧
        t.shown? (d ++ [name]) = some (.file content) := by
  rw [file?_eq_some]
  constructor
  · rintro ⟨p, h⟩
    obtain ⟨hfits, d, hd, hspot⟩ := (resolve_eq_ok_iff hzero hname).mp h
    exact ⟨hfits, d, hd, (spotAt_eq_file_iff.mp hspot.symm).2⟩
  · rintro ⟨hfits, d, hd, hentry⟩
    refine ⟨d ++ [name], (resolve_eq_ok_iff hzero hname).mpr ⟨hfits, d, hd, ?_⟩⟩
    exact (spotAt_eq_file_iff.mpr ⟨rfl, hentry⟩).symm

theorem writable?_eq_some_iff {p : Place} :
    t.writable? (join directory name) = some p ↔
      Fits directory name ∧ ∃ d, t.Holder directory d ∧ p = d ++ [name] ∧
        t.shown? p ≠ some .directory := by
  rw [writable?_eq_some]
  constructor
  · rintro (⟨content, h⟩ | h)
    · obtain ⟨hfits, d, hd, hspot⟩ := (resolve_eq_ok_iff hzero hname).mp h
      obtain ⟨rfl, hentry⟩ := spotAt_eq_file_iff.mp hspot.symm
      exact ⟨hfits, d, hd, rfl, by simp [hentry]⟩
    · obtain ⟨hfits, d, hd, hspot⟩ := (resolve_eq_ok_iff hzero hname).mp h
      obtain ⟨rfl, hentry⟩ := spotAt_eq_vacant_iff.mp hspot.symm
      exact ⟨hfits, d, hd, rfl, by simp [hentry]⟩
  · rintro ⟨hfits, d, hd, rfl, hentry⟩
    have hresolve := (resolve_eq_ok_iff (t := t) hzero hname).mpr ⟨hfits, d, hd, rfl⟩
    rw [hresolve]
    cases he : t.shown? (d ++ [name]) with
    | none => exact .inr (congrArg _ (spotAt_eq_vacant_iff.mpr ⟨rfl, he⟩))
    | some e =>
      cases e with
      | directory => exact absurd he hentry
      | file content => exact .inl ⟨content, congrArg _ (spotAt_eq_file_iff.mpr ⟨rfl, he⟩)⟩

end

theorem prepare_eq_of_names {name' : Text} (hname : IsName name) (hname' : IsName name')
    (t : FileTree) (directory : Text) :
    t.prepare (join directory name) = t.prepare (join directory name') := by
  have hparent : parent (join directory name) = parent (join directory name') := by
    rw [join_name hname, join_name hname']
    rcases lead_cases directory with h | ⟨q, h⟩
    · rw [h, List.nil_append, List.nil_append, parent_name hname, parent_name hname']
    · rw [h, parent_append hname, parent_append hname']
  rw [prepare, prepare, hparent]

theorem prepare_grows (ht : t.WellFormed) (path : Text) :
    (t.prepare path).2.WellFormed ∧ t.Grows (t.prepare path).2 := by
  obtain ⟨hwell, hgrows, -⟩ := createDirectories_makes ht (parent path)
  unfold prepare
  split
  · exact ⟨ht, .refl t⟩
  · split
    · rename_i made hmade
      rw [hmade] at hwell hgrows
      exact ⟨hwell, hgrows⟩
    · rename_i obstacle made hmade
      rw [hmade] at hwell hgrows
      exact ⟨hwell, hgrows⟩

theorem resolve_trunk {q : Text} (hzero : (0 : UInt8) ∉ q ++ [Byte.slash])
    (hlength : (q ++ [Byte.slash]).length ≤ lengthLimit)
    (hd : t.Reaches (t.origin (q ++ [Byte.slash])) (steps q) (.directory d)) :
    t.resolve (trunk (q ++ [Byte.slash])) = .ok (.directory d) := by
  obtain ⟨hne, n, hn⟩ := trunk_append q
  generalize trunk (q ++ [Byte.slash]) = path at hne hn
  rw [hn] at hzero hlength hd
  have hvisible : Text.untilZero path = path :=
    untilZero_of_notMem fun h => hzero (List.mem_append_left _ h)
  have hfollowed : IsFollowed path := by
    rw [List.length_append] at hlength
    rw [IsFollowed, hvisible]
    exact ⟨hne, by omega⟩
  have horigin : t.origin (path ++ List.replicate n Byte.slash) = t.origin path := by
    obtain ⟨c, rest, rfl⟩ := List.exists_cons_of_ne_nil hne
    rfl
  have hsteps : steps q ++ List.replicate 1 .stay = steps path ++ List.replicate n .stay := by
    rw [← steps_slashes, ← steps_slashes, ← hn]
    rfl
  rw [resolve_eq_ok, hvisible, ← horigin, ← reaches_stays n, ← hsteps, reaches_stays]
  exact ⟨hfollowed, hd⟩

theorem prepare_of_holder (hzero : (0 : UInt8) ∉ directory) (hname : IsName name)
    (hlength : (lead directory).length ≤ lengthLimit) (hd : t.Holder directory d) :
    t.prepare (join directory name) = (.ok (), t) := by
  rw [join_name hname]
  rcases lead_cases directory with h | ⟨q, h⟩
  · rw [h, List.nil_append, prepare, parent_name hname]
    rfl
  · have hclean := zero_notMem_lead hzero
    rw [Holder, leadSteps, h, List.dropLast_concat, if_neg (by simp)] at hd
    rw [h] at hclean hlength ⊢
    have hparent : (trunk (q ++ [Byte.slash])).isEmpty = false := by
      simpa using (trunk_append q).1
    rw [prepare, parent_append hname, hparent, if_neg (by simp), createDirectories,
      resolve_trunk hclean hlength hd]

/-- The directory is there once it has been prepared. -/
structure Ready (t : FileTree) (directory : Text) (u : FileTree) (d : Place) : Prop where
  prepared : ∀ {name : Text}, IsName name → t.prepare (join directory name) = (.ok (), u)
  holder : u.Holder directory d

theorem Ready.wellFormed (h : t.Ready directory u d) (ht : t.WellFormed) (hname : IsName name) :
    u.WellFormed ∧ t.Grows u := by
  have hprepared := prepare_grows ht (join directory name)
  rwa [h.prepared hname] at hprepared

theorem ready_of_holder (hzero : (0 : UInt8) ∉ directory)
    (hlength : (lead directory).length ≤ lengthLimit) (hd : t.Holder directory d) :
    t.Ready directory t d := ⟨fun hname => prepare_of_holder hzero hname hlength hd, hd⟩

theorem ready_of_prepare (hname : IsName name)
    (hprepare : t.prepare (join directory name) = (.ok (), u)) (hd : u.Holder directory d) :
    t.Ready directory u d :=
  ⟨fun hname' => by rw [prepare_eq_of_names hname' hname, hprepare], hd⟩

theorem Ready.unique {u' : FileTree} {d' : Place} (h : t.Ready directory u d)
    (h' : t.Ready directory u' d') (hname : IsName name) : u = u' ∧ d = d' := by
  have hu := (h.prepared hname).symm.trans (h'.prepared hname)
  cases hu
  cases h.holder.unique h'.holder
  exact ⟨rfl, rfl⟩

theorem Fits.lead_le (h : Fits directory name) : (lead directory).length ≤ lengthLimit := by
  have hlength := h.1
  rw [List.length_append] at hlength
  omega

/-- What a write changes, besides making the directory: what is at one name. -/
structure Wrote (u : FileTree) (p : Place) (content : Text) (t' : FileTree) : Prop where
  wellFormed : t'.WellFormed
  workingDirectory : t'.workingDirectory = u.workingDirectory
  shown? : ∀ q, t'.shown? q = if q = p then some (.file content) else u.shown? q

section
variable (hzero : (0 : UInt8) ∉ directory) (hname : IsName name)
include hzero hname

/-- What a write needs: a path that can be followed, and no directory in its place. -/
theorem writeIfChanged_isOk_iff :
    (∃ new, (t.writeIfChanged (join directory name) content).1 = .ok new) ↔
      Fits directory name ∧ ∃ u d, t.Ready directory u d ∧
        u.shown? (d ++ [name]) ≠ some .directory := by
  unfold writeIfChanged
  split_ifs with hfile
  · obtain ⟨hfits, d, hd, hentry⟩ := (file?_eq_some_iff hzero hname).mp hfile
    refine ⟨fun _ => ⟨hfits, t, d, ready_of_holder hzero hfits.lead_le hd, ?_⟩, fun _ => ⟨_, rfl⟩⟩
    simp [hentry]
  · constructor
    · rintro ⟨new, hnew⟩
      split at hnew
      · cases hnew
      · rename_i prepared hprepare
        split at hnew
        · rename_i p hwritable
          obtain ⟨hfits, d, hd, rfl, hentry⟩ := (writable?_eq_some_iff hzero hname).mp hwritable
          exact ⟨hfits, prepared, d, ready_of_prepare hname hprepare hd, hentry⟩
        · cases hnew
    · rintro ⟨hfits, u, d, hready, hentry⟩
      have hwritable : u.writable? (join directory name) = some (d ++ [name]) :=
        (writable?_eq_some_iff hzero hname).mpr ⟨hfits, d, hready.holder, rfl, hentry⟩
      rw [hready.prepared hname]
      simp only [hwritable]
      exact ⟨_, rfl⟩

omit hzero hname in
theorem wrote_putFile (hu : u.WellFormed) (hd : u.Holder directory d)
    (hentry : u.shown? (d ++ [name]) ≠ some .directory) (content : Text) :
    Wrote u (d ++ [name]) content (u.putFile (d ++ [name]) content) where
  wellFormed := hu.put (hd.shown? hu) hentry (FileNode.isLeaf_file content) (.file content)
  workingDirectory := rfl
  shown? := shown?_put hu (hd.shown? hu) hentry (FileNode.isLeaf_file content)

theorem writeIfChanged_wrote (ht : t.WellFormed) (hready : t.Ready directory u d) {new : Bool}
    (h : t.writeIfChanged (join directory name) content = (.ok new, t')) :
    Wrote u (d ++ [name]) content t' := by
  unfold writeIfChanged at h
  split_ifs at h with hfile
  · cases h
    obtain ⟨hfits, e, he, hentry⟩ := (file?_eq_some_iff hzero hname).mp hfile
    obtain ⟨rfl, rfl⟩ := hready.unique (ready_of_holder hzero hfits.lead_le he) hname
    refine ⟨ht, rfl, fun q => ?_⟩
    split_ifs with hq
    · rw [hq, hentry]
    · rfl
  · rw [hready.prepared hname] at h
    dsimp only at h
    split at h
    · rename_i p hwritable
      cases h
      obtain ⟨-, e, he, rfl, hentry⟩ := (writable?_eq_some_iff hzero hname).mp hwritable
      cases hready.holder.unique he
      exact wrote_putFile (hready.wellFormed ht hname).1 he hentry content
    · cases h

end

theorem Wrote.keepsDirectories {p : Place} (h : Wrote u p content t')
    (hp : u.shown? p ≠ some .directory) : u.KeepsDirectories t' := by
  intro q hq
  rw [h.shown?, if_neg]
  · exact hq
  · rintro rfl
    exact hp hq

theorem untilZero_append {s : Text} (h : (0 : UInt8) ∈ s) (r : Text) :
    Text.untilZero (s ++ r) = Text.untilZero s := by
  induction s with
  | nil => cases h
  | cons c s ih =>
    by_cases hc : c = 0
    · simp [Text.untilZero, hc]
    · have hs := ih ((List.mem_cons.mp h).resolve_left (Ne.symm hc))
      simp only [Text.untilZero] at hs
      simp [Text.untilZero, hc, hs]

theorem resolve_congr {p q : Text} (h : Text.untilZero p = Text.untilZero q) (t : FileTree) :
    t.resolve p = t.resolve q := by
  rw [resolve, resolve, h]

theorem resolve_parent_of_zero (hzero : (0 : UInt8) ∈ directory) (hname : IsName name) :
    (parent (join directory name)).isEmpty = false ∧
      ∀ t : FileTree,
        t.resolve (join directory name) = t.resolve (parent (join directory name)) := by
  have hlead : (0 : UInt8) ∈ lead directory := by
    have hne : directory.isEmpty = false := by
      simpa using List.ne_nil_of_mem hzero
    unfold lead
    rw [hne, if_neg (by simp)]
    split_ifs
    · exact hzero
    · exact List.mem_append_left _ hzero
  rw [join_name hname]
  rcases lead_cases directory with h | ⟨q, h⟩
  · rw [h] at hlead
    cases hlead
  · obtain ⟨hne, n, hn⟩ := trunk_append q
    rw [h] at hlead ⊢
    rw [parent_append hname]
    have htrunk : (0 : UInt8) ∈ trunk (q ++ [Byte.slash]) := by
      rw [hn, List.mem_append] at hlead
      refine hlead.resolve_right fun hslash => ?_
      exact absurd (List.eq_of_mem_replicate hslash) (by decide)
    have hcut : Text.untilZero (q ++ [Byte.slash]) =
        Text.untilZero (trunk (q ++ [Byte.slash])) := by
      conv_lhs => rw [hn]
      exact untilZero_append htrunk _
    refine ⟨by simpa using hne, fun t => resolve_congr ?_ t⟩
    rw [untilZero_append hlead, hcut]

/-- Beyond a zero byte nothing is seen, so a name in such a directory is the directory itself, and
only what is there already can be found there. -/
theorem writeIfChanged_of_zero (hzero : (0 : UInt8) ∈ directory) (hname : IsName name)
    (ht : t.WellFormed) {new : Bool}
    (h : t.writeIfChanged (join directory name) content = (.ok new, t')) :
    t' = t ∧ t.file? (join directory name) = some content := by
  obtain ⟨hparent, hsame⟩ := resolve_parent_of_zero hzero hname
  obtain ⟨-, -, hmade⟩ := createDirectories_makes ht (parent (join directory name))
  unfold writeIfChanged at h
  split_ifs at h with hfile
  · cases h
    exact ⟨rfl, hfile⟩
  · rw [prepare, hparent, if_neg (by simp)] at h
    cases hcreate : t.createDirectories (parent (join directory name)) with
    | mk result made =>
      rw [hcreate] at h hmade
      cases result with
      | error obstacle => cases h
      | ok =>
        obtain ⟨d, hd⟩ := hmade rfl
        have hnone : made.writable? (join directory name) = none := by
          rw [writable?, hsame, hd]
        simp only [hnone] at h
        cases h

end FileTree

end Bindery
