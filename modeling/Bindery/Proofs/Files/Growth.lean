import Bindery.Proofs.Files.Entries

/-!
Where walks lead, and trees that grow. Directories are made and never go away, and files are written
at known places, so a walk that reached a directory still does, and one that reached a file that was
not written reaches it still.
-/

set_option autoImplicit false

namespace Bindery.FileTree

/-- The steps lead from a directory to a spot. Only the last of them may leave the directories. -/
inductive Reaches (t : FileTree) : Place → List Path.Step → Spot → Prop where
  | here {here : Place} : Reaches t here [] (.directory here)
  | stay {here : Place} {rest : List Path.Step} {spot : Spot} (h : Reaches t here rest spot) :
    Reaches t here (.stay :: rest) spot
  | up {here : Place} {rest : List Path.Step} {spot : Spot}
    (h : Reaches t here.dropLast rest spot) : Reaches t here (.up :: rest) spot
  | enter {here : Place} {name : Text} {rest : List Path.Step} {spot : Spot}
    (hname : name.length ≤ Path.nameLimit) (hentry : t.shown? (here ++ [name]) = some .directory)
    (h : Reaches t (here ++ [name]) rest spot) : Reaches t here (.down name :: rest) spot
  | file {here : Place} {name content : Text} (hname : name.length ≤ Path.nameLimit)
    (hentry : t.shown? (here ++ [name]) = some (.file content)) :
    Reaches t here [.down name] (.file (here ++ [name]) content)
  | vacant {here : Place} {name : Text} (hname : name.length ≤ Path.nameLimit)
    (hentry : t.shown? (here ++ [name]) = none) :
    Reaches t here [.down name] (.vacant (here ++ [name]))

variable {t t' : FileTree} {here d : Place} {xs ys : List Path.Step} {spot : Spot}

theorem reaches_of_walk (h : t.walk here xs = .ok spot) : t.Reaches here xs spot := by
  induction xs generalizing here with
  | nil =>
    cases h
    exact .here
  | cons x xs ih =>
    cases x with
    | stay => exact .stay (ih h)
    | up => exact .up (ih h)
    | down name =>
      rw [walk_down] at h
      split at h
      · cases h
      · rename_i hname
        have hname := Nat.not_lt.mp hname
        cases hentry : t.shown? (here ++ [name]) with
        | none =>
          cases xs with
          | nil =>
            rw [hentry] at h
            cases h
            exact .vacant hname hentry
          | cons => simp [hentry] at h
        | some e =>
          cases e with
          | directory =>
            rw [hentry] at h
            exact .enter hname hentry (ih h)
          | file content =>
            cases xs with
            | nil =>
              rw [hentry] at h
              cases h
              exact .file hname hentry
            | cons => simp [hentry] at h

theorem Reaches.walk (h : t.Reaches here xs spot) : t.walk here xs = .ok spot := by
  induction h with
  | here => rfl
  | stay _ ih => exact ih
  | up _ ih => exact ih
  | enter hname hentry _ ih => rw [walk_down, if_neg (Nat.not_lt.mpr hname), hentry, ih]
  | file hname hentry => rw [walk_down, if_neg (Nat.not_lt.mpr hname), hentry]; rfl
  | vacant hname hentry => rw [walk_down, if_neg (Nat.not_lt.mpr hname), hentry]; rfl

theorem walk_eq_ok_iff : t.walk here xs = .ok spot ↔ t.Reaches here xs spot :=
  ⟨reaches_of_walk, Reaches.walk⟩

theorem Reaches.unique {spot' : Spot} (h : t.Reaches here xs spot) (h' : t.Reaches here xs spot') :
    spot = spot' := by
  have heq := h.walk.symm.trans h'.walk
  exact Except.ok.inj heq

theorem Reaches.append (h : t.Reaches here xs (.directory d)) (hd : t.Reaches d ys spot) :
    t.Reaches here (xs ++ ys) spot := by
  generalize hspot : Spot.directory d = reached at h
  induction h with
  | here =>
    cases hspot
    exact hd
  | stay _ ih => exact .stay (ih hspot)
  | up _ ih => exact .up (ih hspot)
  | enter hname hentry _ ih => exact .enter hname hentry (ih hspot)
  | file => cases hspot
  | vacant => cases hspot

theorem Reaches.split (h : t.Reaches here (xs ++ ys) spot) (hys : ys ≠ []) :
    ∃ d, t.Reaches here xs (.directory d) ∧ t.Reaches d ys spot := by
  induction xs generalizing here with
  | nil => exact ⟨here, .here, h⟩
  | cons x xs ih =>
    rw [List.cons_append] at h
    generalize hrest : xs ++ ys = rest at h
    cases h with
    | stay h =>
      obtain ⟨d, hxs, hd⟩ := ih (hrest ▸ h)
      exact ⟨d, .stay hxs, hd⟩
    | up h =>
      obtain ⟨d, hxs, hd⟩ := ih (hrest ▸ h)
      exact ⟨d, .up hxs, hd⟩
    | enter hname hentry h =>
      obtain ⟨d, hxs, hd⟩ := ih (hrest ▸ h)
      exact ⟨d, .enter hname hentry hxs, hd⟩
    | file => exact absurd (List.append_eq_nil_iff.mp hrest).2 hys
    | vacant => exact absurd (List.append_eq_nil_iff.mp hrest).2 hys

theorem reaches_stays (n : Nat) :
    t.Reaches here (xs ++ List.replicate n .stay) (.directory d) ↔
      t.Reaches here xs (.directory d) := by
  have hstay : ∀ e : Place, t.Reaches e (List.replicate n .stay) (.directory e) := by
    intro e
    induction n with
    | zero => exact .here
    | succ n ih => exact .stay ih
  constructor
  · intro h
    cases n with
    | zero => simpa using h
    | succ n =>
      obtain ⟨e, hxs, he⟩ := h.split (List.cons_ne_nil _ _)
      cases he.unique (hstay e)
      exact hxs
  · exact fun h => h.append (hstay d)

theorem Reaches.shown? (h : t.Reaches here xs (.directory d))
    (hhere : t.shown? here = some .directory) : t.shown? d = some .directory := by
  generalize hspot : Spot.directory d = reached at h
  induction h with
  | here =>
    cases hspot
    exact hhere
  | stay _ ih => exact ih hhere hspot
  | up _ ih => exact ih (shown?_parent hhere) hspot
  | enter _ hentry _ ih => exact ih hentry hspot
  | file => cases hspot
  | vacant => cases hspot

theorem Reaches.shown?_file {p : Place} {content : Text} (h : t.Reaches here xs (.file p content)) :
    t.shown? p = some (.file content) := by
  generalize hspot : Spot.file p content = reached at h
  induction h with
  | here => cases hspot
  | stay _ ih => exact ih hspot
  | up _ ih => exact ih hspot
  | enter _ _ _ ih => exact ih hspot
  | file _ hentry =>
    cases hspot
    exact hentry
  | vacant => cases hspot

theorem fileAt?_eq_some_iff {p : Place} {content : Text} :
    t.fileAt? p = some content ↔ t.shown? p = some (.file content) := by
  unfold fileAt?
  split
  · rename_i c h
    rw [h, Option.some.injEq, Option.some.injEq, Entry.file.injEq]
  · rename_i h
    exact ⟨nofun, fun hentry => absurd hentry (h content)⟩

/-- All that was a directory still is one. -/
def KeepsDirectories (t t' : FileTree) : Prop :=
  ∀ p, t.shown? p = some .directory → t'.shown? p = some .directory

theorem Reaches.mono (hkeeps : t.KeepsDirectories t') (h : t.Reaches here xs (.directory d)) :
    t'.Reaches here xs (.directory d) := by
  generalize hspot : Spot.directory d = reached at h
  induction h with
  | here =>
    cases hspot
    exact .here
  | stay _ ih => exact .stay (ih hspot)
  | up _ ih => exact .up (ih hspot)
  | enter hname hentry _ ih => exact .enter hname (hkeeps _ hentry) (ih hspot)
  | file => cases hspot
  | vacant => cases hspot

theorem Reaches.mono_file {p : Place} {content new : Text} (hkeeps : t.KeepsDirectories t')
    (h : t.Reaches here xs (.file p content)) (hp : t'.shown? p = some (.file new)) :
    t'.Reaches here xs (.file p new) := by
  generalize hspot : Spot.file p content = reached at h
  induction h with
  | here => cases hspot
  | stay _ ih => exact .stay (ih hspot)
  | up _ ih => exact .up (ih hspot)
  | enter hname hentry _ ih => exact .enter hname (hkeeps _ hentry) (ih hspot)
  | file hname _ =>
    cases hspot
    exact .file hname hp
  | vacant => cases hspot

structure Grows (t t' : FileTree) : Prop where
  workingDirectory : t'.workingDirectory = t.workingDirectory
  directories : t.KeepsDirectories t'
  files : ∀ p, t'.fileAt? p = t.fileAt? p

theorem Grows.refl (t : FileTree) : t.Grows t := ⟨rfl, fun _ => id, fun _ => rfl⟩

theorem Grows.trans {u : FileTree} (h : t.Grows t') (h' : t'.Grows u) : t.Grows u where
  workingDirectory := h'.workingDirectory.trans h.workingDirectory
  directories p hp := h'.directories p (h.directories p hp)
  files p := (h'.files p).trans (h.files p)

theorem grows_put {name : Text} (ht : t.WellFormed) (hhere : t.shown? here = some .directory)
    (hentry : t.shown? (here ++ [name]) = none) :
    t.Grows (t.put (here ++ [name]) .emptyDirectory) := by
  have hvacant : t.shown? (here ++ [name]) ≠ some .directory := by simp [hentry]
  have hput := shown?_put ht hhere hvacant FileNode.isLeaf_emptyDirectory
  refine ⟨rfl, fun p hp => ?_, fun p => ?_⟩
  · rw [hput]
    split_ifs
    · rfl
    · exact hp
  · unfold fileAt?
    rw [hput]
    split_ifs with heq
    · rw [heq, hentry]
      rfl
    · rfl

/-- What making directories comes to: the tree grows, and if nothing was in the way the steps lead
to a directory. -/
structure Makes (t : FileTree) (here : Place) (steps : List Path.Step)
    (made : Except Obstacle Unit × FileTree) : Prop where
  wellFormed : made.2.WellFormed
  grows : t.Grows made.2
  reaches : made.1 = .ok () → ∃ d, made.2.Reaches here steps (.directory d)

theorem Makes.error (ht : t.WellFormed) (obstacle : Obstacle) :
    t.Makes here xs (.error obstacle, t) := ⟨ht, .refl t, nofun⟩

theorem build_down (name : Text) (rest : List Path.Step) :
    t.build here (.down name :: rest) =
      if Path.nameLimit < name.length then (.error .tooLong, t)
      else
        match t.shown? (here ++ [name]) with
        | some .directory => t.build (here ++ [name]) rest
        | some (.file _) => (.error .occupied, t)
        | none => (t.put (here ++ [name]) .emptyDirectory).build (here ++ [name]) rest := by
  rw [build, FileTree.shown?, FileNode.shown?, node?]
  cases t.root.at? (here ++ [name]) with
  | none => rfl
  | some n => cases n <;> rfl

theorem extend_down (name : Text) (rest : List Path.Step) :
    t.extend here (.down name :: rest) =
      match t.shown? (here ++ [name]) with
      | some .directory => t.extend (here ++ [name]) rest
      | some (.file _) => (.error (if isTooDeep rest then .tooLong else .notDirectory), t)
      | none =>
        if isTooDeep (.down name :: rest) then (.error .tooLong, t)
        else t.build here (.down name :: rest) := by
  rw [extend, FileTree.shown?, FileNode.shown?, node?]
  cases t.root.at? (here ++ [name]) with
  | none => rfl
  | some n => cases n <;> rfl

theorem build_makes (ht : t.WellFormed) (hhere : t.shown? here = some .directory)
    (steps : List Path.Step) : t.Makes here steps (t.build here steps) := by
  induction steps generalizing t here with
  | nil => exact ⟨ht, .refl t, fun _ => ⟨here, .here⟩⟩
  | cons x rest ih =>
    cases x with
    | stay =>
      obtain ⟨hwell, hgrows, hreaches⟩ := ih ht hhere
      exact ⟨hwell, hgrows, fun hok => (hreaches hok).imp fun _ => .stay⟩
    | up =>
      obtain ⟨hwell, hgrows, hreaches⟩ := ih ht (shown?_parent hhere)
      exact ⟨hwell, hgrows, fun hok => (hreaches hok).imp fun _ => .up⟩
    | down name =>
      rw [build_down]
      split
      · exact .error ht .tooLong
      · rename_i hname
        have hname := Nat.not_lt.mp hname
        cases hentry : t.shown? (here ++ [name]) with
        | some e =>
          cases e with
          | directory =>
            obtain ⟨hwell, hgrows, hreaches⟩ := ih ht hentry
            exact ⟨hwell, hgrows, fun hok =>
              (hreaches hok).imp fun _ => .enter hname (hgrows.directories _ hentry)⟩
          | file content => exact .error ht .occupied
        | none =>
          have hvacant : t.shown? (here ++ [name]) ≠ some .directory := by simp [hentry]
          have hmade := ht.put hhere hvacant FileNode.isLeaf_emptyDirectory
            FileNode.ordered_emptyDirectory
          have hentered : (t.put (here ++ [name]) .emptyDirectory).shown? (here ++ [name]) =
              some .directory := by
            rw [shown?_put ht hhere hvacant FileNode.isLeaf_emptyDirectory, if_pos rfl]
            rfl
          obtain ⟨hwell, hgrows, hreaches⟩ := ih hmade hentered
          refine ⟨hwell, (grows_put ht hhere hentry).trans hgrows, fun hok => ?_⟩
          exact (hreaches hok).imp fun _ => .enter hname (hgrows.directories _ hentered)

/-- Names that are there already are not looked at, so that none of them is too long has to be known
beforehand. -/
theorem extend_makes (ht : t.WellFormed) (hhere : t.shown? here = some .directory)
    {steps : List Path.Step} (hwalk : t.walk here steps ≠ .error .tooLong) :
    t.Makes here steps (t.extend here steps) := by
  induction steps generalizing here with
  | nil => exact ⟨ht, .refl t, fun _ => ⟨here, .here⟩⟩
  | cons x rest ih =>
    cases x with
    | stay =>
      obtain ⟨hwell, hgrows, hreaches⟩ := ih hhere hwalk
      exact ⟨hwell, hgrows, fun hok => (hreaches hok).imp fun _ => .stay⟩
    | up =>
      obtain ⟨hwell, hgrows, hreaches⟩ := ih (shown?_parent hhere) hwalk
      exact ⟨hwell, hgrows, fun hok => (hreaches hok).imp fun _ => .up⟩
    | down name =>
      rw [extend_down]
      rw [walk_down] at hwalk
      cases hentry : t.shown? (here ++ [name]) with
      | some e =>
        cases e with
        | directory =>
          split at hwalk
          · exact absurd rfl hwalk
          · rename_i hname
            rw [hentry] at hwalk
            obtain ⟨hwell, hgrows, hreaches⟩ := ih hentry hwalk
            exact ⟨hwell, hgrows, fun hok => (hreaches hok).imp fun _ =>
              .enter (Nat.not_lt.mp hname) (hgrows.directories _ hentry)⟩
        | file content => exact .error ht _
      | none =>
        dsimp only
        split
        · exact .error ht .tooLong
        · exact build_makes ht hhere _

theorem WellFormed.origin (ht : t.WellFormed) (path : Text) :
    t.shown? (t.origin path) = some .directory := by
  unfold FileTree.origin
  split
  · exact ht.root
  · exact ht.workingDirectory

theorem origin_congr (h : t'.workingDirectory = t.workingDirectory) (path : Text) :
    t'.origin path = t.origin path := by
  unfold FileTree.origin
  rw [h]

/-- Paths that are neither empty nor too long as far as they are seen. -/
def IsFollowed (path : Text) : Prop :=
  Text.untilZero path ≠ [] ∧ (Text.untilZero path).length ≤ Path.lengthLimit

theorem resolve_of_isFollowed {path : Text} (h : IsFollowed path) (t : FileTree) :
    t.resolve path =
      t.walk (t.origin (Text.untilZero path)) (Path.steps (Text.untilZero path)) := by
  have hempty : (Text.untilZero path).isEmpty = false := by simpa using h.1
  rw [resolve, hempty, if_neg (by simp), if_neg (Nat.not_lt.mpr h.2)]

theorem resolve_eq_ok {path : Text} :
    t.resolve path = .ok spot ↔ IsFollowed path ∧
      t.Reaches (t.origin (Text.untilZero path)) (Path.steps (Text.untilZero path)) spot := by
  constructor
  · intro h
    have hfollowed : IsFollowed path := by
      unfold resolve at h
      dsimp only at h
      split at h
      · cases h
      · split at h
        · cases h
        · rename_i hempty hlong
          exact ⟨by simpa using hempty, Nat.not_lt.mp hlong⟩
    rw [resolve_of_isFollowed hfollowed, walk_eq_ok_iff] at h
    exact ⟨hfollowed, h⟩
  · rintro ⟨hfollowed, h⟩
    rw [resolve_of_isFollowed hfollowed, walk_eq_ok_iff]
    exact h

/-- Making a directory does what it says, or leaves the path leading nowhere. -/
theorem createDirectories_makes (ht : t.WellFormed) (path : Text) :
    (t.createDirectories path).2.WellFormed ∧ t.Grows (t.createDirectories path).2 ∧
      ((t.createDirectories path).1 = .ok () →
        ∃ d, (t.createDirectories path).2.resolve path = .ok (.directory d)) := by
  unfold createDirectories
  dsimp only
  split
  · rename_i d h
    exact ⟨ht, .refl t, fun _ => ⟨d, h⟩⟩
  · exact ⟨ht, .refl t, nofun⟩
  · exact ⟨ht, .refl t, nofun⟩
  · rename_i hdirectory hfile hlong
    split
    · exact ⟨ht, .refl t, nofun⟩
    · rename_i hempty
      have hfollowed : IsFollowed path := by
        refine ⟨by simpa using hempty, ?_⟩
        by_contra hlength
        apply hlong
        rw [resolve, if_neg hempty, if_pos (Nat.not_le.mp hlength)]
      rw [resolve_of_isFollowed hfollowed] at hlong
      obtain ⟨hwell, hgrows, hreaches⟩ := extend_makes ht (ht.origin _) hlong
      refine ⟨hwell, hgrows, fun hok => (hreaches hok).imp fun d hd => ?_⟩
      rw [resolve_eq_ok, origin_congr hgrows.workingDirectory]
      exact ⟨hfollowed, hd⟩

end Bindery.FileTree
