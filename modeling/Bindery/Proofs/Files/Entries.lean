import Bindery.Files.Write
import Bindery.Proofs.Sorted

/-!
What a tree shows at a place: a directory, a file with its content, or nothing. Paths are followed
by looking at no more than that. A node that is put where no directory was changes what is shown at
one place.
-/

set_option autoImplicit false

namespace Bindery

inductive Entry where
  | directory
  | file (content : Text)
  deriving DecidableEq, Repr

namespace FileNode

def entry : FileNode → Entry
  | file content => .file content
  | directory _ => .directory

def shown? (n : FileNode) (place : Place) : Option Entry := (n.at? place).map entry

/-- In every directory the names increase, so that none stands twice. -/
inductive Ordered : FileNode → Prop where
  | file (content : Text) : Ordered (.file content)
  | directory {entries : List (Text × FileNode)}
    (hnames : Sorted.KeysIncrease Text.before entries)
    (hnodes : ∀ e ∈ entries, Ordered e.2) : Ordered (.directory entries)

def IsLeaf (n : FileNode) : Prop := ∀ name rest, n.at? (name :: rest) = none

theorem isLeaf_file (content : Text) : (file content).IsLeaf := fun _ _ => rfl

theorem isLeaf_emptyDirectory : emptyDirectory.IsLeaf := fun _ _ => rfl

theorem ordered_emptyDirectory : emptyDirectory.Ordered :=
  .directory List.Pairwise.nil (List.forall_mem_nil _)

theorem shown?_cons (entries : List (Text × FileNode)) (name : Text) (rest : Place) :
    (directory entries).shown? (name :: rest) =
      (entries.lookup name).bind fun n => n.shown? rest := by
  unfold shown?
  rw [at?]
  cases entries.lookup name <;> rfl

theorem shown?_concat {n : FileNode} {dir : Place} {name : Text} {e : Entry}
    (h : n.shown? (dir ++ [name]) = some e) : n.shown? dir = some .directory := by
  induction dir generalizing n with
  | nil =>
    cases n with
    | file content => cases h
    | directory entries => rfl
  | cons first dir ih =>
    cases n with
    | file content => cases h
    | directory entries =>
      rw [List.cons_append, shown?_cons, Option.bind_eq_some_iff] at h
      obtain ⟨below, hbelow, h⟩ := h
      rw [shown?_cons, hbelow]
      exact ih h

theorem put_cons {entries : List (Text × FileNode)}
    (hnames : Sorted.KeysIncrease Text.before entries) (name : Text) (rest : Place)
    (new : FileNode) :
    (directory entries).put (name :: rest) new =
      directory (Sorted.put Text.before name
        (((entries.lookup name).getD emptyDirectory).put rest new) entries) := by
  rw [FileNode.put, Sorted.update_eq_put Text.before_isOrder _ _ _ hnames]

theorem Ordered.put {n new : FileNode} (hn : n.Ordered) (hnew : new.Ordered) (place : Place) :
    (n.put place new).Ordered := by
  induction place generalizing n with
  | nil =>
    unfold FileNode.put
    exact hnew
  | cons name rest ih =>
    cases hn with
    | file content =>
      unfold FileNode.put
      exact .file content
    | @directory entries hnames hnodes =>
      rw [put_cons hnames]
      refine .directory (Sorted.put_increasing Text.before_isOrder _ _ hnames) ?_
      intro e he
      rcases Sorted.mem_put he with rfl | he
      · cases hlookup : entries.lookup name with
        | none => exact ih ordered_emptyDirectory
        | some below =>
          exact ih (hnodes _ ((Sorted.lookup_eq_some_iff Text.before_isOrder hnames).mp hlookup))
      · exact hnodes e he

/-- A leaf that is put into a directory, where there was no directory, is seen there, and nothing
else changes. -/
theorem shown?_put {n new : FileNode} (hn : n.Ordered) (hnew : new.IsLeaf) {dir : Place}
    {name : Text} (hdir : n.shown? dir = some .directory)
    (hplace : n.shown? (dir ++ [name]) ≠ some .directory) (place : Place) :
    (n.put (dir ++ [name]) new).shown? place =
      if place = dir ++ [name] then some new.entry else n.shown? place := by
  induction dir generalizing n place with
  | nil =>
    cases hn with
    | file content => cases hdir
    | @directory entries hnames hnodes =>
      rw [List.nil_append, put_cons hnames]
      rw [List.nil_append, shown?_cons] at hplace
      cases place with
      | nil => rfl
      | cons first rest =>
        rw [shown?_cons, shown?_cons, Sorted.lookup_put Text.before_isOrder]
        by_cases hfirst : first = name
        · subst hfirst
          rw [beq_self_eq_true, if_pos rfl, FileNode.put]
          cases rest with
          | nil =>
            rw [if_pos rfl]
            rfl
          | cons second rest =>
            rw [if_neg (by simp), Option.bind_some, shown?, hnew, Option.map_none]
            cases hlookup : entries.lookup first with
            | none => rfl
            | some old =>
              rw [hlookup] at hplace
              cases old with
              | file content => rfl
              | directory below => exact absurd rfl hplace
        · rw [if_neg (by simpa using hfirst), if_neg (by simp [hfirst])]
  | cons first dir ih =>
    cases hn with
    | file content => cases hdir
    | @directory entries hnames hnodes =>
      rw [shown?_cons, Option.bind_eq_some_iff] at hdir
      obtain ⟨below, hbelow, hdir⟩ := hdir
      rw [List.cons_append, shown?_cons, hbelow, Option.bind_some] at hplace
      have hmem := (Sorted.lookup_eq_some_iff Text.before_isOrder hnames).mp hbelow
      rw [List.cons_append, put_cons hnames, hbelow, Option.getD_some]
      cases place with
      | nil => rfl
      | cons next rest =>
        rw [shown?_cons, shown?_cons, Sorted.lookup_put Text.before_isOrder]
        by_cases hnext : next = first
        · subst hnext
          rw [beq_self_eq_true, if_pos rfl, Option.bind_some, ih (hnodes _ hmem) hdir hplace,
            hbelow, Option.bind_some]
          simp only [List.cons.injEq, true_and]
        · rw [if_neg (by simpa using hnext), if_neg (by simp [hnext])]

end FileNode

namespace FileTree

def shown? (t : FileTree) (place : Place) : Option Entry := t.root.shown? place

/-- The content of the file at a place; none if there is no file. -/
def fileAt? (t : FileTree) (place : Place) : Option Text :=
  match t.shown? place with
  | some (.file content) => some content
  | _ => none

/-- A tree that can be worked in: names are in order, and the working directory is there. -/
structure WellFormed (t : FileTree) : Prop where
  ordered : t.root.Ordered
  workingDirectory : t.shown? (placeOf t.workingDirectory) = some .directory

variable {t : FileTree}

theorem shown?_parent {place : Place} (h : t.shown? place = some .directory) :
    t.shown? place.dropLast = some .directory := by
  rcases List.eq_nil_or_concat place with rfl | ⟨dir, name, rfl⟩
  · exact h
  · rw [List.concat_eq_append] at h ⊢
    rw [List.dropLast_concat]
    exact FileNode.shown?_concat h

theorem WellFormed.root (h : t.WellFormed) : t.shown? [] = some .directory := by
  have hup : ∀ place : Place, t.shown? place = some .directory → t.shown? [] = some .directory := by
    intro place
    induction place using List.reverseRecOn with
    | nil => exact id
    | append_singleton dir name ih => exact fun hplace => ih (FileNode.shown?_concat hplace)
  exact hup _ h.workingDirectory

/-- Only the shown part of a node matters where a path goes down. -/
theorem walk_down (here : Place) (name : Text) (rest : List Path.Step) :
    t.walk here (.down name :: rest) =
      if Path.nameLimit < name.length then .error .tooLong
      else
        match t.shown? (here ++ [name]) with
        | some .directory => t.walk (here ++ [name]) rest
        | some (.file content) =>
          if rest.isEmpty then .ok (.file (here ++ [name]) content) else .error .notDirectory
        | none => if rest.isEmpty then .ok (.vacant (here ++ [name])) else .error .absent := by
  rw [walk, shown?, FileNode.shown?, node?]
  cases t.root.at? (here ++ [name]) with
  | none => rfl
  | some n => cases n <;> rfl

section
variable {dir : Place} {name : Text} (ht : t.WellFormed)
  (hdir : t.shown? dir = some .directory) (hplace : t.shown? (dir ++ [name]) ≠ some .directory)
include ht hdir hplace

theorem shown?_put {new : FileNode} (hnew : new.IsLeaf) (place : Place) :
    (t.put (dir ++ [name]) new).shown? place =
      if place = dir ++ [name] then some new.entry else t.shown? place :=
  FileNode.shown?_put ht.ordered hnew hdir hplace place

theorem WellFormed.put {new : FileNode} (hleaf : new.IsLeaf) (hnew : new.Ordered) :
    (t.put (dir ++ [name]) new).WellFormed where
  ordered := ht.ordered.put hnew _
  workingDirectory := by
    have hkept := shown?_put ht hdir hplace hleaf (placeOf t.workingDirectory)
    rw [if_neg] at hkept
    · exact hkept.trans ht.workingDirectory
    · intro heq
      exact hplace (heq ▸ ht.workingDirectory)

end

end FileTree

end Bindery
