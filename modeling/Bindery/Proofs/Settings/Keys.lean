import Bindery.Settings.Reader
import Mathlib.Data.List.Basic

/-!
The settings a file can make, as a table: the section and the key each is made with, and the kind
of value it takes. Reading an entry is a look-up in this table, so what is proved of the four kinds
of values holds of every key.
-/

set_option autoImplicit false

namespace Bindery.Settings

inductive Kind where
  | text
  | list
  | integer
  | truth
  deriving DecidableEq, Repr

namespace Kind

abbrev Value : Kind → Type
  | text => Text
  | list => List Text
  | integer => Int
  | truth => Bool

def read : (kind : Kind) → Cursor → Result kind.Value
  | text => stringValue
  | list => listValue
  | integer => integerValue
  | truth => truthValue

end Kind

inductive Setting where
  | document
  | target
  | outputDirectory
  | features
  | jobs
  | pointerWidth
  | manifest
  | hostNamespace
  deriving DecidableEq, Repr

namespace Setting

def all : List Setting :=
  [document, target, outputDirectory, features, jobs, pointerWidth, manifest, hostNamespace]

def home : Setting → Section
  | hostNamespace => .cpp
  | _ => .generate

def key : Setting → Text
  | document => "ir"
  | target => "backend"
  | outputDirectory => "out-dir"
  | features => "features"
  | jobs => "jobs"
  | pointerWidth => "pointer-width"
  | manifest => "manifest"
  | hostNamespace => "namespace"

def kind : Setting → Kind
  | document | target | outputDirectory | hostNamespace => .text
  | features => .list
  | jobs | pointerWidth => .integer
  | manifest => .truth

def get (s : Settings) : (k : Setting) → k.kind.Value
  | document => s.document
  | target => s.target
  | outputDirectory => s.outputDirectory
  | features => s.features
  | jobs => s.jobs
  | pointerWidth => s.pointerWidth
  | manifest => s.manifest
  | hostNamespace => s.hostNamespace

def put (s : Settings) : (k : Setting) → k.kind.Value → Settings
  | document, v => { s with document := v }
  | target, v => { s with target := v }
  | outputDirectory, v => { s with outputDirectory := v }
  | features, v => { s with features := v }
  | jobs, v => { s with jobs := v }
  | pointerWidth, v => { s with pointerWidth := v }
  | manifest, v => { s with manifest := v }
  | hostNamespace, v => { s with hostNamespace := v }

@[simp] theorem get_put (s : Settings) (k : Setting) (v : k.kind.Value) :
    get (put s k v) k = v := by
  cases k <;> rfl

theorem get_put_of_ne (s : Settings) {k l : Setting} (h : k ≠ l) (v : l.kind.Value) :
    get (put s l v) k = get s k := by
  cases l <;> cases k <;> first | rfl | exact absurd rfl h

@[simp] theorem put_base (s : Settings) (k : Setting) (v : k.kind.Value) :
    (put s k v).base = s.base := by
  cases k <;> rfl

/-- The setting that a key makes in a section. -/
def find? (inSection : Section) (key : Text) : Option Setting :=
  all.find? fun k => k.home == inSection && k.key == key

theorem find?_home_key (k : Setting) : find? k.home k.key = some k := by
  cases k <;> rfl

theorem find?_eq_none {inSection : Section} {key : Text}
    (h : ∀ k : Setting, k.home = inSection → key ≠ k.key) : find? inSection key = none := by
  refine List.find?_eq_none.mpr fun k _ hk => ?_
  rw [Bool.and_eq_true, beq_iff_eq, beq_iff_eq] at hk
  exact h k hk.1 hk.2.symm

end Setting

theorem entry_eq (inSection : Section) (s : Settings) (key : Text) (c : Cursor) :
    entry inSection s key c =
      match Setting.find? inSection key with
      | some k => stored (k.kind.read c) (Setting.put s k)
      | none => .error (c.fault (.unknownKey key inSection)) := by
  cases inSection with
  | generate =>
    rw [entry, generateEntry]
    split_ifs with hir hbackend hout hfeatures hjobs hwidth hmanifest
    · rw [hir]; rfl
    · rw [hbackend]; rfl
    · rw [hout]; rfl
    · rw [hfeatures]; rfl
    · rw [hjobs]; rfl
    · rw [hwidth]; rfl
    · rw [hmanifest]; rfl
    · rw [Setting.find?_eq_none]
      intro k hk
      cases k with
      | document => exact hir
      | target => exact hbackend
      | outputDirectory => exact hout
      | features => exact hfeatures
      | jobs => exact hjobs
      | pointerWidth => exact hwidth
      | manifest => exact hmanifest
      | hostNamespace => cases hk
  | cpp =>
    rw [entry, cppEntry]
    split_ifs with hns
    · rw [hns]; rfl
    · rw [Setting.find?_eq_none]
      intro k hk
      cases k with
      | hostNamespace => exact hns
      | _ => cases hk

end Bindery.Settings
