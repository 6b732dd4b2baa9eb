import Mathlib.Data.List.Basic
import Mathlib.Tactic.Common

/-!
Paths as text: a path is a sequence of parts, each of which goes up one
directory or down to a named one, and a directory is the sequence of the names
that lead to it from the root. Nothing is above the root. What is known about
the files plays no role, so a link counts as a directory of its own.
-/

namespace GitRpc.Library.Paths

inductive Part (ν : Type*) where
  | up
  | down (name : ν)
  deriving DecidableEq

variable {ν : Type*}

/-- One part, seen from a directory. -/
def enter (directory : List ν) : Part ν → List ν
  | .up => directory.dropLast
  | .down name => directory ++ [name]

def walk (directory : List ν) (parts : List (Part ν)) : List ν := parts.foldl enter directory

theorem walk_append (directory : List ν) (first second : List (Part ν)) :
    walk directory (first ++ second) = walk (walk directory first) second :=
  List.foldl_append

/-- How far some parts lead up, and the names that then lead down. -/
structure Route (ν : Type*) where
  ups : Nat
  names : List ν
  deriving DecidableEq

def Route.extend (r : Route ν) : Part ν → Route ν
  | .up =>
      match r.names with
      | [] => ⟨r.ups + 1, []⟩
      | first :: rest => ⟨r.ups, (first :: rest).dropLast⟩
  | .down name => ⟨r.ups, r.names ++ [name]⟩

def route (parts : List (Part ν)) : Route ν := parts.foldl Route.extend ⟨0, []⟩

/-- The directory that is `ups` levels up. -/
def above (directory : List ν) (ups : Nat) : List ν := directory.take (directory.length - ups)

/-- What has to be walked to come back down from there. -/
def undone (directory : List ν) (ups : Nat) : List ν := directory.drop (directory.length - ups)

theorem above_append_undone (directory : List ν) (ups : Nat) :
    above directory ups ++ undone directory ups = directory :=
  List.take_append_drop _ directory

theorem enter_route (directory : List ν) (r : Route ν) (part : Part ν) :
    enter (above directory r.ups ++ r.names) part =
      above directory (r.extend part).ups ++ (r.extend part).names := by
  obtain ⟨ups, names⟩ := r
  cases part with
  | down name => simp [enter, Route.extend]
  | up =>
      cases names with
      | nil =>
          have hlevel : min ((directory.take (directory.length - ups)).length - 1)
              (directory.length - ups) = directory.length - (ups + 1) := by
            rw [List.length_take]
            omega
          simp only [enter, Route.extend, above, List.append_nil]
          rw [List.dropLast_eq_take, List.take_take, hlevel]
      | cons first rest =>
          simp [enter, Route.extend, List.dropLast_append_of_ne_nil]

/-- A walk goes up to some directory and down from there. -/
theorem walk_eq (directory : List ν) (parts : List (Part ν)) :
    walk directory parts = above directory (route parts).ups ++ (route parts).names := by
  have hstart : above directory 0 ++ [] = directory := by simp [above]
  have hwalk : ∀ start : Route ν, walk (above directory start.ups ++ start.names) parts =
      above directory (parts.foldl Route.extend start).ups ++
        (parts.foldl Route.extend start).names := by
    intro start
    exact List.foldl_hom (fun r : Route ν => above directory r.ups ++ r.names)
      (enter_route directory)
  have hroute := hwalk ⟨0, []⟩
  rwa [hstart] at hroute

/-- `path` leads into `directory` and then on. -/
def StrictlyBelow (directory path : List ν) : Prop := directory <+: path ∧ directory ≠ path

instance [DecidableEq ν] (directory path : List ν) : Decidable (StrictlyBelow directory path) :=
  inferInstanceAs (Decidable (directory <+: path ∧ directory ≠ path))

/-- A walk ends below the directory that it starts from exactly when it comes
back down by the way it has gone up, and then on. -/
theorem strictlyBelow_walk_iff (directory : List ν) (parts : List (Part ν)) :
    StrictlyBelow directory (walk directory parts) ↔
      StrictlyBelow (undone directory (route parts).ups) (route parts).names := by
  have hsplit := above_append_undone directory (route parts).ups
  have hbelow : ∀ names, StrictlyBelow (above directory (route parts).ups ++
      undone directory (route parts).ups) (above directory (route parts).ups ++ names) ↔
        StrictlyBelow (undone directory (route parts).ups) names := by
    intro names
    simp only [StrictlyBelow, List.prefix_append_right_inj, ne_eq, List.append_cancel_left_eq]
  rw [walk_eq, ← hbelow, hsplit]

/-- The part that a piece of text between two slashes stands for, if any. -/
def part (piece : List Char) : List (Part (List Char)) :=
  if piece = [] ∨ piece = ['.'] then []
  else if piece = ['.', '.'] then [.up]
  else [.down piece]

/-- The parts of a text, when `piece` has been read since the last slash. -/
def partsFrom (piece : List Char) : List Char → List (Part (List Char))
  | [] => part piece
  | c :: rest => if c = '/' then part piece ++ partsFrom [] rest else partsFrom (piece ++ [c]) rest

def parts (text : List Char) : List (Part (List Char)) := partsFrom [] text

theorem partsFrom_append_slash (piece before after : List Char) :
    partsFrom piece (before ++ '/' :: after) = partsFrom piece before ++ parts after := by
  induction before generalizing piece with
  | nil => simp [partsFrom, parts]
  | cons c rest ih =>
      simp only [List.cons_append, partsFrom, ih]
      split
      · rw [List.append_assoc]
      · rfl

/-- The directory that an absolute path leads to. -/
def normal (text : List Char) : List (List Char) := walk [] (parts text)

theorem normal_append_slash (before after : List Char) :
    normal (before ++ '/' :: after) = walk (normal (before ++ ['/'])) (parts after) := by
  have hslash : parts (before ++ ['/']) = parts before := by
    rw [parts, partsFrom_append_slash]
    simp [parts, partsFrom, part]
  rw [normal, normal, hslash, parts, partsFrom_append_slash, walk_append]
  rfl

end GitRpc.Library.Paths
