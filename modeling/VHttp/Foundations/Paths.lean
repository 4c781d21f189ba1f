import Mathlib.Data.List.Basic

/-!
# Where a path leads

A path is a list of moves: it stays, goes to the parent, or goes down to a name. Followed
from a directory, which is the list of names from the root to it, every list of moves amounts
to going up some levels and then down some names, whatever the directory. The parent of the
root is the root.
-/

namespace VHttp.Paths

universe u
variable {Name : Type u}

/-- One component of a path. -/
inductive Move (Name : Type u) where
  | stay
  | up
  | down (name : Name)
  deriving DecidableEq

/-- Where a move leads from a directory. -/
def Move.follow (directory : List Name) : Move Name → List Name
  | .stay => directory
  | .up => directory.dropLast
  | .down name => directory ++ [name]

/-- Where moves lead from a directory. -/
def resolve (directory : List Name) (moves : List (Move Name)) : List Name :=
  moves.foldl Move.follow directory

/-- Some levels up, and then down some names. -/
structure Relative (Name : Type u) where
  ups : Nat
  names : List Name

/-- One move further. -/
def Relative.further (relative : Relative Name) : Move Name → Relative Name
  | .stay => relative
  | .up =>
    if relative.names = [] then { relative with ups := relative.ups + 1 }
    else { relative with names := relative.names.dropLast }
  | .down name => { relative with names := relative.names ++ [name] }

/-- What moves amount to. -/
def relative (moves : List (Move Name)) : Relative Name := moves.foldl Relative.further ⟨0, []⟩

/-- Where it leads from a directory. -/
def Relative.leads (relative : Relative Name) (directory : List Name) : List Name :=
  directory.take (directory.length - relative.ups) ++ relative.names

/-- One move further is one move from where it led. -/
theorem Relative.further_leads (relative : Relative Name) (move : Move Name)
    (directory : List Name) :
    (relative.further move).leads directory = move.follow (relative.leads directory) := by
  cases move with
  | stay => rfl
  | up =>
    by_cases above : relative.names = []
    · simp only [further, leads, Move.follow, above, ↓reduceIte, List.append_nil,
        List.dropLast_eq_take, List.length_take, List.take_take]
      congr 1
      omega
    · simp only [further, leads, Move.follow, above, ↓reduceIte,
        List.dropLast_append_of_ne_nil above]
  | down name => simp only [further, leads, Move.follow, List.append_assoc]

/-- Moves lead where what they amount to leads.

Induct on the moves, from any state of the account. -/
theorem resolve_relative (directory : List Name) (moves : List (Move Name)) :
    resolve directory moves = (relative moves).leads directory := by
  have follows : ∀ account : Relative Name, moves.foldl Move.follow (account.leads directory) =
      (moves.foldl Relative.further account).leads directory := by
    induction moves with
    | nil => exact fun _ => rfl
    | cons move rest inductionHypothesis =>
      intro account
      rw [List.foldl_cons, List.foldl_cons, ← account.further_leads, inductionHypothesis]
  have start : (⟨0, []⟩ : Relative Name).leads directory = directory := by
    simp [Relative.leads]
  rw [resolve, relative, ← follows, start]

end VHttp.Paths
