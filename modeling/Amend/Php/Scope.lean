import Amend.Text.Caseless
import Amend.Text.Cut

/-!
# Class names in a namespace

A `Scope` is what class names mean at some point of a file: the current namespace and the
names that were imported since it began.
-/

namespace Amend.Php

/-- The current namespace, empty for the global one, and the imported classes under their
aliases in small letters, the latest first. -/
structure Scope where
  space : String := ""
  imports : List (String × String) := []
deriving DecidableEq, Repr

namespace Scope

/-- The scope at the start of a namespace; imports made before do not reach into it. -/
def entering (space : String) : Scope := { space }

/-- The full name of a class declared here. -/
def declare (s : Scope) (name : String) : String :=
  if s.space = "" then name else s!"{s.space}\\{name}"

/-- What follows the keyword for the current namespace in a reference; the keyword is
recognised in small and in capital letters. -/
def afterKeyword? (reference : String) : Option String :=
  (Text.afterFront? "namespace\\" reference).or (Text.afterFront? "NAMESPACE\\" reference)

/-- The class imported under an alias. -/
def imported? (s : Scope) (short : String) : Option String := s.imports.lookup (Text.fold short)

/-- Complete a reference whose first part is looked up among the imports. -/
def resolveRelative (s : Scope) (reference : String) : String :=
  match Text.splitFirst? '\\' reference with
  | some (head, rest) =>
    match s.imported? head with
    | some target => s!"{target}\\{rest}"
    | none => s.declare reference
  | none => (s.imported? reference).getD (s.declare reference)

/-- The full name of the class that a reference means. -/
def resolve (s : Scope) (reference : String) : String :=
  match Text.afterFront? "\\" reference with
  | some absolute => absolute
  | none =>
    match afterKeyword? reference with
    | some relative => s.declare relative
    | none => s.resolveRelative reference

/-- Import a class under an alias, or under the last part of its name. -/
def addImport (s : Scope) (target : String) (short : Option String) : Scope :=
  let target := Text.trimStart '\\' target
  { s with imports := (Text.fold (short.getD (Text.lastPiece '\\' target)), target) :: s.imports }

end Scope

end Amend.Php
