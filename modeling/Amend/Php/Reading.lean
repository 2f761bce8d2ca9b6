import Amend.Failure
import Amend.Php.Declarations
import Amend.Php.ParseTree

/-!
# Reading PHP

A text is read with the help of a grammar, which gives the parse tree of any text.  A text
with syntax errors is refused; otherwise its tree is filled in and its names are resolved.
-/

namespace Amend.Php

/-- A grammar gives texts their parse trees. -/
abbrev Grammar := String → Option ParseTree

/-- What is said of a text with a syntax error, at a place if one is known. -/
def syntaxErrorMessage : Option Text.Place → String
  | some place => s!"syntax error at line {place.row + 1}, column {place.column + 1}"
  | none => "syntax error"

/-- Read a text that has a parse tree. -/
def readTree (path text : String) (root : ParseTree) : Except Failure Node :=
  if root.hasError then
    .error (.parse path (syntaxErrorMessage (root.firstFault?.map (Text.placeOf text))))
  else .ok (resolveNames (root.toNode text))

/-- Read the text of a file. -/
def read (grammar : Grammar) (path text : String) : Except Failure Node :=
  match grammar text with
  | none => .error (.parse path "parser returned no tree")
  | some root => readTree path text root

/-- The endings of the names of PHP files. -/
def extensions : List String := ["php"]

end Amend.Php
