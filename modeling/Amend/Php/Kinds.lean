import Amend.Tree.Node

/-!
# Kinds of PHP nodes

The kinds of the PHP grammar that are looked at by name.
-/

namespace Amend.Php

def program : Kind := ⟨"program"⟩
def name : Kind := ⟨"name"⟩
def qualifiedName : Kind := ⟨"qualified_name"⟩
def namespaceName : Kind := ⟨"namespace_name"⟩
def variableName : Kind := ⟨"variable_name"⟩
def namespaceDefinition : Kind := ⟨"namespace_definition"⟩
def useStatement : Kind := ⟨"namespace_use_declaration"⟩
def useClause : Kind := ⟨"namespace_use_clause"⟩
def useGroupClause : Kind := ⟨"namespace_use_group_clause"⟩
def aliasingClause : Kind := ⟨"namespace_aliasing_clause"⟩
def classDeclaration : Kind := ⟨"class_declaration"⟩
def traitDeclaration : Kind := ⟨"trait_declaration"⟩
def enumDeclaration : Kind := ⟨"enum_declaration"⟩
def interfaceDeclaration : Kind := ⟨"interface_declaration"⟩
def declarationList : Kind := ⟨"declaration_list"⟩
def enumDeclarationList : Kind := ⟨"enum_declaration_list"⟩
def baseClause : Kind := ⟨"base_clause"⟩
def traitUse : Kind := ⟨"use_declaration"⟩
def methodDeclaration : Kind := ⟨"method_declaration"⟩
def staticModifier : Kind := ⟨"static_modifier"⟩
def memberCall : Kind := ⟨"member_call_expression"⟩
def scopedCall : Kind := ⟨"scoped_call_expression"⟩
def relativeScope : Kind := ⟨"relative_scope"⟩
def selfKeyword : Kind := ⟨"self"⟩
def scopeResolution : Kind := ⟨"::"⟩
def memberAccess : Kind := ⟨"->"⟩

/-- The declarations that own methods and take part in inheritance. -/
def classLike : List Kind :=
  [classDeclaration, traitDeclaration, enumDeclaration, interfaceDeclaration]

/-- Whether nodes of a kind own methods and take part in inheritance. -/
def isClassLike (k : Kind) : Bool := k ∈ classLike

end Amend.Php
