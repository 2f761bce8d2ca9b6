import Amend.Php.Resolution
import Amend.Proofs.References
import Amend.Proofs.Trees
import Mathlib.Data.List.Forall2

/-!
# What `use` statements import

`IsUse` reads off a tree what a `use` statement says: its clauses, the common first part of a group,
and whether `function` or `const` stands before all clauses or in one of them.  `importStatement`
brings in what all clauses name unless the keyword stands outside them; these are the classes that
the statement imports if no clause has a keyword of its own, or if what such a clause imports is
imported as a class, under the same alias, as well or later (`Use.importStatement_brings`).
-/

namespace Amend.Php

open Scope

/-! ### Statements as trees -/

/-- A clause of a `use` statement: whether `function` or `const` stands in it, what it imports as it
is written there, and the alias that it gives. -/
structure Clause where
  marked : Bool
  name : String
  given : Option String

/-- A `use` statement: whether `function` or `const` stands outside its clauses, the common first
part of a group, and the clauses. -/
structure Use where
  marked : Bool
  group : Option String
  clauses : List Clause

/-- A token `function` or `const`, letter case aside. -/
def IsKeyword (n : Node) : Prop :=
  ∃ text, n.tokenText = some text ∧ (Text.fold text = "function" ∨ Text.fold text = "const")

/-- The kinds of the nodes that are clauses. -/
def IsClauseKind (k : Kind) : Prop := k = useClause ∨ k = useGroupClause

instance (k : Kind) : Decidable (IsClauseKind k) := inferInstanceAs (Decidable (_ ∨ _))

/-- No node of the tree is a clause. -/
def HasNoClause (n : Node) : Prop := ∀ m ∈ n.descendants, ¬ IsClauseKind m.kind

instance (n : Node) : Decidable (HasNoClause n) :=
  decidable_of_iff (∀ m ∈ n.preorder, ¬ IsClauseKind m.kind) (by
    rw [HasNoClause, Node.descendants_eq_preorder])

/-- The alias that a clause gives: a child of its own, or a name in a child for the alias. -/
inductive GivesAlias (n : Node) : Option String → Prop
  | none (hfield : ∀ k ∈ n.children, k.field ≠ some "alias")
      (hkind : ∀ k ∈ n.children, k.kind ≠ aliasingClause) : GivesAlias n none
  | field {word : Node} (hword : n.children.filter (·.field == some "alias") = [word]) :
      GivesAlias n (some word.text)
  | clause {inner word : Node} (hfield : ∀ k ∈ n.children, k.field ≠ some "alias")
      (hinner : n.children.filter (·.kind == aliasingClause) = [inner])
      (hword : inner.children.filter (·.kind == name) = [word]) : GivesAlias n (some word.text)

/-- The names in a clause that are not its alias. -/
def namesIn (n : Node) : List Node :=
  n.children.filter fun k => (k.kind = name ∨ k.kind = qualifiedName) ∧ k.field ≠ some "alias"

/-- `IsClause n clause`: the node says what the clause says. -/
structure IsClause (n : Node) (clause : Clause) : Prop where
  kind : IsClauseKind n.kind
  marked : clause.marked = true ↔ ∃ k ∈ n.children, IsKeyword k
  name : ∃ target, namesIn n = [target] ∧ target.text = clause.name
  given : GivesAlias n clause.given
  inner : ∀ k ∈ n.children, HasNoClause k

/-- `HasClauses n clauses`: the children of the node that are clauses say what these say, and there
is no clause below the other children. -/
structure HasClauses (n : Node) (clauses : List Clause) : Prop where
  here : List.Forall₂ IsClause (n.children.filter (IsClauseKind ·.kind)) clauses
  other : ∀ k ∈ n.children, ¬ IsClauseKind k.kind → HasNoClause k

/-- `IsUse n u`: the node is a `use` statement and says what `u` says.  What else stands in it, such
as punctuation or comments, does not matter. -/
inductive IsUse : Node → Use → Prop
  | listed {n : Node} {marked : Bool} {clauses : List Clause} (hkind : n.kind = useStatement)
      (hmarked : marked = true ↔ ∃ k ∈ n.children, IsKeyword k)
      (hgroup : ∀ k ∈ n.children, k.kind ≠ namespaceName) (hclauses : HasClauses n clauses) :
      IsUse n ⟨marked, none, clauses⟩
  | grouped {n front body : Node} {before after : List Node} {marked : Bool}
      {clauses : List Clause} (hkind : n.kind = useStatement)
      (hmarked : marked = true ↔ ∃ k ∈ n.children, IsKeyword k)
      (hgroup : n.children.filter (·.kind == namespaceName) = [front])
      (hchildren : n.children = before ++ body :: after) (hbody : ¬ IsClauseKind body.kind)
      (hclauses : HasClauses body clauses) (hother : ∀ k ∈ before ++ after, HasNoClause k) :
      IsUse n ⟨marked, some front.text, clauses⟩

variable {n : Node} {clause : Clause} {clauses : List Clause} {u : Use} {s : Scope}
variable {short target : String}

/-! ### The clauses of a statement -/

/-- The keywords of functions and constants are known by their kinds. -/
theorem isFunctionOrConst_iff :
  isFunctionOrConst n = true ↔ IsKeyword n
  := by
  have hfunction : Text.fold "function" = "function" := by decide +kernel
  have hconst : Text.fold "const" = "const" := by decide +kernel
  simp [isFunctionOrConst, IsKeyword, Option.any_eq_true, hfunction, hconst]

/-- Whether there is a keyword among some nodes. -/
theorem exists_isKeyword_iff {ns : List Node} :
  (∃ k ∈ ns, IsKeyword k) ↔ ns.any isFunctionOrConst = true
  := by
  simp only [List.any_eq_true, isFunctionOrConst_iff]

/-- Clauses are known by their kinds. -/
theorem isUseClause_eq (n : Node) :
  isUseClause n = decide (IsClauseKind n.kind)
  := by
  rw [Bool.eq_iff_iff, decide_eq_true_iff]
  simp [isUseClause, IsClauseKind]

/-- No clause is found where there is none. -/
theorem HasNoClause.filter_descendants (h : HasNoClause n) :
  n.descendants.filter isUseClause = []
  := by
  rw [List.filter_eq_nil_iff]
  intro m hm
  rw [isUseClause_eq, decide_eq_true_iff]
  exact h m hm

/-- No clause is found in nodes that have none. -/
theorem flatMap_eq_nil_of_hasNoClause {ns : List Node} (h : ∀ k ∈ ns, HasNoClause k) :
  (ns.flatMap fun k => k.descendants.filter isUseClause) = []
  := by
  rw [List.flatMap_eq_nil_iff]
  intro k hk
  exact (h k hk).filter_descendants

/-- In a clause there is no clause but itself. -/
theorem IsClause.filter_descendants (h : IsClause n clause) :
  n.descendants.filter isUseClause = [n]
  := by
  have hn : isUseClause n = true := by
    rw [isUseClause_eq]
    exact decide_eq_true h.kind
  rw [Node.descendants_eq, List.filter_cons_of_pos hn, List.filter_flatMap,
    flatMap_eq_nil_of_hasNoClause h.inner]

/-- The clauses among some nodes, in order. -/
theorem flatMap_clauses {ns : List Node}
    (hhere : List.Forall₂ IsClause (ns.filter (IsClauseKind ·.kind)) clauses)
    (hother : ∀ k ∈ ns, ¬ IsClauseKind k.kind → HasNoClause k) :
  (ns.flatMap fun k => k.descendants.filter isUseClause) = ns.filter (IsClauseKind ·.kind)
  := by
  induction ns generalizing clauses with
  | nil => rfl
  | cons k ns ih =>
    rw [List.forall_mem_cons] at hother
    by_cases hk : IsClauseKind k.kind
    · rw [List.filter_cons_of_pos (by simp [hk])] at hhere ⊢
      cases hhere with
      | cons hclause hhere =>
        rw [List.flatMap_cons, hclause.filter_descendants, ih hhere hother.2,
          List.singleton_append]
    · rw [List.filter_cons_of_neg (by simp [hk])] at hhere ⊢
      rw [List.flatMap_cons, (hother.1 hk).filter_descendants, ih hhere hother.2,
        List.nil_append]

/-- The clauses of a statement are children of the node that lists them. -/
theorem HasClauses.filter_descendants (h : HasClauses n clauses) (hn : ¬ IsClauseKind n.kind) :
  n.descendants.filter isUseClause = n.children.filter (IsClauseKind ·.kind)
  := by
  rw [Node.descendants_eq, List.filter_cons_of_neg (by simp [isUseClause_eq, hn]),
    List.filter_flatMap, flatMap_clauses h.here h.other]

/-- The clauses below a statement are those that it says. -/
theorem IsUse.forall₂ (h : IsUse n u) :
  List.Forall₂ IsClause (n.descendants.filter isUseClause) u.clauses
  := by
  have hself : ¬ IsClauseKind useStatement := by decide
  cases h with
  | listed hkind hmarked hgroup hclauses =>
    rw [hclauses.filter_descendants (hkind ▸ hself)]
    exact hclauses.here
  | @grouped _ body before after _ _ hkind _ _ hchildren hbody hclauses hother =>
    rw [List.forall_mem_append] at hother
    have hn : isUseClause n = false := by
      rw [isUseClause_eq, hkind]
      exact decide_eq_false hself
    have hfilter :
        n.descendants.filter isUseClause = body.children.filter (IsClauseKind ·.kind) := by
      calc
        n.descendants.filter isUseClause
          = (before ++ body :: after).flatMap fun k => k.descendants.filter isUseClause := by
            rw [Node.descendants_eq, List.filter_cons_of_neg (by simp [hn]), List.filter_flatMap,
              hchildren]
        _ = body.descendants.filter isUseClause := by
            rw [List.flatMap_append, List.flatMap_cons, flatMap_eq_nil_of_hasNoClause hother.1,
              flatMap_eq_nil_of_hasNoClause hother.2, List.nil_append, List.append_nil]
        _ = _ := hclauses.filter_descendants hbody
    rw [hfilter]
    exact hclauses.here

/-! ### What a clause brings in -/

/-- The only item that passes a test is the first one. -/
theorem find?_of_filter {p : Node → Bool} {ns : List Node} {m : Node} (h : ns.filter p = [m]) :
  ns.find? p = some m
  := by
  rw [← List.head?_filter, h]
  rfl

/-- Nothing is found that is not there. -/
theorem find?_eq_none_of_ne {β : Type} [BEq β] [LawfulBEq β] {f : Node → β} {x : β}
    {ns : List Node} (h : ∀ k ∈ ns, f k ≠ x) :
  ns.find? (f · == x) = none
  := by
  rw [List.find?_eq_none]
  intro k hk heq
  apply h k hk (eq_of_beq heq)

/-- The alias that is read is the one that the clause gives. -/
theorem GivesAlias.clauseAlias_eq {given : Option String} (h : GivesAlias n given) :
  clauseAlias n = given
  := by
  rw [clauseAlias, Node.childByField, Node.childOfKind]
  cases h with
  | none hfield hkind =>
    rw [find?_eq_none_of_ne hfield, find?_eq_none_of_ne hkind]
    rfl
  | field hword =>
    rw [find?_of_filter hword]
    rfl
  | clause hfield hinner hword =>
    rw [find?_eq_none_of_ne hfield, find?_of_filter hinner, Option.bind_some, Node.childOfKind,
      find?_of_filter hword]
    rfl

/-- The target of a clause is its first name. -/
theorem clauseTarget_eq_head? (n : Node) :
  clauseTarget n = (namesIn n).head?
  := by
  rw [clauseTarget, namesIn, List.head?_filter]
  congr
  funext k
  rw [Bool.eq_iff_iff]
  simp [isClassReference]

/-- The target that is read is the one that the clause names. -/
theorem IsClause.clauseTarget_eq (h : IsClause n clause) :
  ∃ target, clauseTarget n = some target ∧ target.text = clause.name
  := by
  obtain ⟨target, htarget, htext⟩ := h.name
  refine ⟨target, ?_, htext⟩
  rw [clauseTarget_eq_head?, htarget, List.head?_singleton]

namespace Use

/-- The full name of what a clause imports. -/
def full (u : Use) (clause : Clause) : String :=
  match u.group with
  | none => clause.name
  | some front => joined front (some clause.name)

/-- What a clause does as the import of a class. -/
def change (u : Use) (clause : Clause) : Change := .bring (u.full clause) clause.given

/-- The clauses that import classes.  In a list, `function` or `const` in the first clause goes for
all of them. -/
def classes (u : Use) : List Clause :=
  if u.marked ∨ u.group = none ∧ u.clauses.head?.any Clause.marked then []
  else u.clauses.filter fun clause => !clause.marked

/-- The clauses that are imported as classes. -/
def brought (u : Use) : List Clause := if u.marked then [] else u.clauses

/-- `Brings u clauses s s'`: the clauses are imported one after the other, and everything else is
the same in both scopes. -/
structure Brings (u : Use) (clauses : List Clause) (s s' : Scope) : Prop where
  space : s'.space = s.space
  imported : ∀ short target, s'.imported? short = some target
    ↔ Imports (clauses.map u.change) short target
      ∨ (∀ c ∈ clauses.map u.change, Keeps short c) ∧ s.imported? short = some target

/-- Whatever is imported last under an alias is what the last class of this alias is. -/
def Harmless (u : Use) : Prop :=
  ∀ short target, Imports (u.brought.map u.change) short target →
    Imports (u.classes.map u.change) short target

end Use

/-- A clause is imported as the change that it stands for. -/
theorem importClause_eq {m : Node} (h : IsClause m clause) :
  importClause u.group s m = (u.change clause).apply s
  := by
  obtain ⟨target, htarget, htext⟩ := h.clauseTarget_eq
  rw [importClause, htarget, h.given.clauseAlias_eq, Use.change, Change.apply, Use.full, ← htext]
  cases u.group with
  | none => rfl
  | some front => rfl

/-- Clauses are imported as the changes that they stand for, one after the other. -/
theorem foldl_importClause {nodes : List Node} (h : List.Forall₂ IsClause nodes clauses) :
  nodes.foldl (importClause u.group) s = (clauses.map u.change).foldl Change.apply s
  := by
  induction h generalizing s with
  | nil => rfl
  | cons hclause _ ih =>
    rw [List.foldl_cons, importClause_eq hclause, ih, List.map_cons, List.foldl_cons]

/-- A statement is marked when a keyword is one of its children. -/
theorem IsUse.marked_iff (h : IsUse n u) :
  u.marked = true ↔ n.children.any isFunctionOrConst = true
  := by
  rw [← exists_isKeyword_iff]
  cases h with
  | listed _ hmarked => exact hmarked
  | grouped _ hmarked => exact hmarked

/-- The prefix of a group is that of the statement. -/
theorem IsUse.group_eq (h : IsUse n u) :
  (n.childOfKind namespaceName).map Node.text = u.group
  := by
  rw [Node.childOfKind]
  cases h with
  | listed _ _ hgroup =>
    rw [find?_eq_none_of_ne hgroup]
    rfl
  | grouped _ _ hgroup =>
    rw [find?_of_filter hgroup]
    rfl

/-- A statement imports, one after the other, what its clauses name. -/
theorem importStatement_eq (h : IsUse n u) :
  importStatement s n = (u.brought.map u.change).foldl Change.apply s
  := by
  unfold importStatement Use.brought
  by_cases hmarked : u.marked = true
  · rw [if_pos (h.marked_iff.1 hmarked), if_pos hmarked]
    rfl
  · rw [if_neg (mt h.marked_iff.2 hmarked), if_neg hmarked, h.group_eq]
    exact foldl_importClause h.forall₂

/-! ### Classes and other imports -/

/-- Imports leave the namespace alone. -/
theorem space_foldl_change (u : Use) (clauses : List Clause) (s : Scope) :
  ((clauses.map u.change).foldl Change.apply s).space = s.space
  := by
  induction clauses generalizing s with
  | nil => rfl
  | cons clause clauses ih =>
    rw [List.map_cons, List.foldl_cons, ih]
    rfl

/-- A statement brings what its clauses bring, and else leaves the scope alone. -/
theorem brings_brought (h : IsUse n u) (s : Scope) :
  u.Brings u.brought s (importStatement s n)
  := by
  rw [importStatement_eq h]
  refine ⟨space_foldl_change u u.brought s, ?_⟩
  intro short target
  exact imported?_foldl_iff

namespace Use

/-- Imports enter no namespace. -/
theorem entered?_map_change (u : Use) (clauses : List Clause) :
  ∀ c ∈ clauses.map u.change, c.entered? = none
  := by
  intro c hc
  obtain ⟨clause, -, rfl⟩ := List.mem_map.1 hc
  rfl

/-- The classes that are named are brought. -/
theorem classes_subset_brought (u : Use) :
  u.classes ⊆ u.brought
  := by
  unfold classes brought
  intro clause hclause
  split at hclause
  next => cases hclause
  next h =>
    rw [not_or] at h
    rw [if_neg h.1]
    exact List.mem_of_mem_filter hclause

/-- Where no clause has a keyword of its own, the classes are brought in and nothing else. -/
theorem classes_eq_brought (h : u.marked = true ∨ ∀ c ∈ u.clauses, c.marked = false) :
  u.classes = u.brought
  := by
  unfold classes brought
  obtain hmarked | hclauses := h
  · rw [if_pos (.inl hmarked), if_pos hmarked]
  · have hhead : u.clauses.head?.any Clause.marked = false := by
      rw [Option.any_eq_false]
      intro clause hclause
      rw [hclauses _ (List.mem_of_head? hclause)]
    have hfilter : u.clauses.filter (fun clause => !clause.marked) = u.clauses := by
      rw [List.filter_eq_self]
      intro clause hclause
      rw [hclauses clause hclause]
      rfl
    simp only [hhead, Bool.false_eq_true, and_false, or_false, hfilter]

/-- A statement does no harm when it is marked as a whole or has no marked clause. -/
theorem harmless_of_unmarked (h : u.marked = true ∨ ∀ c ∈ u.clauses, c.marked = false) :
  u.Harmless
  := by
  intro short target
  rw [classes_eq_brought h]
  exact id

/-- What else a harmless statement brings is not in the way of its classes. -/
theorem Harmless.imports_iff (h : u.Harmless) :
  Imports (u.brought.map u.change) short target ↔ Imports (u.classes.map u.change) short target
  := by
  refine ⟨h short target, ?_⟩
  intro hclass
  obtain ⟨other, hother⟩ : ∃ other, Imports (u.brought.map u.change) short other := by
    obtain hkeeps | himports := forall_keeps_or_imports (entered?_map_change u u.brought) short
    · cases hclass.not_forall_keeps fun c hc =>
        hkeeps c (List.map_subset _ u.classes_subset_brought hc)
    · exact himports
  rw [hclass.unique (h short other hother)]
  exact hother

/-- A harmless statement keeps the names that its classes keep. -/
theorem Harmless.forall_keeps_iff (h : u.Harmless) :
  (∀ c ∈ u.brought.map u.change, Keeps short c) ↔ ∀ c ∈ u.classes.map u.change, Keeps short c
  := by
  constructor
  · intro hkeeps c hc
    apply hkeeps c (List.map_subset _ u.classes_subset_brought hc)
  · intro hkeeps
    obtain hbrought | ⟨target, himports⟩ :=
      forall_keeps_or_imports (entered?_map_change u u.brought) short
    · exact hbrought
    · cases (h short target himports).not_forall_keeps hkeeps

/-- A statement brings in what its clauses name, one after the other, and these are its classes, as
far as any scope can tell, exactly when the other clauses are harmless. -/
theorem importStatement_brings (h : IsUse n u) :
  (∀ s, u.Brings u.brought s (importStatement s n))
    ∧ ((∀ s, u.Brings u.classes s (importStatement s n)) ↔ u.Harmless)
  := by
  refine ⟨brings_brought h, ?_, ?_⟩
  · intro hclasses short target himports
    have hstart : ({} : Scope).imported? short = none := rfl
    have himported := ((brings_brought h {}).imported short target).2 (.inl himports)
    rw [(hclasses {}).imported, hstart] at himported
    obtain hclass | ⟨-, ⟨⟩⟩ := himported
    exact hclass
  · intro hharmless s
    refine ⟨(brings_brought h s).space, ?_⟩
    intro short target
    rw [(brings_brought h s).imported, hharmless.imports_iff, hharmless.forall_keeps_iff]

/-- The statement `use Pets\{Cat as Tom, Dog};` as a tree. -/
def petGroup : Node :=
  .inner useStatement
    [.token ⟨"use"⟩ "use", .token namespaceName "Pets", .token ⟨"\\"⟩ "\\",
      (Node.inner ⟨"namespace_use_group"⟩
        [.token ⟨"\x7b"⟩ "\x7b",
          .inner useClause
            [.token name "Cat", .token ⟨"as"⟩ "as", (Node.token name "Tom").withField "alias"],
          .token ⟨","⟩ ",", .inner useClause [.token name "Dog"],
          .token ⟨"\x7d"⟩ "\x7d"]).withField "body",
      .token ⟨";"⟩ ";"]

/-- What this statement says. -/
def petUse : Use := ⟨false, some "Pets", [⟨false, "Cat", some "Tom"⟩, ⟨false, "Dog", none⟩]⟩

/-- The statement says what it is said to say. -/
theorem isUse_petGroup :
  IsUse petGroup petUse
  := by
  refine @IsUse.grouped _ (.token namespaceName "Pets") _ (petGroup.children.take 3)
    (petGroup.children.drop 4) _ _ rfl ?_ rfl rfl ?_ ⟨.cons ?_ (.cons ?_ .nil), ?_⟩ ?_
  · rw [exists_isKeyword_iff]
    decide +kernel
  · decide
  · have halias : GivesAlias petGroup.children[3].children[1] (some "Tom") :=
      @GivesAlias.field _ ((Node.token name "Tom").withField "alias") rfl
    refine ⟨by decide, ?_, ⟨_, rfl, rfl⟩, halias, by decide⟩
    rw [exists_isKeyword_iff]
    decide +kernel
  · refine ⟨by decide, ?_, ⟨_, rfl, rfl⟩, .none (by decide) (by decide), by decide⟩
    rw [exists_isKeyword_iff]
    decide +kernel
  · decide
  · decide

/-- The classes of a group come into every scope, and nothing else does. -/
theorem importStatement_brings_petGroup :
  IsUse petGroup petUse ∧ ∀ s, petUse.Brings petUse.classes s (importStatement s petGroup)
  := by
  have hharmless : petUse.Harmless := harmless_of_unmarked (.inr (by decide))
  exact ⟨isUse_petGroup, (importStatement_brings isUse_petGroup).2.2 hharmless⟩

/-- The statement `use function Pets\walk;` as a tree. -/
def functionWalk : Node :=
  .inner useStatement
    [.token ⟨"use"⟩ "use",
      .inner useClause
        [(Node.token ⟨"function"⟩ "function").withField "type", .token qualifiedName "Pets\\walk"],
      .token ⟨";"⟩ ";"]

/-- A function is imported as if it were a class. -/
theorem importStatement_functionWalk :
  IsUse functionWalk ⟨false, none, [⟨true, "Pets\\walk", none⟩]⟩
    ∧ classes ⟨false, none, [⟨true, "Pets\\walk", none⟩]⟩ = []
    ∧ (importStatement {} functionWalk).imported? "walk" = some "Pets\\walk"
  := by
  refine ⟨.listed rfl ?_ (by decide) ⟨.cons ?_ .nil, by decide⟩, by decide, by decide +kernel⟩
  · rw [exists_isKeyword_iff]
    decide +kernel
  · refine ⟨by decide, ?_, ⟨_, rfl, rfl⟩, .none (by decide) (by decide), by decide⟩
    rw [exists_isKeyword_iff]
    decide +kernel

end Use

end Amend.Php
