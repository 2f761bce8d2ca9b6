import Amend.Proofs.Project

/-!
# One name in all places

The full name of a class-like node is recorded on the node.  It is read when the declarations of
the file are collected, and again when the node encloses another one that a rule is asked about.
Both read the name that the node has in its scope, and what the index then holds under this name is
the last declaration of it (`Php.one_name_in_all_places`).  The parent and the traits, which are
recorded as texts, are read back as they were resolved.
-/

namespace Amend.Php

/-- No class-like node stands inside a node that is passed over. -/
def NothingHidden (root : Node) : Prop :=
  ∀ n ∈ root.descendants, IsPassedOver n → classLikes n = []

/-- The node `m` stands for the declaration `d` wherever its names are read.  `n` is the node as it
was parsed, and `named` its name. -/
structure StandsFor (scope : Scope) (n named m : Node) (d : Declaration) : Prop where
  registered : declarationOf m = some d
  enclosing : (Ancestor.of m).name = some d.name
  name_eq : d.name = scope.declare named.text
  parent_eq : d.parent = (parentReference n).map fun reference => scope.resolve reference.text
  traits_eq :
    (∀ reference ∈ traitReferences n, scope.resolve reference.text ≠ ""
      ∧ ',' ∉ (scope.resolve reference.text).toList) →
    d.traits = (traitReferences n).map fun reference => scope.resolve reference.text

variable {scope : Scope} {n root : Node}

/-! ### Every class-like node has a scope -/

/-- If every class-like node below a node has a scope, each of those in it has. -/
theorem isSome_scopedNode (h : ∀ scope, ∀ p ∈ (scopedBelow scope n).1, p.1.isSome)
    (hpassed : IsPassedOver n → classLikes n = []) (scope : Scope) :
  ∀ p ∈ (scopedNode scope n).1, p.1.isSome
  := by
  have hunscoped (hn : IsPassedOver n) : unscoped n = [] := by
    rw [unscoped, ← classLikes, hpassed hn, List.map_nil]
  rw [scopedNode]
  split_ifs with hspace hbody huse hclass
  · apply h
  · rw [hunscoped (.inr ⟨hspace, by simpa using hbody⟩)]
    simp
  · rw [hunscoped (.inl huse)]
    simp
  · rw [List.forall_mem_cons]
    exact ⟨rfl, h scope⟩
  · apply h

/-- The same holds of siblings, each in the scope that those before it leave. -/
theorem isSome_scopedSiblings {ns : List Node}
    (h : ∀ n ∈ ns, (∀ scope, ∀ p ∈ (scopedBelow scope n).1, p.1.isSome)
      ∧ (IsPassedOver n → classLikes n = [])) (scope : Scope) :
  ∀ p ∈ (scopedSiblings scope ns).1, p.1.isSome
  := by
  induction ns generalizing scope with
  | nil =>
    intro p hp
    cases hp
  | cons n ns ih =>
    obtain ⟨hn, hns⟩ := List.forall_mem_cons.1 h
    rw [scopedSiblings_cons, List.forall_mem_append]
    exact ⟨isSome_scopedNode hn.1 hn.2 scope, ih hns _⟩

/-- Where nothing is hidden, every class-like node below a node has a scope. -/
theorem isSome_scopedBelow (hhidden : NothingHidden n) (scope : Scope) :
  ∀ p ∈ (scopedBelow scope n).1, p.1.isSome
  := by
  induction n generalizing scope with
  | leaf tag text =>
    intro p hp
    cases hp
  | branch tag children ih =>
    apply isSome_scopedSiblings
    intro c hc
    have hbelow {m : Node} (hm : m ∈ c.descendants) :
        m ∈ (Node.branch tag children).descendants :=
      Node.mem_descendants_of_mem_children hm hc
    constructor
    · apply ih c hc
      intro m hm
      apply hhidden m (hbelow hm)
    · apply hhidden c (hbelow c.self_mem_descendants)

/-- Where nothing is hidden, every class-like node of a tree has a scope. -/
theorem isSome_scopedNodes (hroot : ¬ isClassLike root.kind) (hhidden : NothingHidden root) :
  ∀ p ∈ scopedNodes root, p.1.isSome
  := by
  rw [scopedNodes, if_neg hroot, List.nil_append]
  apply isSome_scopedBelow hhidden

/-! ### What is read back -/

/-- Names without commas that are kept in one list are read back one by one. -/
theorem flatMap_listed {names : List String} (h : ∀ name ∈ names, name ≠ "" ∧ ',' ∉ name.toList) :
  names.flatMap listed = names
  := by
  induction names with
  | nil => rfl
  | cons name names ih =>
    obtain ⟨⟨hempty, hcomma⟩, hnames⟩ := List.forall_mem_cons.1 h
    rw [List.flatMap_cons, listed_of_notMem hcomma hempty, ih hnames, List.singleton_append]

/-- A name stays one when it is declared. -/
theorem declare_ne_empty (scope : Scope) {name : String} (h : name ≠ "") :
  scope.declare name ≠ ""
  := by
  rw [Scope.declare]
  split
  · exact h
  · intro hempty
    have hlength := congrArg String.length hempty
    have hseparator : (toString "\\").length = 1 := rfl
    rw [String.length_append, String.length_append, hseparator] at hlength
    simp at hlength

/-- A node declares the name that it has as an enclosing node. -/
theorem declaredName_of_declarationOf {m : Node} {d : Declaration} (h : declarationOf m = some d) :
  m.declaredName = some d.name
  := by
  rw [declarationOf] at h
  split at h
  · obtain ⟨name, hname, rfl⟩ := Option.map_eq_some_iff.1 h
    exact hname
  · cases h

/-- A named node that has its names in a scope recorded on it. -/
theorem exists_standsFor {named m : Node} (hbare : n.IsBare) (hkind : isClassLike n.kind)
    (hrecords : Records (some scope, n) m) (hnamed : n.childByField "name" = some named)
    (hname : named.text ≠ "") :
  ∃ d, StandsFor scope n named m d
  := by
  have hdescribed : describe (some scope) n = some
      { name := scope.declare named.text
        parent := (parentReference n).map fun reference => scope.resolve reference.text
        traits := (traitReferences n).flatMap fun reference => listed (scope.resolve reference.text)
        members := methodsOf n } := by
    rw [describe, hnamed, Option.map_some, Option.elim_some, Option.filter_some]
    simp [declare_ne_empty scope hname]
  have hregistered := (hrecords.declarationOf_eq hbare hkind).trans hdescribed
  refine ⟨_, hregistered, declaredName_of_declarationOf hregistered, rfl, rfl, ?_⟩
  intro hplain
  have hnames := flatMap_listed (List.forall_mem_map.2 hplain)
  rw [List.flatMap_map] at hnames
  exact hnames

/-! ### What is looked up -/

/-- A declaration of a file is found in the index under its name, or in its place the last one that
was collected of this name. -/
theorem exists_isLast_of_mem {units : List Run.ParsedUnit} {u : Run.ParsedUnit} {d : Declaration}
    (hu : u ∈ units) (hd : d ∈ declarationsOf u.tree) :
  ∃ last, (Run.indexed units).get? d.name = some last ∧ key last.name = key d.name
    ∧ IsLast (Run.declared units) last
  := by
  have hmem : d ∈ Run.declared units := List.mem_flatMap.2 ⟨u, hu, hd⟩
  obtain ⟨last, hlast⟩ := exists_declaredAt_latest hmem
  obtain ⟨hisLast, hkey⟩ := isLast_of_declaredAt hlast
  refine ⟨last, ?_, hkey, hisLast⟩
  rw [ProjectIndex.get?, Run.atKey?_indexed, hlast]

/-- Let no class-like node of a tree be its root or be hidden where no names are resolved.  Each of
them has a scope, and with a name it stands for one declaration wherever its names are read: the one
that is collected, under the name that rules see when the node encloses another one.  The parent is
the first reference of its base clause and the traits are those that its body refers to, in order
and as they are resolved, as long as these have no comma in their names.  In the index of any files
with the tree among them, that name leads to the last declaration of its key. -/
theorem one_name_in_all_places {root : Node} (hbare : root.IsBare)
    (hroot : ¬ isClassLike root.kind) (hhidden : NothingHidden root) :
  (scopedNodes root).map Prod.snd = classLikes root
  ∧ declarationsOf (resolveNames root) = (classLikes (resolveNames root)).filterMap declarationOf
  ∧ List.Forall₂
    (fun p m => m.bare = p.2 ∧ ∃ scope, p.1 = some scope
      ∧ ∀ named, p.2.childByField "name" = some named → named.text ≠ "" →
        ∃ d, StandsFor scope p.2 named m d
          ∧ ∀ units, ∀ u ∈ units, u.tree = resolveNames root →
            ∃ last, (Run.indexed units).get? d.name = some last ∧ key last.name = key d.name
              ∧ IsLast (Run.declared units) last)
    (scopedNodes root) (classLikes (resolveNames root))
  := by
  refine ⟨map_snd_scopedNodes root, declarationsOf_eq _, ?_⟩
  obtain ⟨hlength, hrecords⟩ := List.forall₂_iff_zip.1 (forall₂_declarationOf hbare)
  apply List.forall₂_iff_zip.2 ⟨hlength, _⟩
  rintro ⟨scope?, n⟩ m hpair
  obtain ⟨⟨hn, hkind⟩, hrecord⟩ := hrecords hpair
  obtain ⟨hlisted, hm⟩ := List.of_mem_zip hpair
  obtain ⟨scope, rfl⟩ := Option.isSome_iff_exists.1 (isSome_scopedNodes hroot hhidden _ hlisted)
  refine ⟨hrecord.bare_eq.trans hn, scope, rfl, ?_⟩
  intro named hnamed hname
  obtain ⟨d, hd⟩ := exists_standsFor hn hkind hrecord hnamed hname
  refine ⟨d, hd, ?_⟩
  intro units u hu htree
  apply exists_isLast_of_mem hu
  rw [htree, declarationsOf_eq]
  apply List.mem_filterMap.2 ⟨m, hm, hd.registered⟩

/-- The file `namespace App; use Sounds\Barks; class Dog extends \Zoo\Animal {use Barks, Runs;}`. -/
def kennelFile : Node :=
  .inner program
    [.inner namespaceDefinition [(Node.token namespaceName "App").withField "name"],
      .inner useStatement [.inner useClause [.token qualifiedName "Sounds\\Barks"]],
      .inner classDeclaration
        [(Node.token name "Dog").withField "name",
          .inner baseClause [.token qualifiedName "\\Zoo\\Animal"],
          (Node.inner declarationList
            [.inner traitUse [.token name "Barks", .token name "Runs"]]).withField "body"]]

/-- A file with a class that has a parent and a trait. -/
theorem one_name_in_all_places_kennelFile :
  kennelFile.IsBare ∧ ¬ isClassLike kennelFile.kind ∧ NothingHidden kennelFile
  ∧ (scopedNodes kennelFile).map Prod.snd = classLikes kennelFile
  ∧ declarationsOf (resolveNames kennelFile)
    = (classLikes (resolveNames kennelFile)).filterMap declarationOf
  ∧ List.Forall₂
    (fun p m => m.bare = p.2 ∧ ∃ scope, p.1 = some scope
      ∧ ∀ named, p.2.childByField "name" = some named → named.text ≠ "" →
        ∃ d, StandsFor scope p.2 named m d
          ∧ ∀ units, ∀ u ∈ units, u.tree = resolveNames kennelFile →
            ∃ last, (Run.indexed units).get? d.name = some last ∧ key last.name = key d.name
              ∧ IsLast (Run.declared units) last)
    (scopedNodes kennelFile) (classLikes (resolveNames kennelFile))
  := by
  have hbare : kennelFile.IsBare := rfl
  have hroot : ¬ isClassLike kennelFile.kind := by decide
  have hhidden : NothingHidden kennelFile := by
    simp only [NothingHidden, IsPassedOver, classLikes, Node.descendants_eq_preorder]
    decide
  exact ⟨hbare, hroot, hhidden, one_name_in_all_places hbare hroot hhidden⟩

end Amend.Php
