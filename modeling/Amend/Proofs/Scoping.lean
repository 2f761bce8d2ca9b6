import Amend.Php.Declarations
import Amend.Proofs.RoundTrip
import Mathlib.Data.List.Forall2

/-!
# What a file declares

`Php.scopedNodes` lists the class-like nodes of a tree as it was parsed, each with the scope that
its names are meant in, and `Php.describe` tells what such a node declares.  The declarations that
are collected once the names have been resolved are these (`Php.declarationsOf_resolveNames`):
what `resolveNames` records on a node and `declarationOf` reads back is the same, and recording
it leaves the rest of the tree as it is.
-/

namespace Amend

namespace Node

/-- Nothing is recorded on the nodes of the tree. -/
def IsBare (n : Node) : Prop := n.bare = n

/-- Nothing is recorded on the nodes below either. -/
theorem IsBare.of_mem_descendants {n m : Node} (h : n.IsBare) (hm : m ∈ n.descendants) :
  m.IsBare
  := by
  have hdescendants : n.descendants.map bare = n.descendants.map id := by
    rw [← descendants_bare, h, List.map_id]
  apply List.map_inj_left.1 hdescendants m hm

/-- Such a node has no attributes. -/
theorem IsBare.attributes {n : Node} (h : n.IsBare) :
  n.tag.attributes = .empty
  := by
  rw [← h, tag_bare]
  rfl

/-- Nothing is recorded under any key. -/
theorem IsBare.recorded {n : Node} (h : n.IsBare) (key : String) :
  n.recorded key = none
  := by
  rw [Node.recorded, h.attributes]
  rfl

/-- A tag without attributes leaves a bare node bare. -/
theorem IsBare.withTag {n : Node} (h : n.IsBare) {t : Tag} (ht : t.attributes = .empty) :
  (n.withTag t).IsBare
  := by
  have hbare : t.bare = t := by
    rw [Tag.bare, ← ht]
  rw [IsBare, bare_withTag, h, hbare]

/-- What is recorded is found under its key. -/
theorem recorded_withAttribute (n : Node) (k value other : String) :
  (n.withAttribute k value).recorded other = if other = k then some value else n.recorded other
  := by
  rw [recorded, withAttribute, tag_withTag]
  apply Attributes.get?_insert

/-! ### What does not depend on what is recorded -/

theorem kind_bare (n : Node) :
  n.bare.kind = n.kind
  := by
  rw [kind, tag_bare]
  rfl

theorem field_bare (n : Node) :
  n.bare.field = n.field
  := by
  rw [field, tag_bare]
  rfl

/-- A token has the same text, whatever is recorded on it. -/
theorem tokenText_bare (n : Node) :
  n.bare.tokenText = n.tokenText
  := by
  cases n <;> rfl

theorem text_bare (n : Node) :
  n.bare.text = n.text
  := by
  have hall (ns : List Node) (h : ∀ n ∈ ns, n.bare.text = n.text) :
      textAll (bareAll ns) = textAll ns := by
    induction ns with
    | nil => rfl
    | cons n ns ih =>
      obtain ⟨hn, hns⟩ := List.forall_mem_cons.1 h
      rw [bareAll, textAll, textAll, hn, ih hns]
  induction n with
  | leaf tag text => rfl
  | branch tag children ih =>
    rw [bare, text, text, hall children ih]

/-- A child is found by its field, whatever is recorded. -/
theorem childByField_bare (n : Node) (field : String) :
  n.bare.childByField field = (n.childByField field).map bare
  := by
  have hfield : ((fun c : Node => c.field == some field) ∘ bare)
      = fun c : Node => c.field == some field := by
    funext c
    rw [Function.comp_apply, field_bare]
  rw [childByField, childByField, children_bare, List.find?_map, hfield]

/-- The text of the first child in a field. -/
theorem map_text_childByField_bare (n : Node) (field : String) :
  (n.bare.childByField field).map text = (n.childByField field).map text
  := by
  rw [childByField_bare, Option.map_map]
  congr 1
  funext c
  apply text_bare

end Node

namespace ParseTree

/-- If nothing is recorded in each child, nothing is in the siblings that they are converted to. -/
theorem isBare_of_mem_toSiblings {text : String} {cs : List ParseTree}
    (h : ∀ c ∈ cs, (c.toInner text).IsBare) (offset : Nat) :
  ∀ n ∈ (toSiblings text offset cs).1, n.IsBare
  := by
  induction cs generalizing offset with
  | nil =>
    intro n hn
    cases hn
  | cons c cs ih =>
    obtain ⟨hc, hcs⟩ := List.forall_mem_cons.1 h
    rw [toSiblings, List.forall_mem_cons]
    constructor
    · apply hc.withTag
      exact hc.attributes
    · apply ih hcs

/-- The conversion records nothing. -/
theorem isBare_toInner (text : String) (t : ParseTree) :
  (t.toInner text).IsBare
  := by
  induction t with
  | node kind start stop field isError isMissing hasError children ih =>
    cases children with
    | nil => rfl
    | cons c cs =>
      have hchildren := List.map_congr_left (isBare_of_mem_toSiblings ih start)
      rw [toInner, Node.IsBare, Node.bare, Node.bareAll_eq_map, hchildren, List.map_id']
      rfl

/-- A tree that is filled in from a parse tree has nothing recorded on its nodes. -/
theorem isBare_toNode (text : String) (t : ParseTree) :
  (t.toNode text).IsBare
  := by
  have hinner := isBare_toInner text t
  apply hinner.withTag
  exact hinner.attributes

end ParseTree

namespace Php

/-! ### Methods -/

/-- Whether a method is static does not depend on what is recorded. -/
theorem isStaticMethod_bare (method : Node) :
  isStaticMethod method.bare = isStaticMethod method
  := by
  rw [isStaticMethod, isStaticMethod, Node.children_bare, List.any_map]
  congr 1
  funext c
  rw [Function.comp_apply, Node.kind_bare, Node.tokenText_bare]

/-- The methods of a declaration do not depend on what is recorded. -/
theorem methodsOf_bare (declaration : Node) :
  methodsOf declaration.bare = methodsOf declaration
  := by
  have hkind : ((·.kind == methodDeclaration) ∘ Node.bare)
      = fun c : Node => c.kind == methodDeclaration := by
    funext c
    rw [Function.comp_apply, Node.kind_bare]
  have hmethod (method : Node) :
      ((method.bare.childByField "name").map fun n => Member.mk n.text (isStaticMethod method.bare))
        = (method.childByField "name").map fun n => Member.mk n.text (isStaticMethod method) := by
    rw [Node.childByField_bare, Option.map_map, isStaticMethod_bare]
    congr 1
    funext n
    rw [Function.comp_apply, Node.text_bare]
  rw [methodsOf, methodsOf, Node.childByField_bare]
  cases declaration.childByField "body" with
  | none => rfl
  | some body =>
    simp only [Option.map_some, Node.children_bare, List.filter_map, hkind, List.filterMap_map,
      Function.comp_def, hmethod]

/-! ### Names in one text -/

/-- The names that a name stands for when it is kept in a list separated by commas; a name without
comma stands for itself. -/
def listed (name : String) : List String := (Text.splitOn ',' name).filter (· ≠ "")

/-- A comma separates the names that are listed. -/
theorem listed_append (s t : String) :
  listed (s ++ "," ++ t) = listed s ++ listed t
  := by
  have hlist : (s ++ "," ++ t).toList = s.toList ++ ',' :: t.toList := by simp
  rw [listed, Text.splitOn, hlist, List.splitOn_append_cons_self, List.map_append,
    List.filter_append]
  rfl

/-- Names with commas between them are listed one by one. -/
theorem listed_intercalate (names : List String) :
  listed (String.intercalate "," names) = names.flatMap listed
  := by
  induction names with
  | nil => rfl
  | cons s names ih =>
    cases names with
    | nil => simp
    | cons t names =>
      rw [String.intercalate_cons_cons, listed_append, ih]
      rfl

/-- A name without comma is the only one in its list. -/
theorem listed_of_notMem {name : String} (hcomma : ',' ∉ name.toList) (hempty : name ≠ "") :
  listed name = [name]
  := by
  rw [listed, Text.splitOn, List.splitOn_eq_singleton hcomma, List.map_singleton,
    String.ofList_toList, List.filter_singleton]
  simp [hempty]

/-! ### Recording names -/

variable {scope : Scope} {n declared : Node}

/-- Nothing is recorded on a node without a name. -/
theorem annotate_of_none (h : n.childByField "name" = none) :
  annotate scope n = n
  := by
  rw [annotate, h]

/-- What is recorded on a node that has a name. -/
theorem recorded_annotate (h : n.childByField "name" = some declared) (k : String) :
  (annotate scope n).recorded k
    = if k = traitNamesKey ∧ traitReferences n ≠ [] then
        some (String.intercalate ","
          ((traitReferences n).map fun reference => scope.resolve reference.text))
      else if k = parentNameKey ∧ (parentReference n).isSome then
        (parentReference n).map fun reference => scope.resolve reference.text
      else if k = Node.qualifiedNameKey then some (scope.declare declared.text)
      else n.recorded k
  := by
  rw [annotate, h]
  cases parentReference n <;> cases traitReferences n <;>
    simp [Node.recorded_withAttribute]

/-- The name that is recorded is the declared one in its namespace. -/
theorem recorded_annotate_name (h : n.childByField "name" = some declared) :
  (annotate scope n).recorded Node.qualifiedNameKey = some (scope.declare declared.text)
  := by
  have htraits : Node.qualifiedNameKey ≠ traitNamesKey := by decide
  have hparent : Node.qualifiedNameKey ≠ parentNameKey := by decide
  rw [recorded_annotate h, if_neg (fun h => htraits h.1), if_neg (fun h => hparent h.1), if_pos rfl]

/-- The parent that is recorded is the one that is meant. -/
theorem recorded_annotate_parent (hbare : n.IsBare) (h : n.childByField "name" = some declared) :
  (annotate scope n).recorded parentNameKey
    = (parentReference n).map fun reference => scope.resolve reference.text
  := by
  have htraits : parentNameKey ≠ traitNamesKey := by decide
  have hname : parentNameKey ≠ Node.qualifiedNameKey := by decide
  rw [recorded_annotate h, if_neg (fun h => htraits h.1), if_neg hname, hbare.recorded]
  cases parentReference n <;> rfl

/-- The traits that are recorded are those that are meant. -/
theorem recordedTraits_annotate (hbare : n.IsBare) (h : n.childByField "name" = some declared) :
  recordedTraits (annotate scope n)
    = (traitReferences n).flatMap fun reference => listed (scope.resolve reference.text)
  := by
  rw [recordedTraits, recorded_annotate h]
  by_cases hnone : traitReferences n = []
  · have hparent : traitNamesKey ≠ parentNameKey := by decide
    have hname : traitNamesKey ≠ Node.qualifiedNameKey := by decide
    rw [if_neg (fun h => h.2 hnone), if_neg (fun h => hparent h.1), if_neg hname,
      hbare.recorded, hnone]
    rfl
  · rw [if_pos ⟨rfl, hnone⟩, ← List.flatMap_map, ← listed_intercalate]
    rfl

/-- What a class-like node declares, its names being meant in a scope; without a scope its name
is meant as it is spelled, and no parent and no traits are known. -/
def describe (scope : Option Scope) (n : Node) : Option Declaration :=
  (((n.childByField "name").map fun declared =>
      scope.elim declared.text fun s => s.declare declared.text).filter (· ≠ "")).map fun name =>
    { name
      parent := scope.bind fun s =>
        (parentReference n).map fun reference => s.resolve reference.text
      traits := scope.elim [] fun s =>
        (traitReferences n).flatMap fun reference => listed (s.resolve reference.text)
      members := methodsOf n }

/-- What a node declares, from what is recorded on it and from the tree that it annotates. -/
theorem declarationOf_eq {m : Node} (hkind : isClassLike n.kind) (hm : m.bare = n) :
  declarationOf m
    = (((m.recorded Node.qualifiedNameKey).or ((n.childByField "name").map Node.text)).filter
        (· ≠ "")).map fun name =>
          { name, parent := m.recorded parentNameKey, traits := recordedTraits m
            members := methodsOf n }
  := by
  have hmkind : m.kind = n.kind := by
    rw [← hm, Node.kind_bare]
  have hspelled := m.map_text_childByField_bare "name"
  rw [hm] at hspelled
  rw [declarationOf, hmkind, if_pos hkind, Node.declaredName, ← hspelled, ← methodsOf_bare m, hm]

/-- A node on which nothing is recorded declares what it declares without a scope. -/
theorem declarationOf_of_attributes {m : Node} (hkind : isClassLike n.kind) (hm : m.bare = n)
    (hattributes : m.tag.attributes = .empty) :
  declarationOf m = describe none n
  := by
  have hrecorded (k : String) : m.recorded k = none := by
    rw [Node.recorded, hattributes]
    rfl
  rw [declarationOf_eq hkind hm, recordedTraits, hrecorded, hrecorded, hrecorded]
  rfl

/-- A node on which names are recorded declares what it declares in the scope. -/
theorem declarationOf_annotate {m : Node} (hbare : n.IsBare) (hkind : isClassLike n.kind)
    (hm : m.bare = n) (htag : m.tag = (annotate scope n).tag) :
  declarationOf m = describe (some scope) n
  := by
  have hrecorded (k : String) : m.recorded k = (annotate scope n).recorded k := by
    rw [Node.recorded, htag, Node.recorded]
  rw [declarationOf_eq hkind hm, recordedTraits, hrecorded, hrecorded, hrecorded, describe]
  cases hdeclared : n.childByField "name" with
  | none =>
    rw [annotate_of_none hdeclared, hbare.recorded Node.qualifiedNameKey]
    rfl
  | some declared =>
    rw [recorded_annotate_name hdeclared, recorded_annotate_parent hbare hdeclared,
      ← recordedTraits, recordedTraits_annotate hbare hdeclared]
    rfl

/-! ### The class-like nodes of a tree -/

/-- Lists that are mapped alike one by one. -/
theorem filterMap_eq_of_forall₂ {α β γ : Type} {f : α → Option γ} {g : β → Option γ} {as : List α}
    {bs : List β} (h : List.Forall₂ (fun a b => f a = g b) as bs) :
  as.filterMap f = bs.filterMap g
  := by
  induction h with
  | nil => rfl
  | cons hab _ ih => rw [List.filterMap_cons, List.filterMap_cons, hab, ih]

/-- The class-like nodes of a tree in their order. -/
def classLikes (n : Node) : List Node := n.descendants.filter fun m => isClassLike m.kind

/-- The class-like nodes of the trees of a list. -/
def classLikesAmong (ns : List Node) : List Node := ns.flatMap classLikes

/-- The class-like nodes of a tree in which no names are resolved. -/
def unscoped (n : Node) : List (Option Scope × Node) :=
  (n.descendants.filter fun m => isClassLike m.kind).map fun m => (none, m)

mutual

/-- The class-like nodes below a node in their order, each with the scope that its names are meant
in, when the node is met in `scope`; and the scope after the node. -/
def scopedBelow (scope : Scope) : Node → List (Option Scope × Node) × Scope
  | .leaf _ _ => ([], scope)
  | .branch _ children => scopedSiblings scope children

/-- The class-like nodes of several trees, likewise.  The names in a namespace with a body are
meant in a scope of their own, and those after a namespace without body in the scope that it
opens; a `use` statement adds its imports to the scope. -/
def scopedSiblings (scope : Scope) : List Node → List (Option Scope × Node) × Scope
  | [] => ([], scope)
  | n :: rest =>
    let (first, inner) :=
      if n.kind = namespaceDefinition then
        let space := ((n.childByField "name").map Node.text).getD ""
        if (n.childByField "body").isSome then ((scopedBelow (.entering space) n).1, scope)
        else (unscoped n, .entering space)
      else if n.kind = useStatement then (unscoped n, importStatement scope n)
      else
        let (below, inner) := scopedBelow scope n
        (if isClassLike n.kind then (some scope, n) :: below else below, inner)
    let (others, final) := scopedSiblings inner rest
    (first ++ others, final)

end

/-- The class-like nodes of a tree in their order, each with the scope that its names are meant
in.  The names of the root are not resolved. -/
def scopedNodes (root : Node) : List (Option Scope × Node) :=
  (if isClassLike root.kind then [(none, root)] else []) ++ (scopedBelow {} root).1

/-- What is declared in a tree, as its names are meant. -/
def meantDeclarations (root : Node) : List Declaration :=
  (scopedNodes root).filterMap fun p => describe p.1 p.2

/-- The class-like nodes are those below a node that are of a class-like kind. -/
theorem mem_classLikes {m : Node} :
  m ∈ classLikes n ↔ m ∈ n.descendants ∧ isClassLike m.kind
  := List.mem_filter

/-- The class-like nodes are the node itself, if it is one, and those in its children. -/
theorem classLikes_eq (n : Node) :
  classLikes n = (if isClassLike n.kind then [n] else []) ++ classLikesAmong n.children
  := by
  rw [classLikes, Node.descendants_eq, List.filter_cons, classLikesAmong, List.filter_flatMap]
  split <;> rfl

theorem classLikesAmong_cons (n : Node) (ns : List Node) :
  classLikesAmong (n :: ns) = classLikes n ++ classLikesAmong ns
  := rfl

/-- What is declared in a tree is declared by its class-like nodes. -/
theorem declarationsOf_eq (n : Node) :
  declarationsOf n = (classLikes n).filterMap declarationOf
  := by
  rw [declarationsOf, classLikes, List.filterMap_filter]
  apply List.filterMap_congr
  intro m _
  split
  · rfl
  · apply if_neg ‹_›

/-- A node declares what it is, and then what its children declare. -/
theorem declarationsOf_eq_append (n : Node) :
  declarationsOf n = (declarationOf n).toList ++ n.children.flatMap declarationsOf
  := by
  rw [declarationsOf, Node.descendants_eq, List.filterMap_cons, List.filterMap_flatMap]
  cases declarationOf n <;> rfl

/-! ### The scope of each node -/

/-- The class-like nodes of a tree that is met in `scope`, each with the scope that its names are
meant in; and the scope after it. -/
def scopedNode (scope : Scope) (n : Node) : List (Option Scope × Node) × Scope :=
  if n.kind = namespaceDefinition then
    if (n.childByField "body").isSome then ((scopedBelow (.entering (spaceOf n)) n).1, scope)
    else (unscoped n, .entering (spaceOf n))
  else if n.kind = useStatement then (unscoped n, importStatement scope n)
  else if isClassLike n.kind then
    ((some scope, n) :: (scopedBelow scope n).1, (scopedBelow scope n).2)
  else scopedBelow scope n

/-- The first sibling has the scope at hand, and the others that which it leaves. -/
theorem scopedSiblings_cons (scope : Scope) (n : Node) (rest : List Node) :
  scopedSiblings scope (n :: rest)
    = ((scopedNode scope n).1 ++ (scopedSiblings (scopedNode scope n).2 rest).1,
      (scopedSiblings (scopedNode scope n).2 rest).2)
  := by
  rw [scopedSiblings, scopedNode]
  split_ifs <;> rfl

/-- The node `m` is the node of a pair, with what its names mean in the scope of the pair recorded
on it; without a scope nothing more is recorded. -/
structure Records (p : Option Scope × Node) (m : Node) : Prop where
  bare_eq : m.bare = p.2.bare
  tag_eq : m.tag = p.1.elim p.2.tag fun scope => (annotate scope p.2).tag

/-- On a node is recorded what its names mean. -/
theorem records_annotate (scope : Scope) (n : Node) :
  Records (some scope, n) ((resolveBelow scope n).1.withTag (annotate scope n).tag)
  := by
  constructor
  · rw [Node.bare_withTag_of_bare_eq, bare_resolveBelow]
    rw [bare_tag_annotate, tag_resolveBelow]
  · apply Node.tag_withTag

/-- Nothing is recorded on the nodes that are passed over. -/
theorem forall₂_unscoped (n : Node) :
  List.Forall₂ Records (unscoped n) (classLikes n)
  := by
  rw [unscoped, List.forall₂_map_left_iff, ← classLikes, List.forall₂_same]
  intro m _
  exact ⟨rfl, rfl⟩

/-- The class-like nodes below a node that is met in `scope` are listed one by one, and have
recorded on them what their names mean. -/
structure RecordsBelow (scope : Scope) (n : Node) : Prop where
  nodes : (scopedBelow scope n).1.map Prod.snd = classLikesAmong n.children
  records : List.Forall₂ Records (scopedBelow scope n).1
    (classLikesAmong (resolveBelow scope n).1.children)
  scope_eq : (resolveBelow scope n).2 = (scopedBelow scope n).2

/-- The nodes that are passed over are listed without a scope. -/
theorem map_snd_unscoped (n : Node) :
  (unscoped n).map Prod.snd = classLikes n
  := by
  rw [unscoped, List.map_map]
  apply List.map_id

theorem not_isClassLike_of_eq {k : Kind} (h : k = namespaceDefinition) :
  ¬ isClassLike k
  := by
  rw [h]
  decide

/-- The nodes that are listed are the class-like ones. -/
theorem map_snd_scopedNode (h : ∀ scope, RecordsBelow scope n) (scope : Scope) :
  (scopedNode scope n).1.map Prod.snd = classLikes n
  := by
  rw [scopedNode]
  split
  · split
    · rw [(h _).nodes, classLikes_eq, if_neg (not_isClassLike_of_eq ‹_›), List.nil_append]
    · apply map_snd_unscoped
  · split
    · apply map_snd_unscoped
    · split
      · rw [List.map_cons, (h scope).nodes, classLikes_eq, if_pos ‹_›, List.singleton_append]
      · rw [(h scope).nodes, classLikes_eq, if_neg ‹_›, List.nil_append]

/-- What is recorded on a node and below it is what is meant, when that is so below it. -/
theorem forall₂_scopedNode (h : ∀ scope, RecordsBelow scope n) (scope : Scope) :
  List.Forall₂ Records (scopedNode scope n).1 (classLikes (resolveNode scope n).1)
  := by
  have hother {s : Scope} (hkind : ¬ isClassLike n.kind) :
      List.Forall₂ Records (scopedBelow s n).1 (classLikes (resolveBelow s n).1) := by
    have hkind' : ¬ isClassLike (resolveBelow s n).1.kind := by
      rwa [Node.kind, tag_resolveBelow]
    rw [classLikes_eq, if_neg hkind', List.nil_append]
    apply (h s).records
  rw [scopedNode, resolveNode]
  split
  · split
    · apply hother (not_isClassLike_of_eq ‹_›)
    · apply forall₂_unscoped
  · split
    · apply forall₂_unscoped
    · split
      · have hkind :
            isClassLike ((resolveBelow scope n).1.withTag (annotate scope n).tag).kind := by
          rwa [Node.kind, Node.tag_withTag, kind_annotate]
        rw [classLikes_eq, if_pos hkind, List.singleton_append, Node.children_withTag]
        apply List.Forall₂.cons (records_annotate scope n) (h scope).records
      · apply hother ‹_›

/-- The listing goes on in the scope in which the resolution goes on. -/
theorem scope_resolveNode (h : ∀ scope, RecordsBelow scope n) (scope : Scope) :
  (resolveNode scope n).2 = (scopedNode scope n).2
  := by
  rw [resolveNode, scopedNode]
  split_ifs
  · rfl
  · rfl
  · rfl
  · apply (h scope).scope_eq
  · apply (h scope).scope_eq

/-- What is recorded below a node is right when it is below each child. -/
theorem recordsBelow_branch {children : List Node}
    (h : ∀ c ∈ children, ∀ scope, RecordsBelow scope c) (scope : Scope) (tag : Tag) :
  RecordsBelow scope (.branch tag children)
  := by
  suffices (scopedSiblings scope children).1.map Prod.snd = classLikesAmong children
      ∧ List.Forall₂ Records (scopedSiblings scope children).1
        (classLikesAmong (resolveSiblings scope children).1)
      ∧ (resolveSiblings scope children).2 = (scopedSiblings scope children).2 from
    ⟨this.1, this.2.1, this.2.2⟩
  induction children generalizing scope with
  | nil => exact ⟨rfl, .nil, rfl⟩
  | cons n ns ih =>
    obtain ⟨hn, hns⟩ := List.forall_mem_cons.1 h
    obtain ⟨hnodes, hrecords, hscope⟩ := ih hns (scopedNode scope n).2
    rw [scopedSiblings_cons, resolveSiblings_cons, scope_resolveNode hn, classLikesAmong_cons,
      classLikesAmong_cons, List.map_append, map_snd_scopedNode hn, hnodes]
    exact ⟨rfl, List.rel_append (forall₂_scopedNode hn scope) hrecords, hscope⟩

/-- Below every node that is met in a scope, what is recorded is what is meant. -/
theorem recordsBelow (scope : Scope) (n : Node) :
  RecordsBelow scope n
  := by
  induction n generalizing scope with
  | leaf tag text => exact ⟨rfl, .nil, rfl⟩
  | branch tag children ih =>
    apply recordsBelow_branch
    intro c hc scope
    apply ih c hc

/-- The class-like nodes of a tree are listed with the scopes that their names are meant in. -/
theorem map_snd_scopedNodes (root : Node) :
  (scopedNodes root).map Prod.snd = classLikes root
  := by
  rw [scopedNodes, List.map_append, (recordsBelow {} root).nodes, classLikes_eq]
  split <;> rfl

/-- Resolving the names of a tree records on each class-like node what its names mean. -/
theorem forall₂_resolveNames (root : Node) :
  List.Forall₂ Records (scopedNodes root) (classLikes (resolveNames root))
  := by
  have hroot : Records (none, root) (resolveNames root) :=
    ⟨bare_resolveNames root, tag_resolveBelow {} root⟩
  have hkind : (resolveNames root).kind = root.kind := by
    rw [Node.kind, resolveNames, tag_resolveBelow]
    rfl
  rw [scopedNodes, classLikes_eq, hkind]
  apply List.rel_append
  · split
    · exact .cons hroot .nil
    · exact .nil
  · apply (recordsBelow {} root).records

/-- What a class-like node declares once names are recorded on it. -/
theorem Records.declarationOf_eq {p : Option Scope × Node} {m : Node} (h : Records p m)
    (hbare : p.2.IsBare) (hkind : isClassLike p.2.kind) :
  declarationOf m = describe p.1 p.2
  := by
  obtain ⟨_ | scope, n⟩ := p
  · apply declarationOf_of_attributes hkind (h.bare_eq.trans hbare)
    rw [h.tag_eq]
    apply hbare.attributes
  · apply declarationOf_annotate hbare hkind (h.bare_eq.trans hbare) h.tag_eq

/-- In a tree on which nothing is recorded, what is recorded on the class-like nodes once names are
resolved makes them declare what they mean. -/
theorem forall₂_declarationOf {root : Node} (hbare : root.IsBare) :
  List.Forall₂ (fun p m => (p.2.IsBare ∧ isClassLike p.2.kind) ∧ Records p m)
    (scopedNodes root) (classLikes (resolveNames root))
  := by
  rw [List.forall₂_and_left]
  refine ⟨?_, forall₂_resolveNames root⟩
  intro p hp
  have hmem : p.2 ∈ classLikes root := by
    rw [← map_snd_scopedNodes]
    apply List.mem_map_of_mem hp
  obtain ⟨hdescendant, hkind⟩ := mem_classLikes.1 hmem
  exact ⟨hbare.of_mem_descendants hdescendant, hkind⟩

/-- The declarations collected from a tree whose names have been resolved are those that the tree
means. -/
theorem declarationsOf_resolveNames {root : Node} (hbare : root.IsBare) :
  declarationsOf (resolveNames root) = meantDeclarations root
  := by
  rw [declarationsOf_eq, meantDeclarations]
  symm
  apply filterMap_eq_of_forall₂
  apply (forall₂_declarationOf hbare).imp
  rintro p m ⟨⟨hp, hkind⟩, hrecords⟩
  rw [hrecords.declarationOf_eq hp hkind]

end Php

end Amend
