import Amend.Proofs.Scoping
import Amend.Proofs.StaticCall.Stable

/-!
# The rule leaves the declarations alone

Whatever the rule rewrites in a tree, the tree declares the same afterwards, in the same order
(`applyAll?_keeps_declarations`).  A rewritten call keeps its arguments, and with them the classes
declared in closures there; its other parts declare nothing.  A declaration is kept itself, and so
are its methods, as no call stands in their names.
-/

namespace Amend.StaticCall

/-- The tree has the shape of PHP.  In a call on `$this` only the arguments hold declarations, no
call stands in a name, and the body of a declaration is a class body. -/
structure WellShaped (tree : Node) : Prop where
  calls : ∀ n ∈ tree.descendants, n.kind = Php.memberCall →
    ∀ object ∈ n.childByField "object", object.isVariable Php.variableName "$this" = true →
      ∀ c ∈ n.children.eraseP (·.field == some "arguments"), Php.classLikes c = []
  names : ∀ n ∈ tree.descendants, n.kind = Php.name → CallFree n
  declared : ∀ n ∈ tree.descendants, Php.isClassLike n.kind ∨ n.kind = Php.methodDeclaration →
    ∀ c ∈ n.childByField "name", CallFree c
  bodies : ∀ n ∈ tree.descendants, Php.isClassLike n.kind →
    ∀ c ∈ n.childByField "body", c.kind ∈ classBodies

variable {options : Options} {queries : Queries} {outer : List Ancestor} {n : Node}

/-- The children of a well-shaped node are well-shaped. -/
theorem WellShaped.of_mem_children {c : Node} (h : WellShaped n) (hc : c ∈ n.children) :
  WellShaped c
  := by
  have hbelow {m : Node} (hm : m ∈ c.descendants) : m ∈ n.descendants :=
    Node.mem_descendants_of_mem_children hm hc
  constructor
  · intro m hm
    apply h.calls m (hbelow hm)
  · intro m hm
    apply h.names m (hbelow hm)
  · intro m hm
    apply h.declared m (hbelow hm)
  · intro m hm
    apply h.bodies m (hbelow hm)

/-- In a well-shaped tree plain names are tokens. -/
theorem WellShaped.plainNames (h : WellShaped n) :
  PlainNames n
  := by
  constructor
  · exact h.names
  · intro m hm hkind
    apply h.declared m hm
    exact .inl (isClassLike_of_mem_selfScopes hkind)

/-! ### The declarations of a rewritten call -/

/-- A node that is not class-like declares what its children declare. -/
theorem declarationsOf_of_kind (h : ¬ Php.isClassLike n.kind) :
  Php.declarationsOf n = n.children.flatMap Php.declarationsOf
  := by
  have hnone : Php.declarationOf n = none := if_neg h
  rw [Php.declarationsOf_eq_append, hnone]
  rfl

/-- What is put together of all elements of a list comes from the first one of a sort, when the
others give nothing. -/
theorem flatMap_of_find?_eq_some {α β : Type} {p : α → Bool} {f : α → List β} {as : List α} {a : α}
    (hfound : as.find? p = some a) (hothers : ∀ b ∈ as.eraseP p, f b = []) :
  as.flatMap f = f a
  := by
  induction as with
  | nil => cases hfound
  | cons b as ih =>
    by_cases hb : p b = true
    · rw [List.find?_cons_of_pos hb] at hfound
      rw [List.eraseP_cons_of_pos hb] at hothers
      cases hfound
      rw [List.flatMap_cons, List.flatMap_eq_nil_iff.2 hothers, List.append_nil]
    · rw [List.find?_cons_of_neg hb] at hfound
      rw [List.eraseP_cons_of_neg hb, List.forall_mem_cons] at hothers
      rw [List.flatMap_cons, hothers.1, List.nil_append, ih hfound hothers.2]

/-- A static call declares what its arguments declare. -/
theorem Parts.declarationsOf_toStatic (p : Parts) (call : Node) :
  Php.declarationsOf ((p.toStatic call).inheritPosition call) = Php.declarationsOf p.arguments
  := by
  have htoken {leaf : Node} (hkind : ¬ Php.isClassLike leaf.kind) (h : leaf.children = []) :
      Php.declarationsOf leaf = [] := by
    rw [declarationsOf_of_kind hkind, h, List.flatMap_nil]
  have hscope : Php.declarationsOf p.scope = [] := by
    have hkind : ¬ Php.isClassLike p.scope.kind := by
      rw [p.kind_scope]
      decide
    have hchildren : p.scope.children = [.token Php.selfKeyword "self"] := rfl
    rw [declarationsOf_of_kind hkind, hchildren, List.flatMap_singleton]
    apply htoken (by decide) rfl
  have hoperator : Php.declarationsOf (p.operator call) = [] := by
    apply htoken _ rfl
    rw [p.kind_operator]
    decide
  have hmethod : Php.declarationsOf p.method = [] := by
    apply htoken _ rfl
    rw [p.kind_method]
    decide
  have hkind : ((p.toStatic call).inheritPosition call).kind = Php.scopedCall := rfl
  have hchildren : ((p.toStatic call).inheritPosition call).children
      = [p.scope, p.operator call, p.method, p.arguments] := rfl
  rw [declarationsOf_of_kind, hchildren]
  · simp [hscope, hoperator, hmethod]
  · rw [hkind]
    decide

/-- A call that is rewritten declares what its arguments declare. -/
theorem declarationsOf_of_rewritten? {p : Parts} (hshape : WellShaped n)
    (h : rewritten? options queries (receiverClass outer) n = some p) :
  Php.declarationsOf n = Php.declarationsOf p.arguments
  := by
  obtain ⟨hkind, hparts, hthis, -⟩ := rewritten?_eq_some_iff.1 h
  obtain ⟨hobject, -, harguments⟩ := of?_eq_some_iff.1 hparts
  rw [declarationsOf_of_kind]
  · apply flatMap_of_find?_eq_some harguments
    intro c hc
    have hnone := hshape.calls n n.self_mem_descendants hkind p.object hobject
      (Parts.onThis_iff.1 hthis).1 c hc
    rw [Php.declarationsOf_eq, hnone, List.filterMap_nil]
  · rw [hkind]
    decide

/-! ### The declaration of a node that is kept -/

/-- A token keeps its text. -/
theorem tokenText_amend :
  (amend options queries outer n).tokenText = n.tokenText
  := by
  cases h : rewritten? options queries (receiverClass outer) n with
  | some p =>
    rw [amend_of_some h]
    cases n with
    | leaf tag text => cases (rewritten?_leaf _ tag text).symm.trans h
    | branch tag children => rfl
  | none =>
    rw [amend_of_none h]
    cases n <;> rfl

/-- Nodes of other kinds than calls are those of that kind before. -/
theorem kind_amend_iff {k : Kind} (hcall : k ≠ Php.memberCall) (hstatic : k ≠ Php.scopedCall) :
  (amend options queries outer n).kind = k ↔ n.kind = k
  := by
  cases h : rewritten? options queries (receiverClass outer) n with
  | some p =>
    rw [kind_amend_of_some h, (rewritten?_eq_some_iff.1 h).1]
    exact iff_of_false hstatic.symm hcall.symm
  | none => rw [kind_amend_of_none h]

/-- The children of a node that is no rewritten call are amended one by one. -/
theorem children_amend_of_none (h : rewritten? options queries (receiverClass outer) n = none) :
  (amend options queries outer n).children = n.children.map (amend options queries (.of n :: outer))
  := by
  rw [amend_of_none h, Node.children_withChildren_map]

/-- A method is static or not as before. -/
theorem isStaticMethod_amend (h : rewritten? options queries (receiverClass outer) n = none) :
  Php.isStaticMethod (amend options queries outer n) = Php.isStaticMethod n
  := by
  have hmarks (c : Node) :
      ((amend options queries (.of n :: outer) c).kind == Php.staticModifier)
        = (c.kind == Php.staticModifier) := by
    rw [Bool.eq_iff_iff, beq_iff_eq, beq_iff_eq]
    apply kind_amend_iff <;> decide
  rw [Php.isStaticMethod, Php.isStaticMethod, children_amend_of_none h, List.any_map]
  simp only [Function.comp_def, hmarks, tokenText_amend]

/-- Nothing is rewritten but method calls. -/
theorem rewritten?_of_kind_ne {receiver : Option String} (h : n.kind ≠ Php.memberCall) :
  rewritten? options queries receiver n = none
  := if_neg h

/-- Among nodes in whose names no call stands, the methods stay. -/
theorem filterMap_methods_amend {ns : List Node}
    (h : ∀ m ∈ ns, m.kind = Php.methodDeclaration → ∀ c ∈ m.childByField "name", CallFree c) :
  ((ns.map (amend options queries outer)).filter (·.kind == Php.methodDeclaration)).filterMap
      (fun method =>
        (method.childByField "name").map fun n => ⟨n.text, Php.isStaticMethod method⟩)
    = (ns.filter (·.kind == Php.methodDeclaration)).filterMap
      (fun method =>
        (method.childByField "name").map fun n => (⟨n.text, Php.isStaticMethod method⟩ : Member))
  := by
  have hmethods : (·.kind == Php.methodDeclaration) ∘ amend options queries outer
      = (·.kind == Php.methodDeclaration) := by
    funext m
    rw [Function.comp_apply, Bool.eq_iff_iff, beq_iff_eq, beq_iff_eq]
    apply kind_amend_iff <;> decide
  rw [List.filter_map, hmethods, List.filterMap_map]
  apply List.filterMap_congr
  intro m hm
  obtain ⟨hm, hkind⟩ := List.mem_filter.1 hm
  have hkind : m.kind = Php.methodDeclaration := beq_iff_eq.1 hkind
  have hkept : rewritten? options queries (receiverClass outer) m = none := by
    apply rewritten?_of_kind_ne
    rw [hkind]
    decide
  rw [Function.comp_apply, childByField_name_amend hkept (h m hm hkind), isStaticMethod_amend hkept]

/-- A declaration that is kept keeps its methods. -/
theorem methodsOf_amend (hshape : WellShaped n) (hkind : Php.isClassLike n.kind)
    (h : rewritten? options queries (receiverClass outer) n = none) :
  Php.methodsOf (amend options queries outer n) = Php.methodsOf n
  := by
  rw [Php.methodsOf, Php.methodsOf, childByField_amend_of_none h]
  cases hbody : n.childByField "body" with
  | none => rfl
  | some body =>
    have hbodyKind := hshape.bodies n n.self_mem_descendants hkind body hbody
    have hbodyShape := hshape.of_mem_children (List.mem_of_find?_eq_some hbody)
    have hkept : rewritten? options queries (receiverClass (.of n :: outer)) body = none := by
      apply rewritten?_of_kind_ne
      intro hcall
      rw [hcall] at hbodyKind
      revert hbodyKind
      decide
    simp only [Option.map_some, children_amend_of_none hkept]
    apply filterMap_methods_amend
    intro m hm hmethod
    apply hbodyShape.declared m (Node.mem_descendants_of_child hm) (.inr hmethod)

/-- A node that is kept declares the same. -/
theorem declarationOf_amend (hshape : WellShaped n)
    (h : rewritten? options queries (receiverClass outer) n = none) :
  Php.declarationOf (amend options queries outer n) = Php.declarationOf n
  := by
  have hrecorded (k : String) : (amend options queries outer n).recorded k = n.recorded k := by
    rw [amend_of_none h, Node.recorded, Node.tag_withChildren, Node.recorded]
  rw [Php.declarationOf, Php.declarationOf, kind_amend_of_none h]
  split
  · rename_i hkind
    have hname := hshape.declared n n.self_mem_descendants (.inl hkind)
    rw [Node.declaredName, Node.declaredName, Php.recordedTraits, Php.recordedTraits,
      methodsOf_amend hshape hkind h, childByField_name_amend h hname]
    simp only [hrecorded]
  · rfl

/-! ### The declarations of a tree -/

/-- Rewriting the calls of a tree leaves what it declares. -/
theorem declarationsOf_amend (hshape : WellShaped n) :
  Php.declarationsOf (amend options queries outer n) = Php.declarationsOf n
  := by
  induction n using Node.below_induction generalizing outer with
  | below n ih =>
    have hchild {c : Node} (hc : c ∈ n.children) :
        Php.declarationsOf (amend options queries (.of n :: outer) c) = Php.declarationsOf c :=
      ih c hc (hshape.of_mem_children hc)
    cases h : rewritten? options queries (receiverClass outer) n with
    | some p =>
      rw [amend_of_some h, Parts.declarationsOf_toStatic, hchild (arguments_mem_of_rewritten? h),
        declarationsOf_of_rewritten? hshape h]
    | none =>
      rw [Php.declarationsOf_eq_append, Php.declarationsOf_eq_append n,
        declarationOf_amend hshape h, children_amend_of_none h, List.flatMap_map]
      congr 1
      apply List.flatMap_congr
      intro c hc
      apply hchild hc

/-- However many passes there are, they come to the tree with its calls rewritten at once. -/
theorem exists_outcome_tree_eq (options : Options) (queries : Queries) (mode : PassMode)
    {tree : Node} (activity : Activity) (hnames : PlainNames tree) :
  ∃ outcome, (dispatcher options mode).applyAll? queries tree activity = some outcome
    ∧ outcome.tree = amend options queries [] tree
  := by
  obtain ⟨t, h⟩ := exists_adds options queries activity tree
  obtain ⟨t', hsecond⟩ := exists_adds options queries activity (amend options queries [] tree)
  have h' := addsNothing_amend hnames hsecond
  cases mode with
  | single => exact ⟨_, h.applyAll?_single, rfl⟩
  | converge maxPasses =>
    by_cases hpasses : 2 ≤ maxPasses
    · obtain ⟨outcome, houtcome, htree, -⟩ := applyAll?_converge hpasses h h'
      exact ⟨outcome, houtcome, htree⟩
    · have hlimit : (dispatcher options (.converge maxPasses)).mode.limit = 0 + 1 := by
        change max maxPasses 1 = _
        omega
      have hpass := h.repeatPasses_succ (.converge maxPasses) 0 0 (j := { activity }) rfl rfl
      rw [Dispatcher.applyAll?, hlimit, hpass]
      by_cases hdone : t.applications = []
      · rw [if_pos hdone]
        exact ⟨_, rfl, rfl⟩
      · rw [if_neg hdone, if_pos ⟨rfl, rfl⟩]
        exact ⟨_, rfl, rfl⟩

/-- Whatever the rule is asked of and however often, a tree of the shape of PHP declares the same
once its calls are rewritten, in the same order, and any index that collects its declarations comes
out the same. -/
theorem applyAll?_keeps_declarations (options : Options) (queries : Queries) (mode : PassMode)
    (tree : Node) (activity : Activity) (hshape : WellShaped tree) :
  ∃ outcome, (dispatcher options mode).applyAll? queries tree activity = some outcome
    ∧ Php.declarationsOf outcome.tree = Php.declarationsOf tree
    ∧ ∀ index, Php.collect index outcome.tree = Php.collect index tree
  := by
  obtain ⟨outcome, houtcome, htree⟩ :=
    exists_outcome_tree_eq options queries mode activity hshape.plainNames
  have hdeclared : Php.declarationsOf outcome.tree = Php.declarationsOf tree := by
    rw [htree, declarationsOf_amend hshape]
  refine ⟨outcome, houtcome, hdeclared, ?_⟩
  intro index
  rw [Php.collect, Php.collect, hdeclared]

/-- Where every method is static, a call on `$this` is rewritten. -/
theorem rewritten?_thisCall (options : Options) (receiver : String) {method : String}
    (hmethod : method ≠ "") (arguments : List Node) :
  (rewritten? options allStatic (some receiver) (thisCall method arguments)).isSome
  := by
  let name : Node := (Node.token Php.name method).withField "name"
  have hobject : thisObject.isVariable Php.variableName "$this" = true := by decide
  have hrewritten : rewritten? options allStatic (some receiver) (thisCall method arguments)
      = some ⟨thisObject, name, argumentList arguments⟩ := by
    apply rewritten?_eq_some_iff.2
    refine ⟨rfl, rfl, ?_, callsStatically_allStatic _ _ _⟩
    apply Parts.onThis_iff.2
    exact ⟨hobject, rfl, hmethod⟩
  rw [hrewritten, Option.isSome_some]

/-- The call `$this->each(function () {class Inner {static function make() {}}})`. -/
def callWithClosure : Node :=
  thisCall "each"
    [.inner ⟨"anonymous_function"⟩
      [.inner Php.classDeclaration
        [(Node.token Php.name "Inner").withField "name",
          (Node.inner Php.declarationList
            [.inner Php.methodDeclaration
              [.inner Php.staticModifier [.token ⟨"static"⟩ "static"],
                (Node.token Php.name "make").withField "name"]]).withField "body"]]]

/-- A class `Outer` with this call in its body. -/
def classWithClosure : Node :=
  .inner Php.classDeclaration
    [(Node.token Php.name "Outer").withField "name",
      (Node.inner Php.declarationList [callWithClosure]).withField "body"]

/-- A rewritten call with a class in its arguments. -/
theorem applyAll?_keeps_declarations_classWithClosure :
  (rewritten? {} allStatic (some "Outer") callWithClosure).isSome
  ∧ WellShaped classWithClosure
  ∧ ∃ outcome,
    (dispatcher {} (.converge 10)).applyAll? allStatic classWithClosure .idle = some outcome
    ∧ Php.declarationsOf outcome.tree = Php.declarationsOf classWithClosure
    ∧ ∀ index, Php.collect index outcome.tree = Php.collect index classWithClosure
  := by
  have hshape : WellShaped classWithClosure := by
    constructor
    · simp only [Php.classLikes, Node.descendants_eq_preorder]
      decide
    · simp only [CallFree, Node.descendants_eq_preorder]
      decide
    · simp only [CallFree, Node.descendants_eq_preorder]
      decide
    · simp only [Node.descendants_eq_preorder]
      decide
  refine ⟨?_, hshape, applyAll?_keeps_declarations _ _ _ _ _ hshape⟩
  apply rewritten?_thisCall {} "Outer" (by decide)

end Amend.StaticCall
