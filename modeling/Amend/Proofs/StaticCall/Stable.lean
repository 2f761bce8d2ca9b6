import Amend.Proofs.StaticCall.Simultaneous

/-!
# The second pass with the rule changes nothing

A tree in which no call is rewritten is its own result (`amend_eq_self`), and in what a pass
gives no call is rewritten (`rewrittenCalls_amend`): below a call that was kept, what the rule
looks at is kept as well.  The class that `$this` refers to stays the same, since no call
stands in the name of a declaration, and so does the method name.  The object may change, but
an object in which a call was rewritten is longer than `$this`.
-/

namespace Amend.StaticCall

variable {options : Options} {queries : Queries} {outer outer' : List Ancestor} {n : Node}

/-! ### Trees without calls to rewrite -/

/-- Where there is no method call, none is rewritten. -/
theorem rewrittenCalls_of_callFree (h : CallFree n) :
  rewrittenCalls options queries outer n = []
  := by
  induction n using Node.below_induction generalizing outer with
  | below n ih =>
    obtain ⟨hkind, hchildren⟩ := callFree_iff.1 h
    rw [rewrittenCalls_of_none (if_neg hkind), List.flatMap_eq_nil_iff]
    intro c hc
    apply ih c hc (hchildren c hc)

/-- A tree without rewritten calls is amended to itself. -/
theorem amend_eq_self (h : rewrittenCalls options queries outer n = []) :
  amend options queries outer n = n
  := by
  induction n using Node.below_induction generalizing outer with
  | below n ih =>
    cases hrewritten : rewritten? options queries (receiverClass outer) n with
    | some p =>
      rw [rewrittenCalls_of_some hrewritten] at h
      cases h
    | none =>
      rw [rewrittenCalls_of_none hrewritten, List.flatMap_eq_nil_iff] at h
      have hchildren : n.children.map (amend options queries (.of n :: outer)) = n.children := by
        apply Eq.trans (List.map_congr_left fun c hc => ih c hc (h c hc))
        apply List.map_id
      rw [amend_of_none hrewritten, hchildren, Node.withChildren_children]

/-! ### What a pass keeps -/

/-- A node keeps its field. -/
theorem field_amend :
  (amend options queries outer n).field = n.field
  := by
  cases h : rewritten? options queries (receiverClass outer) n with
  | some p =>
    rw [amend_of_some h]
    rfl
  | none =>
    rw [amend_of_none h]
    cases n <;> rfl

/-- A node that is no rewritten call keeps its kind. -/
theorem kind_amend_of_none (h : rewritten? options queries (receiverClass outer) n = none) :
  (amend options queries outer n).kind = n.kind
  := by
  rw [amend_of_none h]
  cases n <;> rfl

/-- A rewritten call is a static one afterwards. -/
theorem kind_amend_of_some {p : Parts}
    (h : rewritten? options queries (receiverClass outer) n = some p) :
  (amend options queries outer n).kind = Php.scopedCall
  := by
  rw [amend_of_some h]
  rfl

/-- What stands below a node afterwards is new and without calls, or came from below the node. -/
theorem mem_children_amend {m : Node} (h : m ∈ (amend options queries outer n).children) :
  CallFree m ∨ ∃ c ∈ n.children, m = amend options queries (.of n :: outer) c
  := by
  cases hrewritten : rewritten? options queries (receiverClass outer) n with
  | some p =>
    rw [amend_of_some hrewritten, Node.inheritPosition, Node.children_withTag,
      Parts.toStatic_eq] at h
    rcases h with _ | ⟨_, _ | ⟨_, _ | ⟨_, _ | ⟨_, h⟩⟩⟩⟩
    · left
      apply Parts.callFree_scope
    · left
      apply Parts.callFree_operator
    · left
      apply Parts.callFree_method
    · right
      use p.arguments, arguments_mem_of_rewritten? hrewritten
    · cases h
  | none =>
    right
    rw [amend_of_none hrewritten, Node.children_withChildren_map] at h
    obtain ⟨c, hc, rfl⟩ := List.mem_map.1 h
    use c, hc

/-- The children of a node and what they become fill the same fields. -/
theorem childByField_withChildren_map {f : Node → Node} (hf : ∀ c, (f c).field = c.field)
    (field : String) :
  (n.withChildren (n.children.map f)).childByField field = (n.childByField field).map f
  := by
  have hfield : (·.field == some field) ∘ f = (·.field == some field) := by
    funext c
    rw [Function.comp_apply, hf c]
  cases n with
  | leaf tag text => rfl
  | branch tag children =>
    change (children.map f).find? _ = (children.find? _).map f
    rw [List.find?_map, hfield]

/-- A child that is found by its field is the amended one. -/
theorem childByField_amend_of_none (h : rewritten? options queries (receiverClass outer) n = none)
    (field : String) :
  (amend options queries outer n).childByField field
    = (n.childByField field).map (amend options queries (.of n :: outer))
  := by
  rw [amend_of_none h, childByField_withChildren_map fun _ => field_amend]

/-- A node in which a call was rewritten has a longer text than `$this`. -/
theorem six_le_length_text_amend (h : rewrittenCalls options queries outer n ≠ []) :
  6 ≤ (amend options queries outer n).text.length
  := by
  induction n using Node.below_induction generalizing outer with
  | below n ih =>
    cases hrewritten : rewritten? options queries (receiverClass outer) n with
    | some p =>
      have hself : "self::".length = 6 := rfl
      rw [amend_of_some hrewritten, Node.inheritPosition, Node.text_withTag, Parts.text_toStatic,
        String.length_append, String.length_append, hself]
      omega
    | none =>
      rw [rewrittenCalls_of_none hrewritten] at h
      obtain ⟨call, hcall⟩ := List.exists_mem_of_ne_nil _ h
      obtain ⟨c, hc, hcall⟩ := List.mem_flatMap.1 hcall
      apply Nat.le_trans (ih c hc (List.ne_nil_of_mem hcall))
      rw [amend_of_none hrewritten]
      cases n with
      | leaf tag text => cases hc
      | branch tag children =>
        apply Node.length_text_le_of_mem
        apply List.mem_map_of_mem hc

/-! ### What the rule looks at -/

/-- No call stands in a method name or in the name of a declaration. -/
structure PlainNames (tree : Node) : Prop where
  names : ∀ n ∈ tree.descendants, n.kind = Php.name → CallFree n
  owners : ∀ n ∈ tree.descendants, n.kind ∈ selfScopes → ∀ c ∈ n.childByField "name", CallFree c

/-- Plain names are tokens in the children too. -/
theorem PlainNames.of_mem_children {c : Node} (h : PlainNames n) (hc : c ∈ n.children) :
  PlainNames c
  := by
  constructor
  · intro m hm
    apply h.names m (Node.mem_descendants_of_mem_children hm hc)
  · intro m hm
    apply h.owners m (Node.mem_descendants_of_mem_children hm hc)

/-- A node that is like `$this` after a pass was so before. -/
theorem amend_eq_of_isVariable
    (h : (amend options queries outer n).isVariable Php.variableName "$this" = true) :
  amend options queries outer n = n
  := by
  apply amend_eq_self
  by_contra hcalls
  have hlength := six_le_length_text_amend hcalls
  have htext : (amend options queries outer n).text = "$this" := by
    rw [Node.isVariable, Bool.and_eq_true] at h
    apply beq_iff_eq.1 h.2
  rw [htext] at hlength
  revert hlength
  decide

/-- A name after a pass was that name before. -/
theorem amend_eq_of_kind_eq_name (hnames : PlainNames n)
    (h : (amend options queries outer n).kind = Php.name) :
  amend options queries outer n = n
  := by
  apply amend_eq_self
  apply rewrittenCalls_of_callFree
  apply hnames.names n n.self_mem_descendants
  cases hrewritten : rewritten? options queries (receiverClass outer) n with
  | some p =>
    have hne : Php.scopedCall ≠ Php.name := by decide
    rw [kind_amend_of_some hrewritten] at h
    cases hne h
  | none => rwa [kind_amend_of_none hrewritten] at h

/-- The name of a kept node in which no call stands. -/
theorem childByField_name_amend (h : rewritten? options queries (receiverClass outer) n = none)
    (hplain : ∀ c ∈ n.childByField "name", CallFree c) :
  (amend options queries outer n).childByField "name" = n.childByField "name"
  := by
  rw [childByField_amend_of_none h]
  cases hname : n.childByField "name" with
  | none => rfl
  | some name =>
    rw [Option.map_some, amend_eq_self (rewrittenCalls_of_callFree (hplain name hname))]

/-- What a kept node calls itself, when no call stands in its name. -/
theorem ownerName_amend (h : rewritten? options queries (receiverClass outer) n = none)
    (hplain : n.kind ∈ selfScopes → ∀ c ∈ n.childByField "name", CallFree c) :
  ownerName (.of (amend options queries outer n)) = ownerName (.of n)
  := by
  have hkind : (Ancestor.of (amend options queries outer n)).kind = (Ancestor.of n).kind :=
    kind_amend_of_none h
  have htag : (amend options queries outer n).tag = n.tag := by
    rw [amend_of_none h, Node.tag_withChildren]
  rw [ownerName, ownerName, hkind]
  split
  · rename_i howner
    change (amend options queries outer n).declaredName = n.declaredName
    rw [Node.declaredName, Node.declaredName, Node.recorded, Node.recorded,
      childByField_name_amend h (hplain howner), htag]
  · rfl

/-- A node and what it becomes are alike. -/
theorem alike_amend (hnames : PlainNames n) :
  Alike (.of (amend options queries outer n)) (.of n)
  := by
  cases h : rewritten? options queries (receiverClass outer) n with
  | some p =>
    rw [amend_of_some h]
    apply alike_toStatic (rewritten?_eq_some_iff.1 h).1
  | none =>
    have hkind : (Ancestor.of (amend options queries outer n)).kind = (Ancestor.of n).kind :=
      kind_amend_of_none h
    constructor
    · rw [hkind]
    · apply ownerName_amend h (hnames.owners n n.self_mem_descendants)

/-- Parts of a kept call that are those of a call on `$this` after a pass were so before. -/
theorem of?_of_of?_amend (hnames : PlainNames n)
    (h : rewritten? options queries (receiverClass outer) n = none) {q : Parts}
    (hq : Parts.of? (amend options queries outer n) = some q) (hthis : q.onThis = true) :
  ∃ p, Parts.of? n = some p ∧ p.object = q.object ∧ p.name = q.name
  := by
  obtain ⟨hobject, hname, harguments⟩ := of?_eq_some_iff.1 hq
  rw [childByField_amend_of_none h] at hobject hname harguments
  obtain ⟨object, hobject, hobject'⟩ := Option.map_eq_some_iff.1 hobject
  obtain ⟨name, hname, hname'⟩ := Option.map_eq_some_iff.1 hname
  obtain ⟨arguments, harguments, -⟩ := Option.map_eq_some_iff.1 harguments
  obtain ⟨hvariable, hplain, -⟩ := Parts.onThis_iff.1 hthis
  use ⟨object, name, arguments⟩, of?_eq_some_iff.2 ⟨hobject, hname, harguments⟩
  constructor
  · rw [← hobject'] at hvariable ⊢
    symm
    apply amend_eq_of_isVariable hvariable
  · rw [← hname'] at hplain ⊢
    symm
    apply amend_eq_of_kind_eq_name (hnames.of_mem_children (List.mem_of_find?_eq_some hname)) hplain

/-- A call after a pass is not one to rewrite: were it one, it would have been one before. -/
theorem rewritten?_amend (hnames : PlainNames n) :
  rewritten? options queries (receiverClass outer) (amend options queries outer n) = none
  := by
  cases h : rewritten? options queries (receiverClass outer) n with
  | some p =>
    rw [rewritten?, kind_amend_of_some h]
    rfl
  | none =>
    rw [Option.eq_none_iff_forall_ne_some]
    intro q hq
    obtain ⟨hkind, hparts, hthis, hstatic⟩ := rewritten?_eq_some_iff.1 hq
    obtain ⟨p, hp, hobject, hname⟩ := of?_of_of?_amend hnames h hparts hthis
    have hbefore : rewritten? options queries (receiverClass outer) n = some p := by
      apply rewritten?_eq_some_iff.2
      refine ⟨?_, hp, ?_, ?_⟩
      · rw [← hkind, kind_amend_of_none h]
      · rw [Parts.onThis_iff] at hthis ⊢
        rwa [hobject, hname]
      · rwa [hname]
    cases h.symm.trans hbefore

/-- In what a pass gives no call is rewritten. -/
theorem rewrittenCalls_amend (hnames : PlainNames n) (houter : List.Forall₂ Alike outer' outer) :
  rewrittenCalls options queries outer' (amend options queries outer n) = []
  := by
  induction n using Node.below_induction generalizing outer outer' with
  | below n ih =>
    have hnone : rewritten? options queries (receiverClass outer') (amend options queries outer n)
        = none := by
      rw [receiverClass_congr houter]
      apply rewritten?_amend hnames
    rw [rewrittenCalls_of_none hnone, List.flatMap_eq_nil_iff]
    intro m hm
    rcases mem_children_amend hm with hfree | ⟨c, hc, rfl⟩
    · apply rewrittenCalls_of_callFree hfree
    · apply ih c hc (hnames.of_mem_children hc) (.cons (alike_amend hnames) houter)

/-! ### Passes until nothing changes -/

variable {activity : Activity} {t t' : Trace}

/-- A pass over the tree changes nothing. -/
structure AddsNothing (options : Options) (queries : Queries) (activity : Activity) (tree : Node)
    (t : Trace) : Prop extends Adds options queries activity tree t where
  amend_eq : amend options queries [] tree = tree
  applications_eq : t.applications = []

/-- A pass over the result of a pass changes nothing. -/
theorem addsNothing_amend (hnames : PlainNames n)
    (h : Adds options queries activity (amend options queries [] n) t) :
  AddsNothing options queries activity (amend options queries [] n) t
  := by
  have hno : rewrittenCalls options queries [] (amend options queries [] n) = [] :=
    rewrittenCalls_amend hnames .nil
  constructor
  · apply h
  · apply amend_eq_self hno
  · rw [h.rewrites.applications, hno, List.map_nil]

/-- Up to so many passes, at least two: the first one is the last if it changes nothing, and
otherwise the second one is. -/
theorem applyAll?_converge {maxPasses : Nat} (hpasses : 2 ≤ maxPasses) {tree : Node}
    (h : Adds options queries activity tree t)
    (h' : AddsNothing options queries activity (amend options queries [] tree) t') :
  ∃ repeated,
    (dispatcher options (.converge maxPasses)).applyAll? queries tree activity = some repeated
    ∧ repeated.tree = amend options queries [] tree ∧ repeated.applications = t.applications
    ∧ repeated.passes ≤ 2
    ∧ repeated.log = t.log ++ if t.applications = [] then [] else t'.log
  := by
  let mode : PassMode := .converge maxPasses
  let start : Journal := { activity }
  have hlimit : (dispatcher options mode).mode.limit = maxPasses - 2 + 1 + 1 := by
    change max maxPasses 1 = _
    omega
  have hfirst := h.repeatPasses_succ mode (maxPasses - 2 + 1) 0 (j := start) rfl rfl
  have hsecond := h'.repeatPasses_succ mode (maxPasses - 2) 1 (j := start.extend t) rfl rfl
  rw [if_pos h'.applications_eq, h'.amend_eq] at hsecond
  rw [Dispatcher.applyAll?, hlimit, hfirst]
  by_cases hdone : t.applications = []
  · rw [if_pos hdone, if_pos hdone, List.append_nil]
    exact ⟨_, rfl, rfl, rfl, Nat.le_succ 1, rfl⟩
  · rw [if_neg hdone, if_neg (by omega), if_neg hdone, hsecond]
    refine ⟨_, rfl, rfl, ?_, Nat.le_refl 2, rfl⟩
    change t.applications ++ t'.applications = t.applications
    rw [h'.applications_eq, List.append_nil]

/-- A second pass changes nothing, and passes until nothing changes come to what a single pass
comes to: there are at most two of them, and they log nothing but what single passes log, which
are records of the index. -/
theorem applyAll?_twice (options : Options) (queries : Queries) (tree : Node) (activity : Activity)
    (hnames : PlainNames tree) :
  ∃ once again, (dispatcher options .single).applyAll? queries tree activity = some once
    ∧ (dispatcher options .single).applyAll? queries once.tree activity = some again
    ∧ again.tree = once.tree ∧ again.applications = []
    ∧ (∀ r ∈ once.log ++ again.log, IsIndexRecord queries r)
    ∧ ∀ maxPasses ≥ 2, ∃ repeated,
      (dispatcher options (.converge maxPasses)).applyAll? queries tree activity = some repeated
      ∧ repeated.tree = once.tree ∧ repeated.applications = once.applications
      ∧ repeated.passes ≤ 2
      ∧ repeated.log = once.log ++ if once.applications = [] then [] else again.log
  := by
  obtain ⟨t, h⟩ := exists_adds options queries activity tree
  obtain ⟨t', hsecond⟩ := exists_adds options queries activity (amend options queries [] tree)
  have h' := addsNothing_amend hnames hsecond
  refine ⟨_, _, h.applyAll?_single, h'.applyAll?_single, h'.amend_eq, h'.applications_eq, ?_, ?_⟩
  · apply (h.rewrites.append h'.rewrites).log
  · intro maxPasses hpasses
    apply applyAll?_converge hpasses h h'

/-- The call `$this->method(arguments)`. -/
def thisCall (method : String) (arguments : List Node) : Node :=
  .inner Php.memberCall
    [thisObject, .token Php.memberAccess "->", (Node.token Php.name method).withField "name",
      argumentList arguments]

/-- A class `A` with the call `$this->eat($this->cook())` in its body. -/
def nestedCalls : Node :=
  .inner Php.classDeclaration
    [(Node.token Php.name "A").withField "name",
      .inner Php.declarationList [thisCall "eat" [thisCall "cook" []]]]

/-- A call in the arguments of another one. -/
theorem applyAll?_twice_nestedCalls :
  PlainNames nestedCalls
  ∧ ∃ once again, (dispatcher {} .single).applyAll? allStatic nestedCalls .idle = some once
    ∧ (dispatcher {} .single).applyAll? allStatic once.tree .idle = some again
    ∧ again.tree = once.tree ∧ again.applications = []
    ∧ (∀ r ∈ once.log ++ again.log, IsIndexRecord allStatic r)
    ∧ ∀ maxPasses ≥ 2, ∃ repeated,
      (dispatcher {} (.converge maxPasses)).applyAll? allStatic nestedCalls .idle = some repeated
      ∧ repeated.tree = once.tree ∧ repeated.applications = once.applications
      ∧ repeated.passes ≤ 2
      ∧ repeated.log = once.log ++ if once.applications = [] then [] else again.log
  := by
  have hnames : PlainNames nestedCalls := by
    constructor
    · simp only [CallFree, Node.descendants_eq_preorder]
      decide
    · simp only [CallFree, Node.descendants_eq_preorder]
      decide
  exact ⟨hnames, applyAll?_twice _ _ _ _ hnames⟩

end Amend.StaticCall
