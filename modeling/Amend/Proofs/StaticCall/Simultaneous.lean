import Amend.Proofs.Passes
import Amend.Proofs.StaticCall.Decision

/-!
# A pass with the rule rewrites all calls at once

`amend` rewrites the calls of a tree, each as it is decided in the tree that is given, by
recursion over that tree, and `rewrittenCalls` lists the calls that it rewrites.  A pass with
the rule alone gives the same tree and one change for each of these calls (`exists_adds`),
although it decides on a call inside a rewritten one only after the outer one was rewritten.
-/

namespace Amend.StaticCall

/-- The registry of the rule and no other. -/
def alone (options : Options) : Registry := .ofList [rule options]

/-- The dispatcher of the rule and no other. -/
def dispatcher (options : Options) (mode : PassMode) : Dispatcher where
  registry := alone options
  mode := mode

/-- The change of a call, as it is noted. -/
def rewriting : Application := ⟨ruleName, Php.memberCall, false⟩

variable (options : Options) (queries : Queries)

/-! ### The rule as the only rule -/

/-- The rule is asked about method calls only. -/
theorem rulesFor_alone (k : Kind) :
  (alone options).rulesFor k = if k = Php.memberCall then [rule options] else []
  := by
  have hpositions : (alone options).positions = [(Php.memberCall, [0])] := rfl
  have hrules : (alone options).rules = [rule options] := rfl
  rw [Registry.rulesFor, hpositions, hrules]
  split
  · simp [*]
  · rw [List.lookup_cons, beq_false_of_ne ‹_›]
    rfl

/-- What is wanted of a node is that a rewritten call becomes a static one. -/
theorem wanted_alone (outer : List Ancestor) (n : Node) :
  (alone options).wanted ⟨outer, queries⟩ n
    = (rewritten? options queries (receiverClass outer) n).map fun p =>
        (ruleName, .replace (p.toStatic n))
  := by
  rw [Registry.wanted, rulesFor_alone, rewritten?]
  split
  · have hvalue : ((rule options).evaluate n ⟨outer, queries⟩).value = _ :=
      evaluate_value options queries n outer
    rw [Rule.wanted]
    cases haccepted : accepted? options queries (receiverClass outer) n with
    | none =>
      rw [haccepted] at hvalue
      simp [hvalue, Verdict.isChange]
    | some p =>
      rw [haccepted] at hvalue
      simp [hvalue, Verdict.isChange]
      rfl
  · rfl

/-- Asking the rule logs what the index logs. -/
theorem isIndexRecord_of_asking {outer : List Ancestor} {activity : Activity} {n : Node}
    {r : LogRecord} (h : r ∈ ((alone options).asking activity ⟨outer, queries⟩ n).log) :
  IsIndexRecord queries r
  := by
  rw [Registry.asking, rulesFor_alone] at h
  obtain ⟨asked, hasked, hr⟩ := List.mem_flatMap.1 h
  split at hasked
  · rw [List.mem_singleton.1 (Rule.mem_of_mem_asked hasked)] at hr
    apply isIndexRecord_of_evaluate hr
  · cases hasked

/-! ### All calls at once -/

variable {options queries} in
/-- The arguments of a rewritten call are one of its children. -/
theorem arguments_mem_of_rewritten? {receiver : Option String} {n : Node} {p : Parts}
    (h : rewritten? options queries receiver n = some p) :
  p.arguments ∈ n.children
  := by
  have hparts := (rewritten?_eq_some_iff.1 h).2.1
  apply List.mem_of_find?_eq_some (of?_eq_some_iff.1 hparts).2.2

/-- The node with all its calls rewritten that are to be rewritten in this node, inside the nodes
`outer`.  A rewritten call keeps its arguments, with their calls rewritten. -/
def amend (outer : List Ancestor) (n : Node) : Node :=
  match _h : rewritten? options queries (receiverClass outer) n with
  | some p =>
    (Parts.toStatic { p with arguments := amend (.of n :: outer) p.arguments } n).inheritPosition n
  | none => n.withChildren (n.children.attach.map fun c => amend (.of n :: outer) c.1)
termination_by n.size
decreasing_by
  · apply Node.size_lt_of_mem_children (arguments_mem_of_rewritten? _h)
  · apply Node.size_lt_of_mem_children c.2

/-- The calls that are rewritten, as they stand in the node, each before those in its arguments. -/
def rewrittenCalls (outer : List Ancestor) (n : Node) : List Node :=
  match _h : rewritten? options queries (receiverClass outer) n with
  | some p => n :: rewrittenCalls (.of n :: outer) p.arguments
  | none => n.children.attach.flatMap fun c => rewrittenCalls (.of n :: outer) c.1
termination_by n.size
decreasing_by
  · apply Node.size_lt_of_mem_children (arguments_mem_of_rewritten? _h)
  · apply Node.size_lt_of_mem_children c.2

section Equations

variable {options queries} {outer : List Ancestor} {n : Node}

/-- A rewritten call becomes a static one, with its arguments amended. -/
theorem amend_of_some {p : Parts}
    (h : rewritten? options queries (receiverClass outer) n = some p) :
  amend options queries outer n
    = (Parts.toStatic
        { p with arguments := amend options queries (.of n :: outer) p.arguments }
        n).inheritPosition n
  := by
  rw [amend]
  split
  · rename_i h'
    cases h.symm.trans h'
    rfl
  · rename_i h'
    cases h.symm.trans h'

/-- Any other node has its children amended. -/
theorem amend_of_none (h : rewritten? options queries (receiverClass outer) n = none) :
  amend options queries outer n
    = n.withChildren (n.children.map (amend options queries (.of n :: outer)))
  := by
  rw [amend]
  split
  · rename_i h'
    cases h.symm.trans h'
  · rw [List.attach_map_val]

/-- A token is no rewritten call. -/
theorem rewritten?_leaf (receiver : Option String) (tag : Tag) (text : String) :
  rewritten? options queries receiver (.leaf tag text) = none
  := by
  rw [rewritten?]
  split <;> rfl

theorem amend_leaf (tag : Tag) (text : String) :
  amend options queries outer (.leaf tag text) = .leaf tag text
  := amend_of_none (rewritten?_leaf _ tag text)

/-- A rewritten call comes before those in its arguments. -/
theorem rewrittenCalls_of_some {p : Parts}
    (h : rewritten? options queries (receiverClass outer) n = some p) :
  rewrittenCalls options queries outer n
    = n :: rewrittenCalls options queries (.of n :: outer) p.arguments
  := by
  rw [rewrittenCalls]
  split
  · rename_i h'
    cases h.symm.trans h'
    rfl
  · rename_i h'
    cases h.symm.trans h'

/-- Any other node has the rewritten calls of its children. -/
theorem rewrittenCalls_of_none (h : rewritten? options queries (receiverClass outer) n = none) :
  rewrittenCalls options queries outer n
    = n.children.flatMap (rewrittenCalls options queries (.of n :: outer))
  := by
  rw [rewrittenCalls]
  split
  · rename_i h'
    cases h.symm.trans h'
  · simp

end Equations

/-! ### A pass with the rule -/

/-- A trace that notes the rewriting of some calls, and no records but those of the index. -/
structure Rewrites (queries : Queries) (calls : List Node) (t : Trace) : Prop where
  applications : t.applications = calls.map fun _ => rewriting
  log : ∀ r ∈ t.log, IsIndexRecord queries r

namespace Rewrites

variable {queries} {calls calls' : List Node} {t t' : Trace}

/-- Nothing is rewritten at the beginning. -/
theorem empty :
  Rewrites queries [] {}
  := ⟨rfl, fun _ h => nomatch h⟩

/-- Calls that are rewritten one after the other. -/
theorem append (h : Rewrites queries calls t) (h' : Rewrites queries calls' t') :
  Rewrites queries (calls ++ calls') (t ++ t')
  := by
  constructor
  · rw [Trace.applications_append, h.applications, h'.applications, List.map_append]
  · intro r hr
    rcases List.mem_append.1 hr with hr | hr
    · apply h.log r hr
    · apply h'.log r hr

/-- Asking the rule rewrites nothing. -/
theorem asking {options : Options} {activity : Activity} {outer : List Ancestor} {n : Node} :
  Rewrites queries [] ((alone options).asking activity ⟨outer, queries⟩ n)
  := ⟨rfl, fun _ hr => isIndexRecord_of_asking options queries hr⟩

/-- The change of a method call. -/
theorem change {n : Node} (h : n.kind = Php.memberCall) :
  Rewrites queries [n] (.change ruleName n false)
  := by
  constructor
  · rw [Trace.change, h]
    rfl
  · intro r hr
    cases hr

end Rewrites

/-- No node of the tree is a method call. -/
def CallFree (n : Node) : Prop := ∀ m ∈ n.descendants, m.kind ≠ Php.memberCall

/-- There is no method call in a node that is none and has none in its children. -/
theorem callFree_iff {n : Node} :
  CallFree n ↔ n.kind ≠ Php.memberCall ∧ ∀ c ∈ n.children, CallFree c
  := by
  constructor
  · intro h
    constructor
    · apply h n n.self_mem_descendants
    · intro c hc m hm
      apply h m (Node.mem_descendants_of_mem_children hm hc)
  · rintro ⟨hn, hchildren⟩ m hm
    rcases Node.mem_descendants.1 hm with rfl | ⟨c, hc, hm⟩
    · exact hn
    · apply hchildren c hc m hm

theorem callFree_of_children_eq_nil {n : Node} (hkind : n.kind ≠ Php.memberCall)
    (h : n.children = []) :
  CallFree n
  := by
  apply callFree_iff.2
  rw [h]
  exact ⟨hkind, fun c hc => nomatch hc⟩

/-- There is no method call in the scope of a static call. -/
theorem Parts.callFree_scope (p : Parts) :
  CallFree p.scope
  := by
  apply callFree_iff.2
  constructor
  · rw [p.kind_scope]
    decide
  · intro c hc
    rw [List.mem_singleton.1 hc]
    apply callFree_of_children_eq_nil (by decide) rfl

/-- There is no method call in its operator. -/
theorem Parts.callFree_operator (p : Parts) (call : Node) :
  CallFree (p.operator call)
  := by
  apply callFree_of_children_eq_nil _ rfl
  rw [p.kind_operator]
  decide

/-- There is no method call in its method name. -/
theorem Parts.callFree_method (p : Parts) :
  CallFree p.method
  := by
  apply callFree_of_children_eq_nil _ rfl
  rw [p.kind_method]
  decide

variable {options queries}

/-- Inside nodes like `outer`, showing a node leaves one node and rewrites some calls; what is
added to the journal depends on the nodes around and on what is in hand only. -/
def ShowsAs (options : Options) (queries : Queries) (levels : Nat) (outer : List Ancestor)
    (n left : Node) (calls : List Node) : Prop :=
  ∀ ancestors activity, List.Forall₂ Alike ancestors outer →
    ∃ t, Rewrites queries calls t
      ∧ ∀ j : Journal, j.ancestors = ancestors → j.activity = activity →
        Pass.showNode (alone options) queries (Pass.walkBelow (alone options) queries levels) n j
          = some ([left], j.extend t)

/-- Inside nodes like `outer`, showing siblings leaves as many nodes and rewrites some calls. -/
def ShowsAllAs (options : Options) (queries : Queries) (levels : Nat) (outer : List Ancestor)
    (ns left : List Node) (calls : List Node) : Prop :=
  ∀ ancestors activity, List.Forall₂ Alike ancestors outer →
    ∃ t, Rewrites queries calls t
      ∧ ∀ j : Journal, j.ancestors = ancestors → j.activity = activity →
        Pass.showAll (alone options) queries (Pass.walkBelow (alone options) queries levels) ns j
          = some (left, j.extend t)

variable {levels : Nat} {outer : List Ancestor} {n left : Node} {ns lefts calls calls' : List Node}

/-- No siblings are shown as none. -/
theorem ShowsAllAs.nil :
  ShowsAllAs options queries levels outer [] [] []
  := by
  intro ancestors activity _
  use {}, .empty
  intro j _ _
  rw [Pass.showAll, Journal.extend_empty]

/-- Siblings are shown one after the other. -/
theorem ShowsAllAs.cons (first : ShowsAs options queries levels outer n left calls)
    (others : ShowsAllAs options queries levels outer ns lefts calls') :
  ShowsAllAs options queries levels outer (n :: ns) (left :: lefts) (calls ++ calls')
  := by
  intro ancestors activity houter
  obtain ⟨s, hcalls, hs⟩ := first ancestors activity houter
  obtain ⟨t, hcalls', ht⟩ := others ancestors activity houter
  use s ++ t, hcalls.append hcalls'
  intro j hancestors hactivity
  rw [Pass.showAll, hs j hancestors hactivity, Option.bind_some,
    ht (j.extend s) hancestors hactivity]
  simp

/-- Showing siblings puts together what showing each of them leaves. -/
theorem ShowsAllAs.map {left : Node → Node} {calls : Node → List Node}
    (h : ∀ n ∈ ns, ShowsAs options queries levels outer n (left n) (calls n)) :
  ShowsAllAs options queries levels outer ns (ns.map left) (ns.flatMap calls)
  := by
  induction ns with
  | nil => apply ShowsAllAs.nil
  | cons n ns ih =>
    rw [List.forall_mem_cons] at h
    rw [List.map_cons, List.flatMap_cons]
    apply ShowsAllAs.cons h.1 (ih h.2)

/-- A node that is kept is shown as the node with its children shown. -/
theorem showsAs_of_none (h : rewritten? options queries (receiverClass outer) n = none)
    (hbelow : ShowsAllAs options queries levels (.of n :: outer) n.children lefts calls) :
  ShowsAs options queries (levels + 1) outer n (n.withChildren lefts) calls
  := by
  intro ancestors activity houter
  have hwanted : (alone options).wanted ⟨ancestors, queries⟩ n = none := by
    rw [wanted_alone, receiverClass_congr houter, h]
    rfl
  have hasked : Rewrites queries [] ((alone options).asking activity ⟨ancestors, queries⟩ n) :=
    .asking
  obtain ⟨t, hcalls, ht⟩ := hbelow (.of n :: ancestors) activity (.cons (.refl _) houter)
  use (alone options).asking activity ⟨ancestors, queries⟩ n ++ t, hasked.append hcalls
  rintro j rfl rfl
  rw [Pass.showNode_of_none hwanted, Pass.walkBelow_succ, ht ((j.extend _).enter n) rfl rfl]
  simp [Journal.leave_extend_enter]

/-- A node without method calls is shown as itself. -/
theorem showsAs_of_callFree (hlevels : n.height ≤ levels) (h : CallFree n) :
  ShowsAs options queries levels outer n n []
  := by
  induction n using Node.below_induction generalizing levels outer with
  | below n ih =>
    have hheight := n.one_le_height
    obtain ⟨levels, rfl⟩ : ∃ l, levels = l + 1 := ⟨levels - 1, by omega⟩
    obtain ⟨hkind, hchildren⟩ := callFree_iff.1 h
    have hnone : rewritten? options queries (receiverClass outer) n = none := if_neg hkind
    have hbelow : ShowsAllAs options queries levels (.of n :: outer) n.children
        (n.children.map id) (n.children.flatMap fun _ => []) := by
      apply ShowsAllAs.map
      intro c hc
      have := Node.height_lt_of_mem_children hc
      apply ih c hc (by omega) (hchildren c hc)
    have hcalls : (n.children.flatMap fun _ => ([] : List Node)) = [] := by simp
    have hshows := showsAs_of_none hnone hbelow
    rwa [List.map_id, Node.withChildren_children, hcalls] at hshows

/-- The new tokens of a static call are shown as they are, and its arguments as `left`. -/
theorem showsAllAs_toStatic {p : Parts} (hlevels : 2 ≤ levels)
    (harguments : ShowsAs options queries levels outer p.arguments left calls) :
  ShowsAllAs options queries levels outer (p.toStatic n).children
    (Parts.toStatic { p with arguments := left } n).children calls
  := by
  have hscope : p.scope.height ≤ levels := hlevels
  have hoperator : (p.operator n).height ≤ levels := Nat.le_of_succ_le hlevels
  have hmethod : p.method.height ≤ levels := Nat.le_of_succ_le hlevels
  have h := ShowsAllAs.cons (showsAs_of_callFree hscope p.callFree_scope)
    (.cons (showsAs_of_callFree hoperator (p.callFree_operator n))
      (.cons (showsAs_of_callFree hmethod p.callFree_method) (.cons harguments .nil)))
  rwa [List.append_nil] at h

/-- A call that is rewritten is shown as the static call with its arguments shown.  These are shown
inside the static call and not inside the call itself, but the two are alike. -/
theorem showsAs_of_some {p : Parts} (hlevels : 2 ≤ levels)
    (h : rewritten? options queries (receiverClass outer) n = some p)
    (harguments : ShowsAs options queries levels (.of n :: outer) p.arguments left calls) :
  ShowsAs options queries (levels + 1) outer n
    ((Parts.toStatic { p with arguments := left } n).inheritPosition n) (n :: calls)
  := by
  intro ancestors activity houter
  have hkind := (rewritten?_eq_some_iff.1 h).1
  have hwanted : (alone options).wanted ⟨ancestors, queries⟩ n
      = some (ruleName, .replace (p.toStatic n)) := by
    rw [wanted_alone, receiverClass_congr houter, h]
    rfl
  have hasked : Rewrites queries [n]
      ((alone options).asking activity ⟨ancestors, queries⟩ n ++ .change ruleName n false) :=
    Rewrites.asking.append (.change hkind)
  let placed : Node := (p.toStatic n).inheritPosition n
  obtain ⟨t, hcalls, ht⟩ := showsAllAs_toStatic (n := n) hlevels harguments
    (.of placed :: ancestors) activity (.cons (alike_toStatic hkind p) houter)
  use (alone options).asking activity ⟨ancestors, queries⟩ n ++ .change ruleName n false ++ t,
    hasked.append hcalls
  rintro j rfl rfl
  have hchildren : placed.children = (p.toStatic n).children := Node.children_withTag _ _
  rw [Pass.showNode_of_replace hwanted, Pass.walkBelow_succ, hchildren,
    ht ((j.extend _).enter placed) rfl rfl, Option.map_some, Option.map_some,
    Journal.leave_extend_enter, Journal.extend_extend]
  rfl

/-- Showing a node rewrites the calls that are decided in the node as it is given. -/
theorem showsAs_amend (hlevels : n.height < levels) :
  ShowsAs options queries levels outer n (amend options queries outer n)
    (rewrittenCalls options queries outer n)
  := by
  induction n using Node.below_induction generalizing levels outer with
  | below n ih =>
    obtain ⟨levels, rfl⟩ : ∃ l, levels = l + 1 := ⟨levels - 1, by omega⟩
    have hchild {c : Node} (hc : c ∈ n.children) :
        ShowsAs options queries levels (.of n :: outer) c (amend options queries (.of n :: outer) c)
          (rewrittenCalls options queries (.of n :: outer) c) := by
      have := Node.height_lt_of_mem_children hc
      apply ih c hc (by omega)
    cases h : rewritten? options queries (receiverClass outer) n with
    | some p =>
      have harguments := arguments_mem_of_rewritten? h
      have hheight := Node.height_lt_of_mem_children harguments
      have hone := p.arguments.one_le_height
      rw [amend_of_some h, rewrittenCalls_of_some h]
      apply showsAs_of_some (by omega) h (hchild harguments)
    | none =>
      rw [amend_of_none h, rewrittenCalls_of_none h]
      apply showsAs_of_none h
      apply ShowsAllAs.map
      intro c hc
      apply hchild hc

/-- A pass with the rule alone, begun with `activity` in hand, gives the tree with all its calls
rewritten at once, and adds `t` to the journal: a change for each of these calls. -/
structure Adds (options : Options) (queries : Queries) (activity : Activity) (tree : Node)
    (t : Trace) : Prop where
  rewrites : Rewrites queries (rewrittenCalls options queries [] tree) t
  run_eq : ∀ j : Journal, j.ancestors = [] → j.activity = activity →
    Pass.run (alone options) queries (tree.height + (dispatcher options .single).spareLevels) tree j
      = some (amend options queries [] tree, j.extend t)

/-- A pass with the rule over any tree ends, and gives the amended tree. -/
theorem exists_adds (options : Options) (queries : Queries) (activity : Activity) (tree : Node) :
  ∃ t, Adds options queries activity tree t
  := by
  let levels := tree.height + (dispatcher options .single).spareLevels
  have hspare : (dispatcher options .single).spareLevels = 1000000 := rfl
  have hlevels : tree.height < levels := by omega
  have hshows : ShowsAs options queries levels [] tree (amend options queries [] tree)
      (rewrittenCalls options queries [] tree) := showsAs_amend hlevels
  obtain ⟨t, hcalls, ht⟩ := hshows [] activity .nil
  use t, hcalls
  intro j hancestors hactivity
  rw [Pass.run_eq, ht j hancestors hactivity]
  rfl

section Passes

variable {activity : Activity} {tree : Node} {t : Trace}

/-- How many passes there are makes no difference to a pass. -/
theorem Adds.makes (h : Adds options queries activity tree t) (mode : PassMode) :
  (dispatcher options mode).Makes queries activity tree (amend options queries [] tree) t
  := h.run_eq

/-- One of the passes over a tree: the last one when it changes nothing. -/
theorem Adds.repeatPasses_succ (h : Adds options queries activity tree t) (mode : PassMode)
    (left passes : Nat) {j : Journal} (hancestors : j.ancestors = [])
    (hactivity : j.activity = activity) :
  (dispatcher options mode).repeatPasses queries (left + 1) passes tree j
    = if t.applications = [] then
        some (passes + 1, amend options queries [] tree, j.extend t)
      else if left = 0 ∧ mode.repeats then
        some (passes + 1, amend options queries [] tree,
          { j.extend t with
            log := (j.extend t).log
              ++ [Dispatcher.nonConvergence mode.limit t.applications.length] })
      else
        (dispatcher options mode).repeatPasses queries left (passes + 1)
          (amend options queries [] tree) (j.extend t)
  := by
  rw [(h.makes mode).repeatPasses_succ left passes hancestors hactivity]
  simp only [Journal.extend, Trace.applications_append, Trace.inquiries_append, Trace.log_append,
    List.append_nil, List.append_assoc]
  rfl

/-- What a single pass over a tree comes to. -/
theorem Adds.applyAll?_single (h : Adds options queries activity tree t) :
  (dispatcher options .single).applyAll? queries tree activity
    = some ⟨amend options queries [] tree, 1, t.applications, t.inquiries, t.log, activity⟩
  := (h.makes .single).once_eq

end Passes

end Amend.StaticCall
