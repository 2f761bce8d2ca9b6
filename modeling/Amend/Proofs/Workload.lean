import Amend.Proofs.Registration
import Amend.Proofs.StaticCall.Simultaneous

/-!
# Passes that end

A pass goes down into the replacements that rules ask for, which may be larger than what they
replace.  It ends nevertheless when the rules shed work: when below a replacement fewer nodes of
registered kinds stand than in the tree that it replaces.  Then rules are asked about no more nodes
than the tree has of registered kinds, and there are no more changes than that
(`Pass.run_ends_of_shedsWork`).
-/

namespace Amend

/-- Whether one of the rules is registered for a kind. -/
def isRegistered (rules : List Rule) (kind : Kind) : Bool := rules.any (kind ∈ ·.kinds)

/-- The number of nodes of registered kinds in a tree. -/
def workload (rules : List Rule) (n : Node) : Nat :=
  n.descendants.countP fun m => isRegistered rules m.kind

/-- The number of nodes of registered kinds in several trees. -/
def workloadAll (rules : List Rule) (ns : List Node) : Nat :=
  (ns.flatMap Node.descendants).countP fun m => isRegistered rules m.kind

/-- Below every replacement that a rule asks for there are fewer nodes of registered kinds than in
the tree that it is to replace. -/
def ShedsWork (rules : List Rule) (queries : Queries) : Prop :=
  ∀ rule ∈ rules, ∀ n outer new, n.kind ∈ rule.kinds →
    (rule.evaluate n ⟨outer, queries⟩).value = .replace new →
      workloadAll rules new.children < workload rules n

variable {rules : List Rule} {queries : Queries} {activity : Activity} {outer : List Ancestor}
  {n c : Node} {ns : List Node}

/-! ### Counting nodes of registered kinds -/

/-- The workload of a tree is that of the children, and one more if rules are registered for the
node. -/
theorem workload_eq (rules : List Rule) (n : Node) :
  workload rules n
    = workloadAll rules n.children + if isRegistered rules n.kind then 1 else 0
  := by
  rw [workload, Node.descendants_eq, List.countP_cons]
  rfl

theorem workloadAll_nil (rules : List Rule) :
  workloadAll rules [] = 0
  := rfl

theorem workloadAll_cons (rules : List Rule) (n : Node) (ns : List Node) :
  workloadAll rules (n :: ns) = workload rules n + workloadAll rules ns
  := by
  rw [workloadAll, List.flatMap_cons, List.countP_append]
  rfl

theorem workloadAll_append (rules : List Rule) (ns ms : List Node) :
  workloadAll rules (ns ++ ms) = workloadAll rules ns + workloadAll rules ms
  := by
  rw [workloadAll, List.flatMap_append, List.countP_append]
  rfl

/-- One of some trees has no more workload than all. -/
theorem workload_le_workloadAll_of_mem (h : c ∈ ns) :
  workload rules c ≤ workloadAll rules ns
  := by
  obtain ⟨before, after, rfl⟩ := List.append_of_mem h
  rw [workloadAll_append, workloadAll_cons]
  omega

/-- The children of a node have no more workload than the node. -/
theorem workloadAll_children_le (rules : List Rule) (n : Node) :
  workloadAll rules n.children ≤ workload rules n
  := by
  rw [workload_eq]
  apply Nat.le_add_right

/-- No rule is asked about a node of a kind that none is registered for. -/
theorem rulesFor_eq_nil (h : ¬ isRegistered rules n.kind = true) :
  (Registry.ofList rules).rulesFor n.kind = []
  := by
  rw [Registry.rulesFor_ofList, List.filter_eq_nil_iff]
  rw [isRegistered, List.any_eq_true] at h
  intro rule hrule hkind
  apply h ⟨rule, hrule, hkind⟩

/-- What a pass is to do about a node is wanted by a rule that is registered for its kind. -/
theorem exists_rule_of_wanted {name : String} {verdict : Verdict}
    (h : (Registry.ofList rules).wanted ⟨outer, queries⟩ n = some (name, verdict)) :
  ∃ rule ∈ rules, n.kind ∈ rule.kinds ∧ (rule.evaluate n ⟨outer, queries⟩).value = verdict
  := by
  obtain ⟨rule, hrule, hrequest⟩ := Option.map_eq_some_iff.1 h
  have hmem := List.mem_of_find?_eq_some hrule
  rw [Registry.rulesFor_ofList] at hmem
  obtain ⟨hmem, hkind⟩ := List.mem_filter.1 hmem
  exact ⟨rule, hmem, of_decide_eq_true hkind, (Prod.mk.inj hrequest).2⟩

/-- A change is wanted only of nodes that rules are registered for. -/
theorem isRegistered_of_wanted {name : String} {verdict : Verdict}
    (h : (Registry.ofList rules).wanted ⟨outer, queries⟩ n = some (name, verdict)) :
  isRegistered rules n.kind = true
  := by
  obtain ⟨rule, hrule, hkind, -⟩ := exists_rule_of_wanted h
  rw [isRegistered, List.any_eq_true]
  exact ⟨rule, hrule, decide_eq_true hkind⟩

/-! ### The nodes that rules are asked about -/

/-- The questions about a node, inside the nodes around it. -/
def questions (rules : List Rule) (queries : Queries) (activity : Activity)
    (a : List Ancestor × Node) : List Inquiry :=
  ((Registry.ofList rules).asking activity ⟨a.1, queries⟩ a.2).inquiries

/-- `AsksAbout rules queries activity asked t`: the questions in the trace are those about the
nodes `asked`, each inside the nodes around it, with at least one question about each; and there
are no more changes than these nodes. -/
structure AsksAbout (rules : List Rule) (queries : Queries) (activity : Activity)
    (asked : List (List Ancestor × Node)) (t : Trace) : Prop where
  inquiries : t.inquiries = asked.flatMap (questions rules queries activity)
  questions_ne_nil : ∀ a ∈ asked, questions rules queries activity a ≠ []
  changes : t.applications.length ≤ asked.length

namespace AsksAbout

variable {asked asked' : List (List Ancestor × Node)} {t t' : Trace}

/-- Nothing has been asked at the beginning. -/
theorem empty :
  AsksAbout rules queries activity [] {}
  := ⟨rfl, List.forall_mem_nil _, Nat.le_refl 0⟩

/-- Questions about some nodes and then about others are about all of them. -/
theorem append (h : AsksAbout rules queries activity asked t)
    (h' : AsksAbout rules queries activity asked' t') :
  AsksAbout rules queries activity (asked ++ asked') (t ++ t')
  := by
  constructor
  · rw [Trace.inquiries_append, h.inquiries, h'.inquiries, List.flatMap_append]
  · rw [List.forall_mem_append]
    exact ⟨h.questions_ne_nil, h'.questions_ne_nil⟩
  · rw [Trace.applications_append, List.length_append, List.length_append]
    apply Nat.add_le_add h.changes h'.changes

/-- There is a question about every node that rules are registered for. -/
theorem questions_ne_nil_of_isRegistered (h : isRegistered rules n.kind = true) :
  questions rules queries activity (outer, n) ≠ []
  := by
  rw [isRegistered, List.any_eq_true] at h
  obtain ⟨rule, hrule, hkind⟩ := h
  have hmem : rule ∈ (Registry.ofList rules).rulesFor n.kind := by
    rw [Registry.rulesFor_ofList]
    apply List.mem_filter.2 ⟨hrule, hkind⟩
  have hasked : Rule.asked n ⟨outer, queries⟩ ((Registry.ofList rules).rulesFor n.kind) ≠ [] := by
    cases hrules : (Registry.ofList rules).rulesFor n.kind with
    | nil =>
      rw [hrules] at hmem
      cases hmem
    | cons first others =>
      rw [Rule.asked]
      split <;> apply List.cons_ne_nil
  apply mt List.map_eq_nil_iff.1 hasked

/-- Asking the rules about a node, and a change of the node if there is one. -/
theorem asking (happlied : t.applications.length ≤ if isRegistered rules n.kind then 1 else 0)
    (hinquiries : t.inquiries = []) :
  AsksAbout rules queries activity (if isRegistered rules n.kind then [(outer, n)] else [])
    ((Registry.ofList rules).asking activity ⟨outer, queries⟩ n ++ t)
  := by
  by_cases h : isRegistered rules n.kind = true
  · rw [if_pos h] at happlied ⊢
    constructor
    · rw [Trace.inquiries_append, hinquiries, List.append_nil, List.flatMap_singleton]
      rfl
    · rw [List.forall_mem_singleton]
      apply questions_ne_nil_of_isRegistered h
    · exact happlied
  · rw [if_neg h] at happlied ⊢
    constructor
    · rw [Trace.inquiries_append, hinquiries, Registry.asking, rulesFor_eq_nil h]
      rfl
    · apply List.forall_mem_nil
    · exact happlied

/-- The first question about a node tells which node it is about. -/
theorem exists_first {a : List Ancestor × Node} (h : questions rules queries activity a ≠ []) :
  ∃ q others, questions rules queries activity a = q :: others ∧ (q.ancestors, q.node) = a
  := by
  obtain ⟨q, others, hq⟩ := List.exists_cons_of_ne_nil h
  use q, others, hq
  have hmem : q ∈ questions rules queries activity a := by
    rw [hq]
    apply List.mem_cons_self
  obtain ⟨rule, -, rfl⟩ := List.mem_map.1 hmem
  rfl

/-- The questions tell which nodes rules were asked about, and in which order: the first question is
about the first of these nodes. -/
theorem unique (h : AsksAbout rules queries activity asked t)
    (h' : AsksAbout rules queries activity asked' t) :
  asked' = asked
  := by
  have hsame := h'.inquiries.symm.trans h.inquiries
  have hne := h.questions_ne_nil
  have hne' := h'.questions_ne_nil
  clear h h'
  induction asked generalizing asked' with
  | nil =>
    cases asked' with
    | nil => rfl
    | cons a' asked' =>
      rw [List.flatMap_cons, List.flatMap_nil, List.append_eq_nil_iff] at hsame
      cases hne' a' List.mem_cons_self hsame.1
  | cons a asked ih =>
    rw [List.forall_mem_cons] at hne
    cases asked' with
    | nil =>
      rw [List.flatMap_cons, List.flatMap_nil, eq_comm, List.append_eq_nil_iff] at hsame
      cases hne.1 hsame.1
    | cons a' asked' =>
      rw [List.forall_mem_cons] at hne'
      rw [List.flatMap_cons, List.flatMap_cons] at hsame
      obtain ⟨q, others, hq, hqa⟩ := exists_first hne.1
      obtain ⟨q', others', hq', hqa'⟩ := exists_first hne'.1
      have hfirst : q' = q := by
        rw [hq, hq'] at hsame
        apply (List.cons.inj hsame).1
      obtain rfl : a' = a := by rw [← hqa, ← hqa', hfirst]
      rw [ih (List.append_cancel_left hsame) hne.2 hne'.2]

end AsksAbout

/-! ### Showing nodes comes to an end -/

/-- Showing the node ends, and rules are asked about no more nodes than it has of registered
kinds. -/
def EndsWithin (rules : List Rule) (queries : Queries) (activity : Activity)
    (outer : List Ancestor) (n : Node) : Prop :=
  ∃ left t asked, Shown (.ofList rules) queries activity outer n left t
    ∧ AsksAbout rules queries activity asked t ∧ asked.length ≤ workload rules n

/-- Showing the nodes from left to right ends, and rules are asked about no more nodes than they
have of registered kinds. -/
def EndsWithinAll (rules : List Rule) (queries : Queries) (activity : Activity)
    (outer : List Ancestor) (ns : List Node) : Prop :=
  ∃ left t asked, ShownAll (.ofList rules) queries activity outer ns left t
    ∧ AsksAbout rules queries activity asked t ∧ asked.length ≤ workloadAll rules ns

/-- If the walk ends within the workload for each sibling, it does for all. -/
theorem EndsWithinAll.of_forall (h : ∀ n ∈ ns, EndsWithin rules queries activity outer n) :
  EndsWithinAll rules queries activity outer ns
  := by
  induction ns with
  | nil => exact ⟨[], {}, [], .nil, .empty, Nat.le_refl 0⟩
  | cons n ns ih =>
    rw [List.forall_mem_cons] at h
    obtain ⟨left, s, asked, hn, hasked, hle⟩ := h.1
    obtain ⟨rest, t, asked', hns, hasked', hle'⟩ := ih h.2
    refine ⟨left ++ rest, s ++ t, asked ++ asked', .cons hn hns, hasked.append hasked', ?_⟩
    rw [List.length_append, workloadAll_cons]
    apply Nat.add_le_add hle hle'

theorem length_ite_singleton {α : Type} (b : Bool) (a : α) :
  (if b then [a] else []).length = if b then 1 else 0
  := by
  cases b <;> rfl

/-- A node that is kept. -/
theorem endsWithin_of_kept (h : (Registry.ofList rules).wanted ⟨outer, queries⟩ n = none)
    (hbelow : EndsWithinAll rules queries activity (.of n :: outer) n.children) :
  EndsWithin rules queries activity outer n
  := by
  obtain ⟨children, t, asked, hchildren, hasked, hle⟩ := hbelow
  have hself : AsksAbout rules queries activity
      (if isRegistered rules n.kind then [(outer, n)] else [])
      ((Registry.ofList rules).asking activity ⟨outer, queries⟩ n ++ {}) :=
    .asking (Nat.zero_le _) rfl
  rw [Trace.append_empty] at hself
  refine ⟨_, _, _, .kept h hchildren, hself.append hasked, ?_⟩
  rw [List.length_append, length_ite_singleton, workload_eq, Nat.add_comm]
  apply Nat.add_le_add_right hle

/-- A change of a node that a registered rule asks for. -/
theorem asksAbout_change (h : isRegistered rules n.kind = true) (name : String) (removed : Bool) :
  AsksAbout rules queries activity [(outer, n)]
    ((Registry.ofList rules).asking activity ⟨outer, queries⟩ n ++ .change name n removed)
  := by
  have hone : (Trace.change name n removed).applications.length
      ≤ if isRegistered rules n.kind then 1 else 0 := by
    rw [if_pos h]
    apply Nat.le_refl
  have hasked : AsksAbout rules queries activity
      (if isRegistered rules n.kind then [(outer, n)] else [])
      ((Registry.ofList rules).asking activity ⟨outer, queries⟩ n ++ .change name n removed) :=
    .asking hone rfl
  rwa [if_pos h] at hasked

/-- A node that is removed needs no further walk. -/
theorem endsWithin_of_removed {name : String}
    (h : (Registry.ofList rules).wanted ⟨outer, queries⟩ n = some (name, .remove)) :
  EndsWithin rules queries activity outer n
  := by
  have hregistered := isRegistered_of_wanted h
  refine ⟨[], _, _, .removed h, asksAbout_change hregistered name true, ?_⟩
  rw [workload_eq, if_pos hregistered]
  apply Nat.le_add_left

/-- A node that is replaced by one with less workload below it leaves enough for the walk below it.
-/
theorem endsWithin_of_replaced {name : String} {new : Node}
    (h : (Registry.ofList rules).wanted ⟨outer, queries⟩ n = some (name, .replace new))
    (hless : workloadAll rules new.children < workload rules n)
    (hbelow : EndsWithinAll rules queries activity (.of (new.inheritPosition n) :: outer)
      (new.inheritPosition n).children) :
  EndsWithin rules queries activity outer n
  := by
  obtain ⟨children, t, asked, hchildren, hasked, hle⟩ := hbelow
  have hregistered := isRegistered_of_wanted h
  have hsame : (new.inheritPosition n).children = new.children := Node.children_withTag _ _
  refine ⟨_, _, _, .replaced h hchildren,
    (asksAbout_change hregistered name false).append hasked, ?_⟩
  rw [hsame] at hle
  rw [List.length_append, List.length_singleton]
  omega

/-- Rules that shed work let showing a node come to an end.  What is shown next has fewer nodes of
registered kinds or, below a node that is kept, fewer nodes. -/
theorem endsWithin_of_shedsWork (h : ShedsWork rules queries) (activity : Activity)
    (outer : List Ancestor) (n : Node) :
  EndsWithin rules queries activity outer n
  := by
  rcases hwanted : (Registry.ofList rules).wanted ⟨outer, queries⟩ n with _ | ⟨name, _ | new | _⟩
  · apply endsWithin_of_kept hwanted
    apply EndsWithinAll.of_forall
    intro c hc
    have hsize := Node.size_lt_of_mem_children hc
    have hle : workload rules c ≤ workload rules n :=
      Nat.le_trans (workload_le_workloadAll_of_mem hc) (workloadAll_children_le rules n)
    apply endsWithin_of_shedsWork h
  · cases Registry.ne_keep_of_wanted hwanted rfl
  · obtain ⟨rule, hrule, hkind, hvalue⟩ := exists_rule_of_wanted hwanted
    have hless := h rule hrule n outer new hkind hvalue
    have hsame : (new.inheritPosition n).children = new.children := Node.children_withTag _ _
    apply endsWithin_of_replaced hwanted hless
    apply EndsWithinAll.of_forall
    intro c hc
    rw [hsame] at hc
    have hle : workload rules c < workload rules n :=
      Nat.lt_of_le_of_lt (workload_le_workloadAll_of_mem hc) hless
    apply endsWithin_of_shedsWork h
  · apply endsWithin_of_removed hwanted
termination_by (workload rules n, n.size)
decreasing_by
  · rcases Nat.lt_or_eq_of_le hle with hlt | heq
    · exact Prod.Lex.left _ _ hlt
    · rw [heq]
      exact Prod.Lex.right _ hsize
  · exact Prod.Lex.left _ _ hle

/-! ### The rule sheds work -/

namespace StaticCall

variable (options : Options)

/-- The rule is registered for method calls. -/
theorem isRegistered_rule_iff {kind : Kind} :
  isRegistered [rule options] kind = true ↔ kind = Php.memberCall
  := by
  simp [isRegistered, rule]

/-- The workload of the rule is the number of method calls. -/
theorem workload_rule (n : Node) :
  workload [rule options] n = n.descendants.countP fun m => m.kind = Php.memberCall
  := by
  rw [workload]
  apply List.countP_congr
  intro m _
  rw [isRegistered_rule_iff, decide_eq_true_iff]

/-- There is no workload where there is no method call. -/
theorem workload_eq_zero_of_callFree (h : CallFree n) :
  workload [rule options] n = 0
  := by
  rw [workload_rule, List.countP_eq_zero]
  intro m hm hcall
  apply h m hm (of_decide_eq_true hcall)

/-- Of the children of a static call only the arguments have calls in them, and the arguments were
in the call already. -/
theorem workloadAll_toStatic (p : Parts) (call : Node) :
  workloadAll [rule options] (p.toStatic call).children = workload [rule options] p.arguments
  := by
  have hchildren : (p.toStatic call).children
      = [p.scope, p.operator call, p.method, p.arguments] := rfl
  rw [hchildren]
  simp only [workloadAll_cons, workloadAll_nil,
    workload_eq_zero_of_callFree options p.callFree_scope,
    workload_eq_zero_of_callFree options (p.callFree_operator call),
    workload_eq_zero_of_callFree options p.callFree_method]
  omega

/-- The rule sheds the call itself. -/
theorem shedsWork_rule (queries : Queries) :
  ShedsWork [rule options] queries
  := by
  intro r hr n outer new hkind hvalue
  obtain rfl := List.mem_singleton.1 hr
  have hcall : n.kind = Php.memberCall := List.mem_singleton.1 hkind
  have hverdict := (evaluate_value options queries n outer).symm.trans hvalue
  cases haccepted : accepted? options queries (receiverClass outer) n with
  | none =>
    rw [haccepted] at hverdict
    cases hverdict
  | some p =>
    rw [haccepted] at hverdict
    obtain rfl := Verdict.replace.inj hverdict
    have hrewritten : rewritten? options queries (receiverClass outer) n = some p := by
      rw [rewritten?, if_pos hcall, haccepted]
    have hle : workload [rule options] p.arguments ≤ workloadAll [rule options] n.children :=
      workload_le_workloadAll_of_mem (arguments_mem_of_rewritten? hrewritten)
    rw [workloadAll_toStatic, workload_eq _ n, if_pos ((isRegistered_rule_iff options).2 hcall)]
    apply Nat.lt_succ_of_le hle

end StaticCall

/-! ### Passes -/

/-- What a pass that ends has done, when its rules shed work. -/
theorem Pass.asksAbout_of_run (h : ShedsWork rules queries) {levels : Nat} {root root' : Node}
    {j j' : Journal} (hrun : run (.ofList rules) queries levels root j = some (root', j')) :
  ∃ asked t, j' = j.extend t ∧ AsksAbout rules queries j.activity asked t
    ∧ asked.length ≤ workload rules root
  := by
  obtain ⟨left, t, hshown, -, rfl⟩ := run_eq_some_iff.1 ⟨levels, hrun⟩
  obtain ⟨left', t', asked, hshown', hasked, hle⟩ :=
    endsWithin_of_shedsWork h j.activity j.ancestors root
  obtain ⟨-, rfl⟩ := shown_unique hshown hshown'
  exact ⟨asked, t, rfl, hasked, hle⟩

/-- When the rules shed work, a pass ends as soon as enough levels are allowed. -/
theorem Pass.exists_run_of_shedsWork (h : ShedsWork rules queries) (root : Node) (j : Journal) :
  ∃ enough r, ∀ levels ≥ enough, run (.ofList rules) queries levels root j = some r
  := by
  obtain ⟨left, t, asked, hshown, -, -⟩ :=
    endsWithin_of_shedsWork h j.activity j.ancestors root
  obtain ⟨enough, henough⟩ := showNode_of_shown hshown
  use enough, (left.headD root.clear, j.extend t)
  intro levels hlevels
  rw [run_eq, henough levels hlevels j rfl rfl]
  rfl

/-- A pass with the rule alone ends, with no more changes than there are method calls. -/
theorem StaticCall.applied_le (options : Options) (queries : Queries) (activity : Activity)
    (tree : Node) :
  ∃ o, (dispatcher options .single).once queries activity tree = some o
    ∧ o.applied ≤ tree.descendants.countP fun m => m.kind = Php.memberCall
  := by
  obtain ⟨t, hadds⟩ := exists_adds options queries activity tree
  refine ⟨_, (hadds.makes .single).once_eq, ?_⟩
  have hrun := hadds.run_eq { activity } rfl rfl
  obtain ⟨asked, t', hj, hasked, hle⟩ :=
    Pass.asksAbout_of_run (shedsWork_rule options queries) hrun
  obtain rfl := Journal.extend_inj hj
  rw [workload_rule] at hle
  apply Nat.le_trans hasked.changes hle

/-- When the rules shed work, every pass ends; it asks about no more nodes than the tree has of
registered kinds, and so changes no more.  The rule for calls of static methods sheds work, and its
passes change no more nodes than there are method calls. -/
theorem Pass.run_ends_of_shedsWork (rules : List Rule) (queries : Queries) :
  (ShedsWork rules queries → ∀ root j,
    (∃ enough r, ∀ levels ≥ enough, run (.ofList rules) queries levels root j = some r)
    ∧ ∀ levels root' j', run (.ofList rules) queries levels root j = some (root', j') →
      ∃ asked t, j' = j.extend t ∧ AsksAbout rules queries j.activity asked t
        ∧ (∀ asked', AsksAbout rules queries j.activity asked' t → asked' = asked)
        ∧ asked.length ≤ workload rules root ∧ t.applications.length ≤ workload rules root)
  ∧ ∀ options, ShedsWork [StaticCall.rule options] queries
    ∧ ∀ activity tree, ∃ o,
        (StaticCall.dispatcher options .single).once queries activity tree = some o
        ∧ o.applied ≤ tree.descendants.countP fun m => m.kind = Php.memberCall
  := by
  constructor
  · intro h root j
    constructor
    · apply exists_run_of_shedsWork h
    · intro levels root' j' hrun
      obtain ⟨asked, t, hj, hasked, hle⟩ := asksAbout_of_run h hrun
      use asked, t, hj, hasked
      constructor
      · intro asked' hasked'
        apply hasked.unique hasked'
      · exact ⟨hle, Nat.le_trans hasked.changes hle⟩
  · intro options
    constructor
    · apply StaticCall.shedsWork_rule
    · intro activity tree
      apply StaticCall.applied_le

/-! ### A rule that makes trees larger -/

/-- Put every sum in brackets. -/
def bracketSums : Rule where
  name := "bracket_sums"
  definition := { description := "Puts sums in brackets", samples := [] }
  kinds := [⟨"sum"⟩]
  evaluate n _ :=
    pure (.replace (.inner ⟨"brackets"⟩ ([.token ⟨"("⟩ "("] ++ n.children ++ [.token ⟨")"⟩ ")"])))

/-- Putting a sum in brackets leaves the sums in it, and takes this one away. -/
theorem shedsWork_bracketSums (queries : Queries) :
  ShedsWork [bracketSums] queries
  := by
  intro r hr n outer new hkind hvalue
  obtain rfl := List.mem_singleton.1 hr
  have hsum : n.kind = ⟨"sum"⟩ := List.mem_singleton.1 hkind
  obtain rfl := Verdict.replace.inj hvalue
  have hopening : workload [bracketSums] (.token ⟨"("⟩ "(") = 0 := workload_eq _ _
  have hclosing : workload [bracketSums] (.token ⟨")"⟩ ")") = 0 := workload_eq _ _
  have hchildren : workloadAll [bracketSums]
      ([.token ⟨"("⟩ "("] ++ n.children ++ [.token ⟨")"⟩ ")"])
      = workloadAll [bracketSums] n.children := by
    simp only [workloadAll_append, workloadAll_cons, workloadAll_nil, hopening, hclosing,
      Nat.zero_add, Nat.add_zero]
  rw [workload_eq _ n, hsum]
  apply Nat.lt_succ_of_le (Nat.le_of_eq hchildren)

/-- A sum in a sum. -/
def nestedSum : Node :=
  .inner ⟨"sum"⟩ [.inner ⟨"sum"⟩ [.token ⟨"integer"⟩ "1"], .token ⟨"integer"⟩ "2"]

/-- Brackets around two sums, one in the other, after at most two questions. -/
theorem Pass.run_ends_of_shedsWork_bracketSums :
  ShedsWork [bracketSums] StaticCall.allStatic
    ∧ (∃ enough r, ∀ levels ≥ enough,
        run (.ofList [bracketSums]) StaticCall.allStatic levels nestedSum {} = some r)
    ∧ workload [bracketSums] nestedSum = 2
  := by
  have hsheds := shedsWork_bracketSums StaticCall.allStatic
  use hsheds, ((run_ends_of_shedsWork [bracketSums] StaticCall.allStatic).1 hsheds nestedSum {}).1
  rw [workload, Node.descendants_eq_preorder]
  rfl

end Amend
