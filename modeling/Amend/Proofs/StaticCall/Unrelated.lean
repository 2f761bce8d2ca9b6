import Amend.Proofs.Answers
import Amend.Proofs.Reach
import Amend.Proofs.StaticCall.Stable

/-!
# Classes that a tree cannot reach

The rule asks the index about the class, trait or enum that `$this` refers to, and about nothing
else (`evaluate_congr`).  In all passes over a tree these are the classes, traits and enums of the
tree that was given, as no pass changes their names (`mem_descendants_amend`).  So a declaration
that none of their names leads to makes no difference to what is made of the tree
(`applyAll?_insert_unrelated`).
-/

namespace Amend.StaticCall

/-- No call stands in the name of a class, trait or enum. -/
def PlainOwners (tree : Node) : Prop :=
  ∀ n ∈ tree.descendants, n.kind ∈ selfScopes → ∀ c ∈ n.childByField "name", CallFree c

/-- The index answers alike about a node, should `$this` refer to it. -/
def AlikeAbout (queries queries' : Queries) (a : Ancestor) : Prop :=
  ∀ name, ownerName a = some name → queries.AnswersAlike queries' name

/-- The index answers alike about the nodes around a tree and about all nodes of the tree. -/
structure AlikeWithin (queries queries' : Queries) (outer : List Ancestor) (tree : Node) :
    Prop where
  around : ∀ a ∈ outer, AlikeAbout queries queries' a
  inside : ∀ n ∈ tree.descendants, AlikeAbout queries queries' (.of n)

/-- No name that a class, trait or enum of the tree declares leads to the key. -/
def Unreached (index : ProjectIndex) (tree : Node) (k : String) : Prop :=
  ∀ n ∈ tree.descendants, n.kind ∈ selfScopes → ∀ name, n.declaredName = some name →
    ¬ LeadsTo index.atKey? (key name) k

variable {options : Options} {queries queries' : Queries} {outer : List Ancestor} {n : Node}

/-! ### What the rule asks the index -/

/-- `$this` refers to one of the enclosing nodes. -/
theorem exists_owner_of_receiverClass {name : String} (h : receiverClass outer = some name) :
  ∃ a ∈ outer, ownerName a = some name
  := by
  induction outer with
  | nil => cases h
  | cons a outer ih =>
    rw [receiverClass_cons] at h
    split at h
    · obtain ⟨owner, howner, hname⟩ := Option.bind_eq_some_iff.1 h
      exact ⟨owner, List.mem_cons_of_mem a (List.mem_of_mem_head? howner), hname⟩
    · obtain ⟨owner, howner, hname⟩ := ih h
      exact ⟨owner, List.mem_cons_of_mem a howner, hname⟩

/-- Whether a class is a test case depends on the answers about it only. -/
theorem isSubtypeOfAny_congr {declaration : String}
    (h : queries.AnswersAlike queries' declaration) (bases : List String) :
  isSubtypeOfAny queries' declaration bases = isSubtypeOfAny queries declaration bases
  := by
  induction bases with
  | nil => rfl
  | cons base bases ih => rw [isSubtypeOfAny, isSubtypeOfAny, h.isSubtype_eq, ih]

/-- Whether a call is an assertion depends on the answers about its class only. -/
theorem isAssertion_congr {declaration : String} (h : queries.AnswersAlike queries' declaration)
    (method : String) :
  isAssertion options queries' method declaration = isAssertion options queries method declaration
  := by
  rw [isAssertion, isAssertion, isSubtypeOfAny_congr h]

/-- The verdict on a call, and the records left on the way to it, depend on what the index answers
about the class that `$this` refers to. -/
theorem evaluate_congr (call : Node)
    (h : ∀ name, receiverClass outer = some name → queries.AnswersAlike queries' name) :
  evaluate options call ⟨outer, queries'⟩ = evaluate options call ⟨outer, queries⟩
  := by
  rw [evaluate, evaluate]
  cases call.childByField "object" with
  | none => rfl
  | some object =>
    cases call.childByField "name" with
    | none => rfl
    | some name =>
      dsimp only
      cases name.staticName [Php.name] with
      | none => rfl
      | some method =>
        cases hreceiver : receiverClass outer with
        | none => rfl
        | some declaration =>
          have hdeclaration := h declaration hreceiver
          have hdecide : decide call object name method declaration queries'
              = decide call object name method declaration queries := by
            rw [decide, decide, hdeclaration.isStaticMember_eq]
          dsimp only
          rw [isAssertion_congr hdeclaration, hdecide]

/-! ### A pass -/

/-- Nothing is asked about a node that `self` cannot stand for. -/
theorem alikeAbout_of_notMem (h : n.kind ∉ selfScopes) :
  AlikeAbout queries queries' (.of n)
  := by
  have hnone : ownerName (.of n) = none := if_neg h
  intro name hname
  cases hnone.symm.trans hname

/-- Below a static call, all but the arguments is new and owns no class body. -/
theorem Parts.mem_descendants_toStatic {p : Parts} {call c m : Node}
    (hc : c ∈ (p.toStatic call).children) (hm : m ∈ c.descendants) :
  m.kind ∉ selfScopes ∨ m ∈ p.arguments.descendants
  := by
  have hleaf {leaf : Node} (hchildren : leaf.children = []) (h : m ∈ leaf.descendants) :
      m = leaf := by
    rw [Node.descendants_eq, hchildren] at h
    apply List.mem_singleton.1 h
  rw [Parts.toStatic_eq] at hc
  rcases hc with _ | ⟨_, _ | ⟨_, _ | ⟨_, _ | ⟨_, hc⟩⟩⟩⟩
  · left
    rcases Node.mem_descendants.1 hm with rfl | ⟨c, hc, hm⟩
    · rw [p.kind_scope]
      decide
    · rw [List.mem_singleton.1 hc] at hm
      rw [hleaf rfl hm]
      decide
  · left
    rw [hleaf rfl hm, p.kind_operator]
    decide
  · left
    rw [hleaf rfl hm, p.kind_method]
    decide
  · exact .inr hm
  · cases hc

/-- The rule answers alike wherever the index answers alike about the nodes around and below. -/
theorem agreeWhere_alikeWithin :
  AgreeWhere (alone options) queries queries' (AlikeWithin queries queries')
  := by
  constructor
  · intro outer n hn r hr
    rw [rulesFor_alone] at hr
    split at hr
    · obtain rfl := List.mem_singleton.1 hr
      apply evaluate_congr
      intro name hname
      obtain ⟨a, ha, hname⟩ := exists_owner_of_receiverClass hname
      apply hn.around a ha name hname
    · cases hr
  · intro outer n hn c hc
    constructor
    · apply List.forall_mem_cons.2 ⟨hn.inside n n.self_mem_descendants, hn.around⟩
    · intro m hm
      apply hn.inside m (Node.mem_descendants_of_mem_children hm hc)
  · intro outer n hn rule new hwanted c hc
    rw [wanted_alone] at hwanted
    obtain ⟨p, hp, hnew⟩ := Option.map_eq_some_iff.1 hwanted
    obtain ⟨-, rfl⟩ : ruleName = rule ∧ p.toStatic n = new := by
      simpa using hnew
    rw [Node.inheritPosition, Node.children_withTag] at hc
    constructor
    · apply List.forall_mem_cons.2 ⟨?_, hn.around⟩
      have hkind : ((p.toStatic n).inheritPosition n).kind = Php.scopedCall := rfl
      apply alikeAbout_of_notMem
      rw [hkind]
      decide
    · intro m hm
      rcases Parts.mem_descendants_toStatic hc hm with hkind | hm
      · apply alikeAbout_of_notMem hkind
      · apply hn.inside m (Node.mem_descendants_of_mem_children hm (arguments_mem_of_rewritten? hp))

/-- A pass gives the same tree and adds the same to the journal. -/
theorem Adds.of_alikeWithin {activity : Activity} {tree : Node} {t : Trace}
    (h : Adds options queries activity tree t) (halike : AlikeWithin queries queries' [] tree) :
  Adds options queries' activity tree t
    ∧ amend options queries' [] tree = amend options queries [] tree
  := by
  obtain ⟨t', h'⟩ := exists_adds options queries' activity tree
  obtain ⟨left, hshown, heq⟩ := (h.makes .single).exists_shown
  obtain ⟨left', hshown', heq'⟩ := (h'.makes .single).exists_shown
  obtain ⟨rfl, rfl⟩ := Pass.shown_unique hshown' (hshown.of_agree agreeWhere_alikeWithin halike)
  exact ⟨h', heq'.trans heq.symm⟩

/-! ### The tree after a pass -/

/-- What owns a class body after a pass was there before, and was kept. -/
theorem mem_descendants_amend {m : Node} (hm : m ∈ (amend options queries outer n).descendants) :
  m.kind ∉ selfScopes
    ∨ ∃ c ∈ n.descendants, ∃ outer', rewritten? options queries (receiverClass outer') c = none
      ∧ m = amend options queries outer' c
  := by
  induction n using Node.below_induction generalizing outer with
  | below n ih =>
    have hbelow {c : Node} (hc : c ∈ n.children)
        (hm : m ∈ (amend options queries (.of n :: outer) c).descendants) :
        m.kind ∉ selfScopes
          ∨ ∃ c ∈ n.descendants, ∃ outer',
            rewritten? options queries (receiverClass outer') c = none
            ∧ m = amend options queries outer' c := by
      obtain hkind | ⟨c', hc', hkept⟩ := ih c hc hm
      · exact .inl hkind
      · exact .inr ⟨c', Node.mem_descendants_of_mem_children hc' hc, hkept⟩
    cases hrewritten : rewritten? options queries (receiverClass outer) n with
    | some p =>
      obtain rfl | ⟨c, hc, hm⟩ := Node.mem_descendants.1 hm
      · left
        rw [kind_amend_of_some hrewritten]
        decide
      · rw [amend_of_some hrewritten, Node.inheritPosition, Node.children_withTag] at hc
        obtain hkind | hm := Parts.mem_descendants_toStatic hc hm
        · exact .inl hkind
        · apply hbelow (arguments_mem_of_rewritten? hrewritten) hm
    | none =>
      obtain rfl | ⟨c, hc, hm⟩ := Node.mem_descendants.1 hm
      · exact .inr ⟨n, n.self_mem_descendants, outer, hrewritten, rfl⟩
      · rw [amend_of_none hrewritten, Node.children_withChildren_map] at hc
        obtain ⟨c, hchild, rfl⟩ := List.mem_map.1 hc
        apply hbelow hchild hm

/-- The names of declarations stay plain. -/
theorem PlainOwners.amend (h : PlainOwners n) :
  PlainOwners (amend options queries outer n)
  := by
  intro m hm hkind
  obtain hkind' | ⟨c, hc, outer', hkept, rfl⟩ := mem_descendants_amend hm
  · cases hkind' hkind
  · rw [kind_amend_of_none hkept] at hkind
    rw [childByField_name_amend hkept (h c hc hkind)]
    apply h c hc hkind

/-- The answers about the classes of the amended tree are alike. -/
theorem AlikeWithin.amend (h : AlikeWithin queries queries' [] n) (hplain : PlainOwners n) :
  AlikeWithin queries queries' [] (amend options queries outer n)
  := by
  constructor
  · intro a ha
    cases ha
  · intro m hm
    obtain hkind | ⟨c, hc, outer', hkept, rfl⟩ := mem_descendants_amend hm
    · apply alikeAbout_of_notMem hkind
    · rw [AlikeAbout, ownerName_amend hkept (hplain c hc)]
      apply h.inside c hc

/-! ### Passes until nothing changes -/

/-- All passes come to the same, and they come to an end. -/
theorem repeatPasses_of_alikeWithin (mode : PassMode) (left passes : Nat) {tree : Node}
    {j : Journal} (hancestors : j.ancestors = []) (hplain : PlainOwners tree)
    (halike : AlikeWithin queries queries' [] tree) :
  ∃ r, (dispatcher options mode).repeatPasses queries left passes tree j = some r
    ∧ (dispatcher options mode).repeatPasses queries' left passes tree j = some r
  := by
  induction left generalizing passes tree j with
  | zero => exact ⟨_, rfl, rfl⟩
  | succ left ih =>
    obtain ⟨t, h⟩ := exists_adds options queries j.activity tree
    obtain ⟨h', hamend⟩ := h.of_alikeWithin halike
    rw [h.repeatPasses_succ mode left passes hancestors rfl,
      h'.repeatPasses_succ mode left passes hancestors rfl, hamend]
    split
    · exact ⟨_, rfl, rfl⟩
    · split
      · exact ⟨_, rfl, rfl⟩
      · have hancestors' : (j.extend t).ancestors = [] := hancestors
        apply ih (passes + 1) hancestors' hplain.amend (halike.amend hplain)

/-- Answers that are alike about the classes of a tree lead to the same outcome. -/
theorem applyAll?_of_alikeWithin (mode : PassMode) (activity : Activity) {tree : Node}
    (hplain : PlainOwners tree) (halike : AlikeWithin queries queries' [] tree) :
  ∃ outcome, (dispatcher options mode).applyAll? queries tree activity = some outcome
    ∧ (dispatcher options mode).applyAll? queries' tree activity = some outcome
  := by
  let limit := (dispatcher options mode).mode.limit
  let start : Journal := { activity }
  have hancestors : start.ancestors = [] := rfl
  obtain ⟨r, h, h'⟩ := repeatPasses_of_alikeWithin mode limit 0 hancestors hplain halike
  rw [Dispatcher.applyAll?, Dispatcher.applyAll?, h, h']
  exact ⟨_, rfl, rfl⟩

/-- Declarations that the classes of a tree do not reach leave the answers about them alike. -/
theorem alikeWithin_insertAll {index : ProjectIndex} {ds : List Declaration} {tree : Node}
    (h : ∀ d ∈ ds, Unreached index tree (key d.name)) :
  AlikeWithin index.queries (index.insertAll ds).value.queries [] tree
  := by
  constructor
  · intro a ha
    cases ha
  · intro n hn name hname
    rw [ownerName] at hname
    split at hname
    · apply ProjectIndex.answersAlike_of_agreeFrom
      apply ProjectIndex.agreeFrom_insertAll
      intro d hd
      apply h d hd n hn ‹_› name hname
    · cases hname

/-- A declaration that is inserted into the index, be it new or in the place of another one, makes
no difference to a tree none of whose classes, traits and enums leads to its name: the passes with
the rule end and come to the same tree, changes and number of passes, and to the same questions
and records. -/
theorem applyAll?_insert_unrelated (options : Options) (mode : PassMode) (index : ProjectIndex)
    (d : Declaration) (tree : Node) (activity : Activity) (hplain : PlainOwners tree)
    (hunreached : Unreached index tree (key d.name)) :
  ∃ outcome, (dispatcher options mode).applyAll? index.queries tree activity = some outcome
    ∧ (dispatcher options mode).applyAll? (index.insert d).value.queries tree activity
      = some outcome
  := by
  have hinsert : (index.insert d).value = (index.insertAll [d]).value := rfl
  rw [hinsert]
  apply applyAll?_of_alikeWithin mode activity hplain
  apply alikeWithin_insertAll
  intro d' hd'
  rwa [List.mem_singleton.1 hd']

/-- The class `A`, which extends a class `B` that is not declared in the project. -/
def extendingClass : Declaration where
  name := "A"
  parent := some "B"
  members := [⟨"eat", true⟩]

/-- The class `C`, which extends `A` and has a method of the same name that is not static. -/
def otherClass : Declaration where
  name := "\\C"
  parent := some "A"
  members := [⟨"eat", false⟩]

/-- From the class `A` only the names `A` and `B` are reached. -/
theorem unreached_nestedCalls {k : String} (hk : k ∉ [key "B", key "A"]) :
  Unreached (ProjectIndex.empty.put extendingClass) nestedCalls k
  := by
  have hfound : (ProjectIndex.empty.put extendingClass).atKey? (key "A") = some extendingClass := by
    decide +kernel
  have habsent : (ProjectIndex.empty.put extendingClass).atKey? (key "B") = none := by
    decide +kernel
  have hnew : key "B" ∉ [key "A"] := by
    decide +kernel
  have htour : Tour (ProjectIndex.empty.put extendingClass).atKey? [] (key "A")
      (extendingClass :: ([] ++ [])) [key "B", key "A"] :=
    .enter List.not_mem_nil hfound (.cons (.outside hnew habsent) .nil)
  have hnamed : ∀ n ∈ nestedCalls.preorder, n.kind ∈ selfScopes → n.declaredName = some "A" := by
    decide +kernel
  intro n hn hkind name hname hleads
  rw [Node.descendants_eq_preorder] at hn
  obtain rfl := Option.some.inj ((hnamed n hn hkind).symm.trans hname)
  apply hk (htour.mem_iff_leadsTo.2 hleads)

/-- A class that is declared beside the one with the calls. -/
theorem applyAll?_insert_unrelated_nestedCalls :
  PlainOwners nestedCalls
  ∧ Unreached (ProjectIndex.empty.put extendingClass) nestedCalls (key otherClass.name)
  ∧ ∃ outcome,
    (dispatcher {} (.converge 3)).applyAll? (ProjectIndex.empty.put extendingClass).queries
      nestedCalls .idle = some outcome
    ∧ (dispatcher {} (.converge 3)).applyAll?
      ((ProjectIndex.empty.put extendingClass).insert otherClass).value.queries nestedCalls .idle
        = some outcome
  := by
  have hplain : PlainOwners nestedCalls := by
    simp only [PlainOwners, CallFree, Node.descendants_eq_preorder]
    decide
  have hunreached : Unreached (ProjectIndex.empty.put extendingClass) nestedCalls
      (key otherClass.name) := by
    apply unreached_nestedCalls
    decide +kernel
  exact ⟨hplain, hunreached, applyAll?_insert_unrelated _ _ _ _ _ _ hplain hunreached⟩

end Amend.StaticCall
