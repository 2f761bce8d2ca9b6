import Amend.Proofs.Rewriting
import Amend.Proofs.Trees

/-!
# What a pass leaves alone

A pass divides the text of a tree into stretches: the outermost nodes that it changes, and
the text around them.  `Divided` tells which nodes these are and what stands in their places
afterwards, and with it what the tree becomes: a node that is not changed keeps everything but
its children.  `Reaches` tells which nodes are shown on the way, those of replacements
included.  A node that is shown without any change being made is left as it is.
-/

namespace Amend

/-! ### Stretches -/

/-- A stretch of the text of a tree: what a pass does not touch, or an outermost node that it
changes, with what stands in its place in the end. -/
inductive Stretch where
  | kept (text : String)
  | replaced (old new : Node)
  | removed (old : Node)

namespace Stretch

/-- The text of stretches before the pass. -/
def before : List Stretch → String
  | [] => ""
  | .kept text :: rest => text ++ before rest
  | .replaced old _ :: rest => old.source ++ before rest
  | .removed old :: rest => old.source ++ before rest

/-- The text of stretches after the pass. -/
def after : List Stretch → String
  | [] => ""
  | .kept text :: rest => text ++ after rest
  | .replaced _ new :: rest => new.source ++ after rest
  | .removed _ :: rest => after rest

@[simp]
theorem before_append (ss ss' : List Stretch) :
  before (ss ++ ss') = before ss ++ before ss'
  := by
  induction ss with
  | nil => simp [before]
  | cons s ss ih => cases s <;> simp [before, ih, String.append_assoc]

@[simp]
theorem after_append (ss ss' : List Stretch) :
  after (ss ++ ss') = after ss ++ after ss'
  := by
  induction ss with
  | nil => simp [after]
  | cons s ss ih => cases s <;> simp [after, ih, String.append_assoc]

@[simp]
theorem before_kept (text : String) :
  before [.kept text] = text
  := by
  simp [before]

@[simp]
theorem after_kept (text : String) :
  after [.kept text] = text
  := by
  simp [after]

end Stretch

variable (registry : Registry) (queries : Queries) (activity : Activity)

mutual

/-- `Divided outer n left stretches`: a pass that shows the node `n` inside the nodes `outer`
divides its text into `stretches` and leaves the nodes `left` in its place. -/
inductive Divided : (outer : List Ancestor) → Node → List Node → List Stretch → Prop
  | replaced {outer : List Ancestor} {n new final : Node} {rule : String} {t : Trace}
      (wanted : registry.wanted ⟨outer, queries⟩ n = some (rule, .replace new))
      (shown : Shown registry queries activity outer n [final] t) :
      Divided outer n [final] [.replaced n final]
  | removed {outer : List Ancestor} {n : Node} {rule : String}
      (wanted : registry.wanted ⟨outer, queries⟩ n = some (rule, .remove)) :
      Divided outer n [] [.removed n]
  | token {outer : List Ancestor} {tag : Tag} {text : String}
      (wanted : registry.wanted ⟨outer, queries⟩ (.leaf tag text) = none) :
      Divided outer (.leaf tag text) [.leaf tag text] [.kept (Node.leaf tag text).source]
  | kept {outer : List Ancestor} {tag : Tag} {children left : List Node}
      {stretches : List Stretch}
      (wanted : registry.wanted ⟨outer, queries⟩ (.branch tag children) = none)
      (below : DividedAll (.of (.branch tag children) :: outer) children left stretches) :
      Divided outer (.branch tag children) [.branch tag left]
        ([.kept tag.leading] ++ stretches ++ [.kept tag.trailing])

/-- `DividedAll outer ns left stretches`: the same for the nodes of a list. -/
inductive DividedAll : (outer : List Ancestor) → List Node → List Node → List Stretch → Prop
  | nil {outer : List Ancestor} : DividedAll outer [] [] []
  | cons {outer : List Ancestor} {n : Node} {ns left rest : List Node} {s ss : List Stretch}
      (first : Divided outer n left s) (others : DividedAll outer ns rest ss) :
      DividedAll outer (n :: ns) (left ++ rest) (s ++ ss)

end

/-- `Reaches outer n outer' m`: a pass that shows the node `n` inside the nodes `outer` comes to
show the node `m` inside the nodes `outer'`. -/
inductive Reaches : (outer : List Ancestor) → Node → (outer' : List Ancestor) → Node → Prop
  | here {outer : List Ancestor} {n : Node} : Reaches outer n outer n
  | inReplacement {outer outer' : List Ancestor} {n new c m : Node} {rule : String}
      (wanted : registry.wanted ⟨outer, queries⟩ n = some (rule, .replace new))
      (child : c ∈ (new.inheritPosition n).children)
      (below : Reaches (.of (new.inheritPosition n) :: outer) c outer' m) :
      Reaches outer n outer' m
  | inKept {outer outer' : List Ancestor} {n c m : Node}
      (wanted : registry.wanted ⟨outer, queries⟩ n = none) (child : c ∈ n.children)
      (below : Reaches (.of n :: outer) c outer' m) :
      Reaches outer n outer' m

variable {registry queries activity} {outer outer' : List Ancestor} {n m : Node}
  {ns left : List Node} {t : Trace} {stretches : List Stretch}

/-! ### Nodes without changes -/

/-- Asking rules changes nothing. -/
theorem applications_asking (context : Context) (n : Node) :
  (registry.asking activity context n).applications = []
  := rfl

mutual

/-- A node that is shown without any change being made is left as it is. -/
theorem Shown.eq_self {outer : List Ancestor} {n : Node} {left : List Node} {t : Trace} :
    Shown registry queries activity outer n left t → t.applications = [] → left = [n]
  | .replaced _ _, h => by simp [applications_asking, Trace.change] at h
  | .removed _, h => by simp [applications_asking, Trace.change] at h
  | .kept _ hbelow, h => by
    rw [Trace.applications_append, applications_asking, List.nil_append] at h
    rw [hbelow.eq_self h, Node.withChildren_children]

/-- Nodes that are shown without any change being made are left as they are. -/
theorem ShownAll.eq_self {outer : List Ancestor} {ns left : List Node} {t : Trace} :
    ShownAll registry queries activity outer ns left t → t.applications = [] → left = ns
  | .nil, _ => rfl
  | .cons hfirst hothers, h => by
    rw [Trace.applications_append, List.append_eq_nil_iff] at h
    rw [hfirst.eq_self h.1, hothers.eq_self h.2, List.singleton_append]

end

/-! ### The text of a tree -/

mutual

/-- Whatever is shown is divided. -/
theorem Shown.exists_divided {outer : List Ancestor} {n : Node} {left : List Node} {t : Trace} :
    Shown registry queries activity outer n left t →
      ∃ stretches, Divided registry queries activity outer n left stretches
  | .replaced hwanted hbelow => ⟨_, .replaced hwanted (.replaced hwanted hbelow)⟩
  | .removed hwanted => ⟨_, .removed hwanted⟩
  | .kept (n := .leaf tag text) hwanted _ => ⟨_, .token hwanted⟩
  | .kept (n := .branch tag children) hwanted hbelow => by
    obtain ⟨stretches, h⟩ := hbelow.exists_divided
    exact ⟨_, .kept hwanted h⟩

/-- So is the text of siblings. -/
theorem ShownAll.exists_divided {outer : List Ancestor} {ns left : List Node} {t : Trace} :
    ShownAll registry queries activity outer ns left t →
      ∃ stretches, DividedAll registry queries activity outer ns left stretches
  | .nil => ⟨_, .nil⟩
  | .cons hfirst hothers => by
    obtain ⟨s, hs⟩ := hfirst.exists_divided
    obtain ⟨ss, hss⟩ := hothers.exists_divided
    exact ⟨_, .cons hs hss⟩

end

mutual

/-- The stretches make up the text of the node before the pass. -/
theorem Divided.before_eq {outer : List Ancestor} {n : Node} {left : List Node}
    {stretches : List Stretch} :
    Divided registry queries activity outer n left stretches →
      Stretch.before stretches = n.source
  | .replaced _ _ => by simp [Stretch.before]
  | .removed _ => by simp [Stretch.before]
  | .token _ => by simp
  | .kept _ hbelow => by
    rw [Stretch.before_append, Stretch.before_append, Stretch.before_kept, Stretch.before_kept,
      hbelow.before_eq, Node.source]

/-- The stretches make up the text of the siblings before the pass. -/
theorem DividedAll.before_eq {outer : List Ancestor} {ns left : List Node}
    {stretches : List Stretch} :
    DividedAll registry queries activity outer ns left stretches →
      Stretch.before stretches = Node.sourceAll ns
  | .nil => rfl
  | .cons hfirst hothers => by
    rw [Stretch.before_append, hfirst.before_eq, hothers.before_eq, Node.sourceAll]

end

mutual

/-- The stretches make up the text that is left of the node after the pass. -/
theorem Divided.after_eq {outer : List Ancestor} {n : Node} {left : List Node}
    {stretches : List Stretch} :
    Divided registry queries activity outer n left stretches →
      Stretch.after stretches = Node.sourceAll left
  | .replaced _ _ => by simp [Stretch.after, Node.sourceAll]
  | .removed _ => by simp [Stretch.after, Node.sourceAll]
  | .token _ => by simp [Node.sourceAll]
  | .kept _ hbelow => by
    rw [Stretch.after_append, Stretch.after_append, Stretch.after_kept, Stretch.after_kept,
      hbelow.after_eq, Node.sourceAll, Node.sourceAll, Node.source, String.append_empty]

/-- The stretches make up the text that is left of the siblings after the pass. -/
theorem DividedAll.after_eq {outer : List Ancestor} {ns left : List Node}
    {stretches : List Stretch} :
    DividedAll registry queries activity outer ns left stretches →
      Stretch.after stretches = Node.sourceAll left
  | .nil => rfl
  | .cons hfirst hothers => by
    rw [Stretch.after_append, hfirst.after_eq, hothers.after_eq, Node.sourceAll_append]

end

/-! ### What is shown on the way -/

/-- What is left of one of several nodes is among what is left of them all. -/
theorem ShownAll.exists_of_mem (h : ShownAll registry queries activity outer ns left t)
    (hn : n ∈ ns) :
  ∃ left' t', Shown registry queries activity outer n left' t' ∧ left' ⊆ left
  := by
  induction ns generalizing left t with
  | nil => cases hn
  | cons m ns ih =>
    cases h with
    | cons hfirst hothers =>
      rcases List.mem_cons.1 hn with rfl | hn
      · exact ⟨_, _, hfirst, List.subset_append_left _ _⟩
      · obtain ⟨left', t', hshown, hsub⟩ := ih hothers hn
        exact ⟨left', t', hshown, List.subset_append_of_subset_right _ hsub⟩

/-- What is left of a child stands below what is left of its parent. -/
theorem ShownAll.exists_of_mem_children {c : Node} {children : List Node}
    (h : ShownAll registry queries activity outer n.children children t) (hc : c ∈ n.children) :
  ∃ left' t', Shown registry queries activity outer c left' t'
    ∧ left' ⊆ (n.withChildren children).children
  := by
  cases n with
  | leaf tag text => cases hc
  | branch tag ns => apply h.exists_of_mem hc

/-- What is left of a node that is shown on the way stands in what is left in the end. -/
theorem Reaches.exists_shown (h : Reaches registry queries outer n outer' m)
    (hshown : Shown registry queries activity outer n left t) :
  ∃ left' t', Shown registry queries activity outer' m left' t'
    ∧ ∀ x ∈ left', ∃ l ∈ left, x ∈ l.descendants
  := by
  have hplace {l : Node} {left' ls : List Node} (hsub : left' ⊆ l.children)
      (hls : ∀ x ∈ ls, ∃ y ∈ left', x ∈ y.descendants) :
      ∀ x ∈ ls, ∃ y ∈ [l], x ∈ y.descendants := by
    intro x hx
    obtain ⟨y, hy, hxy⟩ := hls x hx
    exact ⟨l, List.mem_singleton_self l, Node.mem_descendants_of_mem_children hxy (hsub hy)⟩
  induction h generalizing left t with
  | here => exact ⟨left, t, hshown, fun x hx => ⟨x, hx, x.self_mem_descendants⟩⟩
  | inReplacement wanted child below ih =>
    cases hshown with
    | replaced hwanted hbelow =>
      cases wanted.symm.trans hwanted
      obtain ⟨_, _, hchild, hsub⟩ := hbelow.exists_of_mem_children child
      obtain ⟨left', t', hm, hls⟩ := ih hchild
      exact ⟨left', t', hm, hplace hsub hls⟩
    | removed hwanted => cases wanted.symm.trans hwanted
    | kept hwanted _ => cases wanted.symm.trans hwanted
  | inKept wanted child below ih =>
    cases hshown with
    | replaced hwanted _ => cases wanted.symm.trans hwanted
    | removed hwanted => cases wanted.symm.trans hwanted
    | kept hwanted hbelow =>
      obtain ⟨_, _, hchild, hsub⟩ := hbelow.exists_of_mem_children child
      obtain ⟨left', t', hm, hls⟩ := ih hchild
      exact ⟨left', t', hm, hplace hsub hls⟩

/-! ### A pass -/

namespace Pass

variable {root root' : Node} {j j' : Journal} {levels : Nat}

/-- A node leaves nothing or one node in its place. -/
theorem eq_nil_or_singleton_of_shown (h : Shown registry queries activity outer n left t) :
  left = [] ∨ ∃ l, left = [l]
  := by
  cases h with
  | replaced _ _ => exact .inr ⟨_, rfl⟩
  | removed _ => exact .inl rfl
  | kept _ _ => exact .inr ⟨_, rfl⟩

/-- What a pass gives prints what the root leaves. -/
theorem source_headD_of_shown (h : Shown registry queries activity outer n left t) :
  (left.headD n.clear).source = Node.sourceAll left
  := by
  rcases eq_nil_or_singleton_of_shown h with rfl | ⟨l, rfl⟩
  · simp [Node.clear, Node.source, Node.sourceAll]
  · simp [Node.sourceAll]

/-- What stands in what the root leaves stands in what a pass gives. -/
theorem mem_descendants_headD_of_shown {l : Node}
    (h : Shown registry queries activity outer n left t) (hl : l ∈ left) (hm : m ∈ l.descendants) :
  m ∈ (left.headD n.clear).descendants
  := by
  rcases eq_nil_or_singleton_of_shown h with rfl | ⟨l', rfl⟩
  · cases hl
  · rwa [List.mem_singleton.1 hl] at hm

/-- A tree in which a pass changes nothing is what the pass gives. -/
theorem eq_self_of_shown (h : Shown registry queries activity outer n left t)
    (hnone : t.applications = []) :
  left.headD n.clear = n
  := by
  rw [h.eq_self hnone]
  rfl

/-- A pass prints the text of the tree with each outermost node that it changes replaced by what
stands in its place in the end, and with nothing else changed.  Every node that is shown
without any change being made stands in the tree afterwards as it was, and a pass that changes
nothing gives the tree itself. -/
theorem run_leaves_alone (h : run registry queries levels root j = some (root', j')) :
  (∃ left stretches, Divided registry queries j.activity j.ancestors root left stretches
    ∧ root' = left.headD root.clear
    ∧ Stretch.before stretches = root.source ∧ Stretch.after stretches = root'.source)
  ∧ (∀ outer m, Reaches registry queries j.ancestors root outer m →
      ∃ left t, Shown registry queries j.activity outer m left t
        ∧ (t.applications = [] → left = [m] ∧ m ∈ root'.descendants))
  ∧ (j'.applications = j.applications → root' = root)
  := by
  obtain ⟨left, t, hshown, rfl, rfl⟩ := run_eq_some_iff.1 ⟨levels, h⟩
  refine ⟨?_, ?_, ?_⟩
  · obtain ⟨stretches, hdivided⟩ := hshown.exists_divided
    refine ⟨left, stretches, hdivided, rfl, hdivided.before_eq, ?_⟩
    rw [hdivided.after_eq, source_headD_of_shown hshown]
  · intro outer m hreaches
    obtain ⟨left', t', hm, hplace⟩ := hreaches.exists_shown hshown
    refine ⟨left', t', hm, ?_⟩
    intro hnone
    have hself := hm.eq_self hnone
    refine ⟨hself, ?_⟩
    rw [hself] at hplace
    obtain ⟨l, hl, hml⟩ := hplace m (List.mem_singleton_self m)
    apply mem_descendants_headD_of_shown hshown hl hml
  · intro hnone
    apply eq_self_of_shown hshown
    apply List.append_right_eq_self.1 hnone

/-- A rule that gives every name the text `b` and removes comments. -/
def tidying : Rule where
  name := "tidying"
  definition := ⟨"Renames and drops comments", []⟩
  kinds := [⟨"name"⟩, ⟨"comment"⟩]
  evaluate n _ := pure (if n.kind = ⟨"comment"⟩ then .remove else .replace (.token n.kind "b"))

/-- The list ` a# why;`. -/
def commentedList : Node :=
  .inner ⟨"list"⟩
    [(Node.token ⟨"name"⟩ "a").withLeading " ", .token ⟨"comment"⟩ "# why", .token ⟨";"⟩ ";"]

/-- The list ` b;`. -/
def tidiedList : Node :=
  .inner ⟨"list"⟩ [(Node.token ⟨"name"⟩ "b").withLeading " ", .token ⟨";"⟩ ";"]

/-- The pass over the list ends, and tidies it. -/
theorem exists_run_commentedList :
  ∃ levels j', run (.ofList [tidying]) ProjectIndex.empty.queries levels commentedList {}
    = some (tidiedList, j')
  := by
  have hname : (Registry.ofList [tidying]).wanted ⟨[.of commentedList], ProjectIndex.empty.queries⟩
      ((Node.token ⟨"name"⟩ "a").withLeading " ")
      = some ("tidying", .replace (.token ⟨"name"⟩ "b")) := rfl
  obtain ⟨t, ht⟩ : ∃ t, Shown (.ofList [tidying]) ProjectIndex.empty.queries .idle []
      commentedList [tidiedList] t :=
    ⟨_, .kept rfl (.cons (.replaced hname .nil)
      (.cons (.removed rfl) (.cons (.kept rfl .nil) .nil)))⟩
  obtain ⟨levels, h⟩ := (run_eq_some_iff (j := {})).2 ⟨_, t, ht, rfl, rfl⟩
  exact ⟨levels, _, h⟩

/-- A list in which one name is tidied, with comments around it. -/
theorem run_leaves_alone_commentedList :
  ∃ levels j', run (.ofList [tidying]) ProjectIndex.empty.queries levels commentedList {}
      = some (tidiedList, j')
    ∧ (∃ left stretches, Divided (.ofList [tidying]) ProjectIndex.empty.queries .idle []
        commentedList left stretches
      ∧ tidiedList = left.headD commentedList.clear
      ∧ Stretch.before stretches = commentedList.source
      ∧ Stretch.after stretches = tidiedList.source)
    ∧ (∀ outer m, Reaches (.ofList [tidying]) ProjectIndex.empty.queries [] commentedList outer m →
        ∃ left t, Shown (.ofList [tidying]) ProjectIndex.empty.queries .idle outer m left t
          ∧ (t.applications = [] → left = [m] ∧ m ∈ tidiedList.descendants))
    ∧ (j'.applications = [] → tidiedList = commentedList)
  := by
  obtain ⟨levels, j', h⟩ := exists_run_commentedList
  exact ⟨levels, j', h, run_leaves_alone h⟩

end Pass

end Amend
