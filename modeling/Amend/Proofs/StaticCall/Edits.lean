import Amend.Proofs.StaticCall.Simultaneous
import Mathlib.Data.String.Basic

/-!
# What a pass with the rule changes in the text

An `Edit` is a piece of a text together with what becomes of it, and a list of edits tells how
one text becomes another: what is not changed stays where it is.  `Script` says which edits
the rule makes in a node: the object of a rewritten call becomes `self`, its arrow is left
out, `::` is put in front of the method name, and everything else is kept.  What becomes of
comments between the method name and the arguments is left open.
-/

namespace Amend

/-- A piece of a text, and what becomes of it. -/
inductive Edit where
  | keep (text : String)
  | change (old new : String)
  /-- Nothing is said of what becomes of the piece, except that nothing comes of nothing. -/
  | loose (text : String)

namespace Edit

/-- The text that the edits are made in. -/
def original : List Edit → String
  | [] => ""
  | .keep text :: edits => text ++ original edits
  | .change old _ :: edits => old ++ original edits
  | .loose text :: edits => text ++ original edits

/-- `Yields edits text`: the edits give `text`. -/
inductive Yields : List Edit → String → Prop
  | nil : Yields [] ""
  | keep {edits : List Edit} {rest : String} (text : String) (h : Yields edits rest) :
      Yields (.keep text :: edits) (text ++ rest)
  | change {edits : List Edit} {rest : String} (old new : String) (h : Yields edits rest) :
      Yields (.change old new :: edits) (new ++ rest)
  | loose {edits : List Edit} {rest text new : String} (hnew : text = "" → new = "")
      (h : Yields edits rest) :
      Yields (.loose text :: edits) (new ++ rest)

/-- The texts of edits stand one after the other. -/
theorem original_append (edits edits' : List Edit) :
  original (edits ++ edits') = original edits ++ original edits'
  := by
  induction edits with
  | nil => simp [original]
  | cons edit edits ih => cases edit <;> simp [original, ih, String.append_assoc]

/-- Edits one after the other give their texts one after the other. -/
theorem Yields.append {edits edits' : List Edit} {text text' : String} (h : Yields edits text)
    (h' : Yields edits' text') :
  Yields (edits ++ edits') (text ++ text')
  := by
  induction h with
  | nil => rwa [String.empty_append, List.nil_append]
  | keep text h ih =>
    rw [String.append_assoc]
    apply Yields.keep text ih
  | change old new h ih =>
    rw [String.append_assoc]
    apply Yields.change old new ih
  | loose hnew h ih =>
    rw [String.append_assoc]
    apply Yields.loose hnew ih

/-- Keeping a text gives the text. -/
theorem Yields.single (text : String) :
  Yields [.keep text] text
  := by
  have h := Yields.keep text .nil
  rwa [String.append_empty] at h

end Edit

theorem join_cons (text : String) (texts : List String) :
  String.join (text :: texts) = text ++ String.join texts
  := by
  rw [String.join_eq, String.join_eq, List.map_cons, List.flatten_cons, String.ofList_append,
    String.ofList_toList]

theorem join_append (texts texts' : List String) :
  String.join (texts ++ texts') = String.join texts ++ String.join texts'
  := by
  rw [String.join_eq, String.join_eq, String.join_eq, List.map_append, List.flatten_append,
    String.ofList_append]

namespace StaticCall

/-! ### Method calls -/

/-- The children of a method call: its object, the arrow, its name and its arguments, and what
else, comments as a rule, stands between two of these. -/
structure MethodCall (call : Node) where
  object : Node
  before : List Node
  arrow : Node
  after : List Node
  name : Node
  gap : List Node
  arguments : Node
  children_eq : call.children = object :: before ++ arrow :: after ++ name :: gap ++ [arguments]
  object_field : object.field = some "object"
  arrow_kind : arrow.kind = Php.memberAccess
  arrow_content : arrow.content = "->"
  name_field : name.field = some "name"
  /-- A plain name is one token. -/
  name_token : name.kind = Php.name → name.children = []
  arguments_field : arguments.field = some "arguments"
  others_kind : ∀ c ∈ before ++ after, c.kind ≠ Php.memberAccess
  others_field : ∀ c ∈ before ++ arrow :: after ++ gap, c.field = none

namespace MethodCall

variable {call : Node} (c : MethodCall call)

/-- The edits made in a call that is rewritten, given those made in its arguments. -/
def edits (below : List Edit) : List Edit :=
  [.keep call.leading,
    .keep c.object.leading, .change c.object.content "self", .keep c.object.trailing,
    .keep (Node.sourceAll c.before),
    .keep c.arrow.leading, .change "->" "", .keep c.arrow.trailing,
    .keep (Node.sourceAll c.after),
    .change "" "::", .keep c.name.source,
    .loose (Node.sourceAll c.gap)]
  ++ below ++ [.keep call.trailing]

/-- The object is found by its field. -/
theorem childByField_object :
  call.childByField "object" = some c.object
  := by
  apply List.find?_eq_some_iff_append.2
  refine ⟨beq_iff_eq.2 c.object_field, [], _, c.children_eq, ?_⟩
  intro n hn
  cases hn

/-- What stands before the method name does not fill its field. -/
theorem field_of_mem_head {n : Node} (h : n ∈ c.object :: c.before ++ c.arrow :: c.after) :
  (n.field == some "name") = false
  := by
  rw [List.cons_append, List.mem_cons] at h
  rcases h with rfl | h
  · rw [c.object_field]
    rfl
  · rw [c.others_field n (List.mem_append_left _ h)]
    rfl

/-- The method name is found by its field. -/
theorem childByField_name :
  call.childByField "name" = some c.name
  := by
  have hchildren := c.children_eq
  rw [List.append_assoc _ (c.name :: c.gap)] at hchildren
  apply List.find?_eq_some_iff_append.2
  refine ⟨beq_iff_eq.2 c.name_field, _, _, hchildren, ?_⟩
  intro n hn
  rw [c.field_of_mem_head hn]
  rfl

/-- The arguments are found by their field. -/
theorem childByField_arguments :
  call.childByField "arguments" = some c.arguments
  := by
  apply List.find?_eq_some_iff_append.2
  refine ⟨beq_iff_eq.2 c.arguments_field, _, [], c.children_eq, ?_⟩
  intro n hn
  have hothers := c.others_field n
  simp only [List.cons_append, List.mem_cons, List.mem_append] at hn hothers
  rcases hn with rfl | hn | rfl | hn
  · rw [c.object_field]
    rfl
  · rw [hothers (.inl hn)]
    rfl
  · rw [c.name_field]
    rfl
  · rw [hothers (.inr hn)]
    rfl

/-- Between object and name stand the arrow and what is around it. -/
theorem betweenObjectAndName_eq :
  betweenObjectAndName call = c.before ++ c.arrow :: c.after
  := by
  have hobject : call.children.findIdx (·.field == some "object") = 0 := by
    rw [c.children_eq]
    simp [List.findIdx_cons, c.object_field]
  have hname : call.children.findIdx (·.field == some "name")
      = (c.object :: c.before ++ c.arrow :: c.after).length := by
    rw [c.children_eq, List.append_assoc _ (c.name :: c.gap), List.findIdx_append, if_neg]
    · simp [List.findIdx_cons, c.name_field]
    · rw [List.findIdx_lt_length]
      rintro ⟨n, hn, hfield⟩
      rw [c.field_of_mem_head hn] at hfield
      cases hfield
  rw [betweenObjectAndName, hobject, hname, c.children_eq, List.append_assoc _ (c.name :: c.gap),
    List.take_left']
  · rfl
  · rfl

/-- All that stands around the arrow is kept, the arrow left out. -/
theorem arrowTrivia_eq :
  arrowTrivia call c.object
    = c.object.trailing ++ Node.sourceAll c.before ++ c.arrow.leading ++ c.arrow.trailing
      ++ Node.sourceAll c.after
  := by
  have hothers {ns : List Node} (h : ns ⊆ c.before ++ c.after) :
      String.join (ns.map withoutArrow) = Node.sourceAll ns := by
    induction ns with
    | nil => rfl
    | cons n ns ih =>
      obtain ⟨hn, hns⟩ := List.cons_subset.1 h
      rw [List.map_cons, join_cons, Node.sourceAll, ih hns, withoutArrow,
        if_neg (c.others_kind n hn)]
  rw [arrowTrivia, c.betweenObjectAndName_eq, List.map_append, List.map_cons, join_append,
    join_cons, hothers (List.subset_append_left _ _), hothers (List.subset_append_right _ _),
    withoutArrow, if_pos c.arrow_kind]
  simp only [String.append_assoc]

/-- The parts of a call that is rewritten are those of the call. -/
theorem eq_of_of?_eq_some {p : Parts} (h : Parts.of? call = some p) :
  p = ⟨c.object, c.name, c.arguments⟩
  := by
  have hparts : Parts.of? call = some ⟨c.object, c.name, c.arguments⟩ :=
    of?_eq_some_iff.2 ⟨c.childByField_object, c.childByField_name, c.childByField_arguments⟩
  apply Option.some.inj (h.symm.trans hparts)

/-- The edits of a call are made in the call as it stands. -/
theorem original_edits {below : List Edit} (hbelow : Edit.original below = c.arguments.source) :
  Edit.original (c.edits below) = call.source
  := by
  have hcontent : call.content = Node.sourceAll call.children := by
    apply Node.content_of_children_ne_nil
    rw [c.children_eq]
    apply List.cons_ne_nil
  rw [edits, Edit.original_append, Edit.original_append, hbelow, Node.source_eq call, hcontent,
    c.children_eq]
  simp only [Edit.original, Node.sourceAll_append, Node.sourceAll, Node.source_eq, c.arrow_content,
    String.append_assoc, String.empty_append, String.append_empty]

variable {options : Options} {queries : Queries} {receiver : Option String}

/-- The edits of a call give the static call. -/
theorem yields_edits {p : Parts} {left : Node} {below : List Edit}
    (h : rewritten? options queries receiver call = some p)
    (hbelow : Edit.Yields below left.source) :
  Edit.Yields (c.edits below)
    ((Parts.toStatic { p with arguments := left } call).inheritPosition call).source
  := by
  obtain ⟨-, hparts, hthis, -⟩ := rewritten?_eq_some_iff.1 h
  obtain rfl := c.eq_of_of?_eq_some hparts
  have hname : c.name.content = c.name.text :=
    Node.content_of_children_eq_nil (c.name_token (Parts.onThis_iff.1 hthis).2.1)
  have hgap : Node.sourceAll c.gap = "" → "" = "" := fun _ => rfl
  have hedits : Edit.Yields (c.edits below) _ :=
    .keep call.leading <|
    .keep c.object.leading <| .change c.object.content "self" <| .keep c.object.trailing <|
    .keep (Node.sourceAll c.before) <|
    .keep c.arrow.leading <| .change "->" "" <| .keep c.arrow.trailing <|
    .keep (Node.sourceAll c.after) <|
    .change "" "::" <| .keep c.name.source <|
    .loose hgap <| hbelow.append <| .single call.trailing
  rw [Parts.source_toStatic, c.arrowTrivia_eq]
  simp only [Node.source_eq c.name, hname, String.append_assoc, String.empty_append] at hedits ⊢
  exact hedits

end MethodCall

/-! ### Scripts -/

variable (options : Options) (queries : Queries)

mutual

/-- `Script outer n edits`: the edits that the rule makes in the node `n` inside the nodes
`outer`. -/
inductive Script : (outer : List Ancestor) → Node → List Edit → Prop
  | rewritten {outer : List Ancestor} {n : Node} {p : Parts} {below : List Edit}
      (call : MethodCall n)
      (h : rewritten? options queries (receiverClass outer) n = some p)
      (arguments : Script (.of n :: outer) call.arguments below) :
      Script outer n (call.edits below)
  | token {outer : List Ancestor} (tag : Tag) (text : String) :
      Script outer (.leaf tag text) [.keep (Node.leaf tag text).source]
  | kept {outer : List Ancestor} {tag : Tag} {children : List Node} {below : List Edit}
      (h : rewritten? options queries (receiverClass outer) (.branch tag children) = none)
      (inside : ScriptAll (.of (.branch tag children) :: outer) children below) :
      Script outer (.branch tag children) ([.keep tag.leading] ++ below ++ [.keep tag.trailing])

/-- `ScriptAll outer ns edits`: the edits that the rule makes in the nodes of a list. -/
inductive ScriptAll : (outer : List Ancestor) → List Node → List Edit → Prop
  | nil {outer : List Ancestor} : ScriptAll outer [] []
  | cons {outer : List Ancestor} {n : Node} {ns : List Node} {first others : List Edit}
      (head : Script outer n first) (tail : ScriptAll outer ns others) :
      ScriptAll outer (n :: ns) (first ++ others)

end

variable {options queries} {outer : List Ancestor} {n : Node} {ns : List Node}

/-- Edits that tell how a node becomes what a pass makes of it. -/
def Tells (options : Options) (queries : Queries) (outer : List Ancestor) (n : Node)
    (edits : List Edit) : Prop :=
  Script options queries outer n edits ∧ Edit.original edits = n.source
    ∧ Edit.Yields edits (amend options queries outer n).source

/-- If there are edits for each sibling, there are for all. -/
theorem exists_scriptAll (h : ∀ n ∈ ns, ∃ edits, Tells options queries outer n edits) :
  ∃ edits, ScriptAll options queries outer ns edits ∧ Edit.original edits = Node.sourceAll ns
    ∧ Edit.Yields edits (Node.sourceAll (ns.map (amend options queries outer)))
  := by
  induction ns with
  | nil => exact ⟨[], .nil, rfl, .nil⟩
  | cons n ns ih =>
    rw [List.forall_mem_cons] at h
    obtain ⟨first, hfirst, horiginal, hyields⟩ := h.1
    obtain ⟨others, hothers, horiginals, hyieldss⟩ := ih h.2
    use first ++ others, .cons hfirst hothers
    constructor
    · rw [Edit.original_append, horiginal, horiginals, Node.sourceAll]
    · apply hyields.append hyieldss

/-- The edits of the rule are made in the source of a node and give the source of what a pass
makes of it. -/
theorem exists_script
    (hcalls : ∀ m ∈ n.descendants, m.kind = Php.memberCall → Nonempty (MethodCall m)) :
  ∃ edits, Tells options queries outer n edits
  := by
  induction n generalizing outer with
  | leaf tag text =>
    use [.keep (Node.leaf tag text).source], .token tag text
    constructor
    · rw [Edit.original, Edit.original, String.append_empty]
    · rw [amend_leaf]
      apply Edit.Yields.single
  | branch tag children ih =>
    have hchild {c : Node} (hc : c ∈ children) (outer : List Ancestor) :
        ∃ edits, Tells options queries outer c edits := by
      apply ih c hc
      intro m hm
      apply hcalls m (Node.mem_descendants_of_mem_children hm hc)
    cases h : rewritten? options queries (receiverClass outer) (.branch tag children) with
    | some p =>
      obtain ⟨hkind, hparts, -⟩ := rewritten?_eq_some_iff.1 h
      obtain ⟨call⟩ := hcalls _ (Node.self_mem_descendants _) hkind
      obtain rfl := call.eq_of_of?_eq_some hparts
      obtain ⟨below, hscript, horiginal, hyields⟩ := hchild (arguments_mem_of_rewritten? h)
        (.of (.branch tag children) :: outer)
      use call.edits below, .rewritten call h hscript, call.original_edits horiginal
      rw [amend_of_some h]
      apply call.yields_edits h hyields
    | none =>
      obtain ⟨below, hscript, horiginal, hyields⟩ := exists_scriptAll fun c hc =>
        hchild hc (.of (.branch tag children) :: outer)
      use [.keep tag.leading] ++ below ++ [.keep tag.trailing], .kept h hscript
      constructor
      · rw [Edit.original_append, Edit.original_append, horiginal]
        simp only [Edit.original, String.append_empty]
        rfl
      · rw [amend_of_none h]
        apply ((Edit.Yields.single tag.leading).append hyields).append (.single tag.trailing)

/-- A pass with the rule prints the text of the tree with the edits of its script made in it. -/
theorem single_edits (options : Options) (queries : Queries) (tree : Node) (activity : Activity)
    (hcalls : ∀ n ∈ tree.descendants, n.kind = Php.memberCall → Nonempty (MethodCall n)) :
  ∃ outcome edits, (dispatcher options .single).applyAll? queries tree activity = some outcome
    ∧ Script options queries [] tree edits
    ∧ Edit.original edits = tree.source ∧ Edit.Yields edits outcome.tree.source
  := by
  obtain ⟨t, h⟩ := exists_adds options queries activity tree
  obtain ⟨edits, hscript, horiginal, hyields⟩ : ∃ edits, Tells options queries [] tree edits :=
    exists_script hcalls
  exact ⟨_, edits, h.applyAll?_single, hscript, horiginal, hyields⟩

/-- The call `$this-> /* a */ eat ()`, with something between the method name and the arguments. -/
def commentedCall (gap : List Node) : Node :=
  .inner Php.memberCall
    ([thisObject,
      .token Php.memberAccess "->",
      (Node.token ⟨"comment"⟩ "/* a */").withLeading " ",
      ((Node.token Php.name "eat").withField "name").withLeading " "]
    ++ gap ++ [(argumentList []).withLeading " "])

/-- A class `A` with the call in its body. -/
def commentedClass (gap : List Node) : Node :=
  .inner Php.classDeclaration
    [.token ⟨"class"⟩ "class", ((Node.token Php.name "A").withField "name").withLeading " ",
      (Node.inner Php.declarationList
        [.token ⟨"\x7b"⟩ "\x7b", commentedCall gap, .token ⟨"\x7d"⟩ "\x7d"]).withLeading " "]

/-- The comment `/* b */`. -/
def secondComment : Node := (Node.token ⟨"comment"⟩ "/* b */").withLeading " "

/-- The children of the call. -/
def commentedCallParts {gap : List Node} (hgap : ∀ n ∈ gap, n.field = none) :
    MethodCall (commentedCall gap) where
  object := thisObject
  before := []
  arrow := .token Php.memberAccess "->"
  after := [(Node.token ⟨"comment"⟩ "/* a */").withLeading " "]
  name := ((Node.token Php.name "eat").withField "name").withLeading " "
  gap := gap
  arguments := (argumentList []).withLeading " "
  children_eq := rfl
  object_field := rfl
  arrow_kind := rfl
  arrow_content := rfl
  name_field := rfl
  name_token _ := rfl
  arguments_field := rfl
  others_kind := by decide
  others_field := List.forall_mem_append.2 ⟨by decide, hgap⟩

/-- The call in the body is the only one in the class. -/
theorem methodCalls_commentedClass {gap : List Node} (hgap : ∀ n ∈ gap, n.field = none)
    (honly : ∀ n ∈ (commentedClass gap).preorder, n.kind = Php.memberCall → n = commentedCall gap) :
  ∀ n ∈ (commentedClass gap).descendants, n.kind = Php.memberCall → Nonempty (MethodCall n)
  := by
  intro n hn hkind
  rw [Node.descendants_eq_preorder] at hn
  rw [honly n hn hkind]
  exact ⟨commentedCallParts hgap⟩

/-- A call with comments on both sides of the method name. -/
theorem single_edits_commentedClass :
  (∀ n ∈ (commentedClass [secondComment]).descendants, n.kind = Php.memberCall →
    Nonempty (MethodCall n))
  ∧ ∃ outcome edits,
    (dispatcher {} .single).applyAll? allStatic (commentedClass [secondComment]) .idle
      = some outcome
    ∧ Script {} allStatic [] (commentedClass [secondComment]) edits
    ∧ Edit.original edits = (commentedClass [secondComment]).source
    ∧ Edit.Yields edits outcome.tree.source
  := by
  have hcalls : ∀ n ∈ (commentedClass [secondComment]).descendants, n.kind = Php.memberCall →
      Nonempty (MethodCall n) := methodCalls_commentedClass (by decide) (by decide)
  exact ⟨hcalls, single_edits _ _ _ _ hcalls⟩

/-- The arrow before the comment is left out, and `::` stands after it. -/
theorem source_amend_commentedCall {outer : List Ancestor} (h : receiverClass outer = some "A") :
  (amend {} allStatic outer (commentedCall [])).source = "self /* a */:: eat ()"
  := by
  let c := commentedCallParts (List.forall_mem_nil _)
  have hrewritten : rewritten? {} allStatic (receiverClass outer) (commentedCall [])
      = some ⟨c.object, c.name, c.arguments⟩ := by
    rw [h]
    apply rewritten?_eq_some_iff.2
    exact ⟨rfl, rfl, by decide, callsStatically_allStatic _ _ _⟩
  have harguments : amend {} allStatic (.of (commentedCall []) :: outer) c.arguments = c.arguments := by
    rw [amend_of_none (if_neg (by decide))]
    change c.arguments.withChildren [amend _ _ _ (.leaf _ _), amend _ _ _ (.leaf _ _)] = c.arguments
    rw [amend_leaf, amend_leaf]
    rfl
  rw [amend_of_some hrewritten, Parts.source_toStatic, harguments]
  decide

/-- The `::` does not take the place of the arrow: it comes after the comment that followed the
arrow. -/
theorem commentedClass_not_in_place :
  (∀ n ∈ (commentedClass []).descendants, n.kind = Php.memberCall → Nonempty (MethodCall n))
  ∧ (commentedClass []).source = "class A \x7b$this-> /* a */ eat ()\x7d"
  ∧ ∃ outcome, (dispatcher {} .single).applyAll? allStatic (commentedClass []) .idle = some outcome
    ∧ outcome.tree.source = "class A \x7bself /* a */:: eat ()\x7d"
    ∧ outcome.tree.source ≠ "class A \x7bself:: /* a */ eat ()\x7d"
  := by
  refine ⟨methodCalls_commentedClass (List.forall_mem_nil _) (by decide), by decide, ?_⟩
  obtain ⟨t, h⟩ := exists_adds {} allStatic .idle (commentedClass [])
  have hsource : (amend {} allStatic [] (commentedClass [])).source
      = "class A \x7bself /* a */:: eat ()\x7d" := by
    rw [amend_of_none (if_neg (by decide))]
    simp only [commentedClass, Node.withLeading, Node.withField, Node.inner, Node.token,
      Node.withTag, Node.children, List.map_cons, List.map_nil, amend_leaf]
    rw [amend_of_none (if_neg (by decide))]
    simp only [Node.children, List.map_cons, List.map_nil, amend_leaf, Node.withChildren,
      Node.source, Node.sourceAll]
    rw [source_amend_commentedCall rfl]
    decide
  refine ⟨_, h.applyAll?_single, hsource, ?_⟩
  rw [hsource]
  decide

end StaticCall

end Amend
