import Amend.Proofs.Glob.Caseless
import Amend.Proofs.Respelled
import Amend.Proofs.StaticCall.Meaning
import Amend.Proofs.StaticCall.Stable

/-!
# The rule in another spelling

Names may be spelled in another way everywhere at once: the called method, the classes around the
call, the declarations of the project and the options of the rule.  The rule then wants to rewrite
the same calls, and a rewritten call spells the method as the call did
(`evaluate_ignores_spelling`).
-/

namespace Amend

/-- The same enclosing node, the name that it declares in another spelling. -/
structure Ancestor.Respelled (a a' : Ancestor) : Prop where
  kind_eq : a'.kind = a.kind
  name : Option.Rel SameName a.name a'.name

namespace StaticCall

/-- The same options in another spelling. -/
structure Options.Respelled (options options' : Options) : Prop where
  testCaseClasses : List.Forall₂ SameName options.testCaseClasses options'.testCaseClasses
  assertionPattern : Text.Respelled options.assertionPattern options'.assertionPattern

/-- The same child of a call, or the name of the called method in other letters. -/
def RespelledChild (c c' : Node) : Prop :=
  c' = c ∨ c.field = some "name" ∧ c'.tag = c.tag ∧ Text.Respelled c.text c'.text

/-- The parts of a call whose method is spelled in other letters. -/
structure Parts.Respelled (p p' : Parts) : Prop where
  object_eq : p'.object = p.object
  kind_eq : p'.name.kind = p.name.kind
  text : Text.Respelled p.name.text p'.name.text

variable {options options' : Options} {index index' : ProjectIndex} {outer outer' : List Ancestor}
  {call : Node} {children : List Node} {p p' : Parts} {method method' name name' : String}
  {receiver receiver' : Option String}

/-! ### The class that `$this` refers to -/

/-- The owner of a class body is the same, in another spelling. -/
theorem rel_ownerName {a a' : Ancestor} (h : a.Respelled a') :
  Option.Rel SameName (ownerName a) (ownerName a')
  := by
  rw [ownerName, ownerName, h.kind_eq]
  split
  · exact h.name
  · exact .none

/-- The class that `$this` is taken for is the same, in another spelling. -/
theorem rel_receiverClass (h : List.Forall₂ Ancestor.Respelled outer outer') :
  Option.Rel SameName (receiverClass outer) (receiverClass outer')
  := by
  induction h with
  | nil => exact .none
  | cons ha hrest ih =>
    rw [receiverClass_cons, receiverClass_cons, ha.kind_eq]
    split
    · cases hrest with
      | nil => exact .none
      | cons howner _ => exact rel_ownerName howner
    · exact ih

/-! ### The parts of a call -/

/-- Nothing but the text of the child is spelled in another way. -/
theorem RespelledChild.tag_eq {c c' : Node} (h : RespelledChild c c') :
  c'.tag = c.tag
  := by
  obtain rfl | ⟨-, htag, -⟩ := h
  · rfl
  · exact htag

/-- The text of the child is the same but for its spelling. -/
theorem RespelledChild.text {c c' : Node} (h : RespelledChild c c') :
  Text.Respelled c.text c'.text
  := by
  obtain rfl | ⟨-, -, htext⟩ := h
  · apply Text.Respelled.refl
  · exact htext

/-- The call has the children that it is given. -/
theorem children_withChildren (h : List.Forall₂ RespelledChild call.children children) :
  (call.withChildren children).children = children
  := by
  cases call with
  | leaf tag text =>
    cases h
    rfl
  | branch tag cs => rfl

/-- Every part of the call is found in both spellings. -/
theorem rel_childByField (h : List.Forall₂ RespelledChild call.children children) (field : String) :
  Option.Rel RespelledChild (call.childByField field)
    ((call.withChildren children).childByField field)
  := by
  rw [Node.childByField, Node.childByField, children_withChildren h]
  apply forall₂_find? h
  intro c c' hc
  rw [Node.field, Node.field, hc.tag_eq]

/-- The other parts of the call are the same. -/
theorem childByField_eq (h : List.Forall₂ RespelledChild call.children children) {field : String}
    (hfield : field ≠ "name") :
  (call.withChildren children).childByField field = call.childByField field
  := by
  have hrel := rel_childByField h field
  cases hfound : call.childByField field with
  | none => exact eq_none_of_rel hrel hfound
  | some c =>
    obtain ⟨c', hfound', hc⟩ := exists_of_rel hrel hfound
    have hcfield := List.find?_some hfound
    rw [beq_iff_eq] at hcfield
    obtain rfl | ⟨hname, -, -⟩ := hc
    · exact hfound'
    · cases hfield (Option.some.inj (hcfield.symm.trans hname))

/-- A call has its parts in both spellings, and only the text of the method differs. -/
theorem rel_of? (h : List.Forall₂ RespelledChild call.children children) :
  Option.Rel Parts.Respelled (Parts.of? call) (Parts.of? (call.withChildren children))
  := by
  have hobject : (call.withChildren children).childByField "object" = call.childByField "object" :=
    childByField_eq h (by decide)
  have harguments : (call.withChildren children).childByField "arguments"
      = call.childByField "arguments" := childByField_eq h (by decide)
  have hname := rel_childByField h "name"
  rw [Parts.of?, Parts.of?, hobject, harguments]
  generalize call.childByField "name" = o, (call.withChildren children).childByField "name" = o'
    at hname
  cases call.childByField "object" with
  | none => exact .none
  | some object =>
    cases hname with
    | none => exact .none
    | some hc =>
      cases call.childByField "arguments" with
      | none => exact .none
      | some arguments => exact .some ⟨rfl, congrArg Tag.kind hc.tag_eq, hc.text⟩

/-- Whether a call is one on `$this` does not depend on the spelling of the method. -/
theorem Parts.Respelled.onThis_eq (h : p.Respelled p') :
  p'.onThis = p.onThis
  := by
  rw [Bool.eq_iff_iff, onThis_iff, onThis_iff, h.object_eq, h.kind_eq, ne_eq, ne_eq,
    h.text.eq_empty_iff]

/-! ### The decision -/

/-- A class is a test case when one of the bases is above it. -/
theorem value_isSubtypeOfAny (queries : Queries) (declaration : String) (bases : List String) :
  (isSubtypeOfAny queries declaration bases).value
    = bases.any fun base => (queries.isSubtype declaration base).value
  := by
  rw [Bool.eq_iff_iff, value_isSubtypeOfAny_iff, List.any_eq_true]

/-- Whether a call is an assertion does not depend on the spelling. -/
theorem value_isAssertion_eq (hoptions : options.Respelled options')
    (hset : '[' ∉ options.assertionPattern.toList) (hindex : index.Respelled index')
    (hmethod : Text.Respelled method method') (hname : SameName name name') :
  (isAssertion options' index'.queries method' name').value
    = (isAssertion options index.queries method name).value
  := by
  have hany : (isSubtypeOfAny index'.queries name' options'.testCaseClasses).value
      = (isSubtypeOfAny index.queries name options.testCaseClasses).value := by
    rw [value_isSubtypeOfAny, value_isSubtypeOfAny]
    apply forall₂_any hoptions.testCaseClasses
    intro base base' hbase
    apply hindex.value_isSubtype_eq hname hbase
  rw [isAssertion, isAssertion, matchesName_congr hmethod hoptions.assertionPattern hset]
  split
  · exact hany
  · rfl

/-- Whether a static method is called does not depend on the spelling. -/
theorem callsStatically_eq (hoptions : options.Respelled options')
    (hset : '[' ∉ options.assertionPattern.toList) (hindex : index.Respelled index')
    (hreceiver : Option.Rel SameName receiver receiver') (hmethod : Text.Respelled method method') :
  callsStatically options' index'.queries receiver' method'
    = callsStatically options index.queries receiver method
  := by
  apply rel_any_eq hreceiver
  intro declaration declaration' hname
  have hstatic : index'.queries.isStaticMember method' declaration'
      = index.queries.isStaticMember method declaration :=
    hindex.isStaticMember_eq hmethod hname
  rw [value_isAssertion_eq hoptions hset hindex hmethod hname, hstatic]

/-- In another spelling the rule accepts the same calls. -/
theorem isSome_accepted?_eq (hoptions : options.Respelled options')
    (hset : '[' ∉ options.assertionPattern.toList) (hindex : index.Respelled index')
    (houter : List.Forall₂ Ancestor.Respelled outer outer')
    (hcall : List.Forall₂ RespelledChild call.children children) :
  (accepted? options' index'.queries (receiverClass outer') (call.withChildren children)).isSome
    = (accepted? options index.queries (receiverClass outer) call).isSome
  := by
  have hreceiver := rel_receiverClass houter
  rw [accepted?, accepted?, Option.isSome_filter, Option.isSome_filter]
  apply rel_any_eq (rel_of? hcall)
  intro p p' hp
  rw [hp.onThis_eq, callsStatically_eq hoptions hset hindex hreceiver hp.text]

/-- The rule asks for a replacement when it accepts the call. -/
theorem replaces_iff {queries : Queries} :
  (∃ new, (evaluate options call ⟨outer, queries⟩).value = .replace new)
    ↔ (accepted? options queries (receiverClass outer) call).isSome = true
  := by
  rw [evaluate_value]
  cases accepted? options queries (receiverClass outer) call <;> simp

/-- A static call spells the method as the call did. -/
theorem method_of_replace {context : Context} {new : Node}
    (h : (evaluate options call context).value = .replace new) :
  ∃ name method, call.childByField "name" = some name ∧ new.childByField "name" = some method
    ∧ method.kind = Php.name ∧ method.tokenText = some name.text
  := by
  obtain ⟨outer, queries⟩ := context
  have hvalue := (evaluate_value options queries call outer).symm.trans h
  cases haccepted : accepted? options queries (receiverClass outer) call with
  | none =>
    rw [haccepted] at hvalue
    cases hvalue
  | some p =>
    rw [haccepted] at hvalue
    obtain rfl := Verdict.replace.inj hvalue
    obtain ⟨hparts, -⟩ := Option.filter_eq_some_iff.1 haccepted
    exact ⟨p.name, p.method, (of?_eq_some_iff.1 hparts).2.1, rfl, p.kind_method, rfl⟩

/-- Names may be spelled in another way: in the call, around it, in the declarations that were
inserted into the index, and in the options, where the pattern has no sets.  The rule asks for a
replacement or does not, as before, and the replacement has the method spelled as in the call. -/
theorem evaluate_ignores_spelling :
  (∀ (options options' : Options) (ds ds' : List Declaration) (outer outer' : List Ancestor)
      (call : Node) (children : List Node),
    options.Respelled options' → '[' ∉ options.assertionPattern.toList →
    List.Forall₂ Declaration.Respelled ds ds' → List.Forall₂ Ancestor.Respelled outer outer' →
    List.Forall₂ RespelledChild call.children children →
      ((∃ new, (evaluate options call
          ⟨outer, (ProjectIndex.empty.insertAll ds).value.queries⟩).value = .replace new)
        ↔ ∃ new, (evaluate options' (call.withChildren children)
          ⟨outer', (ProjectIndex.empty.insertAll ds').value.queries⟩).value = .replace new))
  ∧ ∀ options call context new, (evaluate options call context).value = .replace new →
    ∃ name method, call.childByField "name" = some name ∧ new.childByField "name" = some method
      ∧ method.kind = Php.name ∧ method.tokenText = some name.text
  := by
  constructor
  · intro options options' ds ds' outer outer' call children hoptions hset hds houter hcall
    have hindex : (ProjectIndex.empty.insertAll ds).value.Respelled
        (ProjectIndex.empty.insertAll ds').value :=
      ProjectIndex.respelled_empty.insertAll hds
    rw [replaces_iff, replaces_iff, isSome_accepted?_eq hoptions hset hindex houter hcall]
  · intro options call context new h
    apply method_of_replace h

/-! ### A call in two spellings -/

/-- A class that has a static method from its parent. -/
def menuClasses : List Declaration :=
  [{ name := "App\\Menu", parent := some "Page", traits := ["Counts"], members := [⟨"run", false⟩] },
    { name := "Page", members := [⟨"eat", true⟩] }]

/-- The same classes, with capitals and small letters in other places, and with backslashes. -/
def shoutedMenuClasses : List Declaration :=
  [{ name := "\\APP\\menu", parent := some "PAGE", traits := ["\\counts"],
      members := [⟨"Run", false⟩] },
    { name := "\\page", members := [⟨"EAT", true⟩] }]

/-- The classes are the same, in another spelling. -/
theorem respelled_menuClasses :
  List.Forall₂ Declaration.Respelled menuClasses shoutedMenuClasses
  := by
  have hparent : SameName "Page" "PAGE" := by decide
  have htrait : SameName "Counts" "\\counts" := by decide
  have hrun : Text.Respelled "run" "Run" := by decide
  have heat : Text.Respelled "eat" "EAT" := by decide
  refine .cons ⟨?_, .some hparent, .cons htrait .nil, .cons ⟨hrun, rfl⟩ .nil⟩
    (.cons ⟨?_, .none, .nil, .cons ⟨heat, rfl⟩ .nil⟩ .nil)
  · decide
  · decide

/-- The nodes around a call in the body of a class. -/
def inClass (name : String) : List Ancestor :=
  [⟨Php.declarationList, none⟩, ⟨Php.classDeclaration, some name⟩]

/-- The call of `eat` is replaced. -/
theorem replaces_eat :
  ∃ new, (evaluate {} (thisCall "eat" [])
    ⟨inClass "App\\Menu", (ProjectIndex.empty.insertAll menuClasses).value.queries⟩).value
      = .replace new
  := by
  have hmatches : matchesName "eat" "assert*" = false := by cbv
  have hstatic : (ProjectIndex.empty.insertAll menuClasses).value.isStaticMember "eat" "App\\Menu"
      = true := by
    cbv
  let index := (ProjectIndex.empty.insertAll menuClasses).value
  have hassertion : (isAssertion {} index.queries "eat" "App\\Menu").value = false := by
    rw [isAssertion, hmatches]
    rfl
  have hcalls : callsStatically {} index.queries (some "App\\Menu") "eat" = true := by
    rw [callsStatically, Option.any_some, hassertion]
    exact hstatic
  have hparts : Parts.of? (thisCall "eat" [])
      = some ⟨thisObject, (Node.token Php.name "eat").withField "name", argumentList []⟩ := rfl
  rw [replaces_iff, accepted?, hparts, Option.isSome_filter, Option.any_some, Bool.and_eq_true]
  exact ⟨by decide, hcalls⟩

/-- A call of `eat` in its class is replaced, and so is one that is spelled in another way. -/
theorem evaluate_ignores_spelling_menuClasses :
  (∃ new, (evaluate {} (thisCall "eat" [])
    ⟨inClass "App\\Menu", (ProjectIndex.empty.insertAll menuClasses).value.queries⟩).value
      = .replace new)
  ∧ ∃ new, (evaluate ⟨["\\phpunit\\framework\\TESTCASE"], "Assert*"⟩ (thisCall "EAT" [])
    ⟨inClass "\\app\\MENU", (ProjectIndex.empty.insertAll shoutedMenuClasses).value.queries⟩).value
      = .replace new
  := by
  have hclass : SameName "PHPUnit\\Framework\\TestCase" "\\phpunit\\framework\\TESTCASE" := by
    decide
  have hpattern : Text.Respelled "assert*" "Assert*" := by decide
  have howner : SameName "App\\Menu" "\\app\\MENU" := by decide
  have hmethod : Text.Respelled "eat" "EAT" := by decide
  have hiff := evaluate_ignores_spelling.1 {} ⟨["\\phpunit\\framework\\TESTCASE"], "Assert*"⟩
    menuClasses shoutedMenuClasses (inClass "App\\Menu") (inClass "\\app\\MENU") (thisCall "eat" [])
    (thisCall "EAT" []).children ⟨.cons hclass .nil, hpattern⟩ (by decide) respelled_menuClasses
    (.cons ⟨rfl, .none⟩ (.cons ⟨rfl, .some howner⟩ .nil))
    (.cons (.inl rfl) (.cons (.inl rfl) (.cons (.inr ⟨rfl, rfl, hmethod⟩) (.cons (.inl rfl) .nil))))
  exact ⟨replaces_eat, hiff.1 replaces_eat⟩

end StaticCall

end Amend
