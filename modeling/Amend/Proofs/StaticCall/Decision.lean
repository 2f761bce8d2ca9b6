import Amend.Proofs.Journal
import Amend.Proofs.Trees
import Amend.Rule.StaticCall
import Mathlib.Data.List.Forall2

/-!
# What the rule looks at

The rule decides on a call from the parts of the call and from the class that `$this` refers
to (`evaluate_value`).  The enclosing nodes matter through that class only, and two chains of
enclosing nodes give the same class when they have class bodies at the same places and the
same owners (`receiverClass_congr`).
-/

namespace Amend.StaticCall

/-- The parts of a call that the rule looks at. -/
structure Parts where
  object : Node
  name : Node
  arguments : Node

namespace Parts

/-- The parts of a call, if it has all of them. -/
def of? (call : Node) : Option Parts :=
  match call.childByField "object", call.childByField "name", call.childByField "arguments" with
  | some object, some name, some arguments => some ⟨object, name, arguments⟩
  | _, _, _ => none

/-- Whether the parts are those of a call of a plainly named method on `$this`. -/
def onThis (p : Parts) : Bool :=
  p.object.isVariable Php.variableName "$this" && (p.name.kind == Php.name && p.name.text != "")

/-- The call `self::method(arguments)` made of the parts of a call. -/
def toStatic (p : Parts) (call : Node) : Node :=
  staticCall call p.object p.name p.name.text p.arguments

/-- The `self` of the static call, which stands where the object stood. -/
def scope (p : Parts) : Node :=
  ((Node.inner Php.relativeScope [.token Php.selfKeyword "self"]).withField "scope").withLeading
    p.object.leading

/-- The `::` of the static call. -/
def operator (p : Parts) (call : Node) : Node :=
  (Node.token Php.scopeResolution "::").withLeading (arrowTrivia call p.object)

/-- The method name of the static call. -/
def method (p : Parts) : Node :=
  (((Node.token Php.name p.name.text).withField "name").withLeading p.name.leading).withTrailing
    p.name.trailing

theorem kind_scope (p : Parts) :
  p.scope.kind = Php.relativeScope
  := rfl

theorem kind_operator (p : Parts) (call : Node) :
  (p.operator call).kind = Php.scopeResolution
  := rfl

theorem kind_method (p : Parts) :
  p.method.kind = Php.name
  := rfl

/-- A static call has the scope, the operator, the method and the arguments. -/
theorem toStatic_eq (p : Parts) (call : Node) :
  p.toStatic call = .inner Php.scopedCall [p.scope, p.operator call, p.method, p.arguments]
  := rfl

/-- A static call reads `self::`, the method and the arguments. -/
theorem text_toStatic (p : Parts) (call : Node) :
  (p.toStatic call).text = "self::" ++ p.name.text ++ p.arguments.text
  := by
  have hscope : p.scope.text = "self" := by
    rw [scope, Node.withLeading, Node.text_withTag]
    rfl
  have hoperator : (p.operator call).text = "::" := rfl
  have hmethod : p.method.text = p.name.text := rfl
  rw [toStatic_eq, Node.inner, Node.text, Node.textAll, Node.textAll, Node.textAll, Node.textAll,
    Node.textAll, hscope, hoperator, hmethod]
  simp only [String.append_empty, ← String.append_assoc]
  rfl

theorem source_toStatic (p : Parts) (call : Node) :
  ((p.toStatic call).inheritPosition call).source
    = call.leading ++ p.object.leading ++ "self" ++ arrowTrivia call p.object ++ "::"
      ++ p.name.leading ++ p.name.text ++ p.name.trailing ++ p.arguments.source ++ call.trailing
  := by
  have hscope : p.scope.source = p.object.leading ++ "self" := by
    rw [scope, Node.withLeading, Node.source_withTag]
    change p.object.leading ++ "self" ++ "" = _
    rw [String.append_empty]
  have hoperator : (p.operator call).source = arrowTrivia call p.object ++ "::" := by
    change arrowTrivia call p.object ++ "::" ++ "" = _
    rw [String.append_empty]
  have hmethod : p.method.source = p.name.leading ++ p.name.text ++ p.name.trailing := rfl
  have hplaced : ((p.toStatic call).inheritPosition call).source
      = call.leading
        ++ (p.scope.source
          ++ ((p.operator call).source ++ (p.method.source ++ (p.arguments.source ++ ""))))
        ++ call.trailing := rfl
  rw [hplaced, hscope, hoperator, hmethod]
  simp only [String.append_assoc, String.append_empty]

theorem onThis_iff {p : Parts} :
  p.onThis = true
    ↔ p.object.isVariable Php.variableName "$this" = true ∧ p.name.kind = Php.name
      ∧ p.name.text ≠ ""
  := by
  rw [onThis, Bool.and_eq_true, Bool.and_eq_true, beq_iff_eq, bne_iff_ne]

end Parts

theorem of?_eq_some_iff {call : Node} {p : Parts} :
  Parts.of? call = some p
    ↔ call.childByField "object" = some p.object ∧ call.childByField "name" = some p.name
      ∧ call.childByField "arguments" = some p.arguments
  := by
  obtain ⟨object, name, arguments⟩ := p
  unfold Parts.of?
  split
  · rename_i ho hn ha
    simp [ho, hn, ha]
  · rename_i h
    constructor
    · intro hnone
      cases hnone
    · rintro ⟨ho, hn, ha⟩
      cases h _ _ _ ho hn ha

variable (options : Options) (queries : Queries)

/-- Whether a method is called statically on the class that `$this` refers to, if there is one:
the method is static and no assertion of a test case. -/
def callsStatically (receiver : Option String) (method : String) : Bool :=
  receiver.any fun declaration =>
    !(isAssertion options queries method declaration).value
      && queries.isStaticMember method declaration

/-- The parts of a call that the rule wants to rewrite. -/
def accepted? (receiver : Option String) (call : Node) : Option Parts :=
  (Parts.of? call).filter fun p => p.onThis && callsStatically options queries receiver p.name.text

/-- The parts of a node that a pass with the rule rewrites: it is a method call, and the rule
wants it. -/
def rewritten? (receiver : Option String) (n : Node) : Option Parts :=
  if n.kind = Php.memberCall then accepted? options queries receiver n else none

variable {options queries} in
/-- What it takes for a node to be rewritten. -/
theorem rewritten?_eq_some_iff {receiver : Option String} {n : Node} {p : Parts} :
  rewritten? options queries receiver n = some p
    ↔ n.kind = Php.memberCall ∧ Parts.of? n = some p ∧ p.onThis = true
      ∧ callsStatically options queries receiver p.name.text = true
  := by
  rw [rewritten?]
  split
  · simp [accepted?, Option.filter_eq_some_iff, *]
  · simp [*]

theorem staticName_eq (n : Node) :
  n.staticName [Php.name] = if n.kind == Php.name && n.text != "" then some n.text else none
  := by
  simp [Node.staticName]

/-- The rule's verdict on a call. -/
theorem evaluate_value (call : Node) (outer : List Ancestor) :
  (evaluate options call ⟨outer, queries⟩).value
    = match accepted? options queries (receiverClass outer) call with
      | some p => .replace (p.toStatic call)
      | none => .keep
  := by
  rw [evaluate, accepted?, Parts.of?]
  cases call.childByField "object" with
  | none => rfl
  | some object =>
    cases call.childByField "name" with
    | none => rfl
    | some name =>
      simp only [staticName_eq]
      by_cases hthis : object.isVariable Php.variableName "$this" = true
      case neg =>
        cases call.childByField "arguments" <;> simp [Parts.onThis, hthis, Option.filter_some]
      case pos =>
        by_cases hplain : (name.kind == Php.name && name.text != "") = true
        case neg =>
          rw [if_neg hplain]
          cases call.childByField "arguments" <;>
            simp only [Parts.onThis, hplain, Option.filter_some] <;> simp
        case pos =>
          rw [if_pos hthis, if_pos hplain]
          cases receiverClass outer with
          | none =>
            cases call.childByField "arguments" <;> simp [callsStatically, Option.filter_some]
          | some declaration =>
            have honThis (arguments : Node) : Parts.onThis ⟨object, name, arguments⟩ = true := by
              rw [Parts.onThis, hthis, hplain]
              rfl
            simp only [Logged.value_bind, decide]
            cases hassertion : (isAssertion options queries name.text declaration).value <;>
              cases hstatic : queries.isStaticMember name.text declaration <;>
              cases call.childByField "arguments" <;>
              simp_all [callsStatically, Parts.toStatic, Option.filter_some]

/-! ### The log -/

/-- A record that a question to the index leaves. -/
def IsIndexRecord (r : LogRecord) : Prop :=
  ∃ declaration ancestor, r ∈ (queries.isSubtype declaration ancestor).log

variable {options queries}

theorem isIndexRecord_of_isSubtypeOfAny {declaration : String} {bases : List String} {r : LogRecord}
    (h : r ∈ (isSubtypeOfAny queries declaration bases).log) :
  IsIndexRecord queries r
  := by
  induction bases with
  | nil => cases h
  | cons base bases ih =>
    rw [isSubtypeOfAny, Logged.log_bind, List.mem_append] at h
    rcases h with h | h
    · exact ⟨declaration, base, h⟩
    · split at h
      · cases h
      · apply ih h

/-- Asking whether a call is an assertion logs what the index logs. -/
theorem isIndexRecord_of_isAssertion {method declaration : String} {r : LogRecord}
    (h : r ∈ (isAssertion options queries method declaration).log) :
  IsIndexRecord queries r
  := by
  rw [isAssertion] at h
  split at h
  · apply isIndexRecord_of_isSubtypeOfAny h
  · cases h

/-- The rule logs nothing but what its questions to the index leave. -/
theorem isIndexRecord_of_evaluate {call : Node} {outer : List Ancestor} {r : LogRecord}
    (h : r ∈ (evaluate options call ⟨outer, queries⟩).log) :
  IsIndexRecord queries r
  := by
  rw [evaluate] at h
  split at h
  · split at h
    · split at h
      · rw [Logged.log_bind, List.mem_append] at h
        rcases h with h | h
        · apply isIndexRecord_of_isAssertion h
        · split at h <;> cases h
      · cases h
    · cases h
  · cases h

/-! ### The class that `$this` refers to -/

/-- Classes, traits and enums are class-like. -/
theorem isClassLike_of_mem_selfScopes {k : Kind} (h : k ∈ selfScopes) :
  Php.isClassLike k = true
  := by
  have hsubset : selfScopes ⊆ Php.classLike := by decide
  rw [Php.isClassLike, decide_eq_true_eq]
  apply hsubset h

/-- The name under which `$this` refers to a node, should the node own a class body. -/
def ownerName (a : Ancestor) : Option String := if a.kind ∈ selfScopes then a.name else none

/-- Two enclosing nodes that make no difference to what `$this` refers to. -/
structure Alike (a b : Ancestor) : Prop where
  body_iff : a.kind ∈ classBodies ↔ b.kind ∈ classBodies
  ownerName_eq : ownerName a = ownerName b

/-- An ancestor is alike to itself. -/
theorem Alike.refl (a : Ancestor) :
  Alike a a
  := ⟨Iff.rfl, rfl⟩

/-- Nodes that neither are class bodies nor can own one are alike. -/
theorem Alike.of_notMem {a b : Ancestor} (ha : a.kind ∉ classBodies ++ selfScopes)
    (hb : b.kind ∉ classBodies ++ selfScopes) :
  Alike a b
  := by
  rw [List.mem_append, not_or] at ha hb
  constructor
  · simp [ha.1, hb.1]
  · rw [ownerName, ownerName, if_neg ha.2, if_neg hb.2]

/-- A method call and the static call in its place are alike. -/
theorem alike_toStatic {call : Node} (h : call.kind = Php.memberCall) (p : Parts) :
  Alike (.of ((p.toStatic call).inheritPosition call)) (.of call)
  := by
  have hcall : (Ancestor.of call).kind = Php.memberCall := h
  have hstatic : (Ancestor.of ((p.toStatic call).inheritPosition call)).kind = Php.scopedCall := rfl
  apply Alike.of_notMem
  · rw [hstatic]
    decide
  · rw [hcall]
    decide

/-- The nearest class body tells the class, by the node around it. -/
theorem receiverClass_cons (a : Ancestor) (outer : List Ancestor) :
  receiverClass (a :: outer)
    = if a.kind ∈ classBodies then outer.head?.bind ownerName else receiverClass outer
  := by
  rw [receiverClass.eq_def]
  cases outer <;> rfl

/-- Chains of enclosing nodes that are alike one by one have `$this` refer to the same class. -/
theorem receiverClass_congr {as bs : List Ancestor} (h : List.Forall₂ Alike as bs) :
  receiverClass as = receiverClass bs
  := by
  induction h with
  | nil => rfl
  | @cons a b as bs hab hrest ih =>
    rw [receiverClass_cons, receiverClass_cons, ih]
    by_cases hbody : a.kind ∈ classBodies
    · rw [if_pos hbody, if_pos (hab.body_iff.1 hbody)]
      cases hrest with
      | nil => rfl
      | cons howner _ => apply howner.ownerName_eq
    · rw [if_neg hbody, if_neg (mt hab.body_iff.2 hbody)]

/-! ### An index and parts of calls for samples -/

/-- An index in which every method is static and no class extends another one. -/
def allStatic : Queries where
  isStaticMember _ _ := true
  isSubtype _ _ := pure false

/-- Where nothing extends anything, no call is an assertion. -/
theorem isAssertion_allStatic (options : Options) (method declaration : String) :
  (isAssertion options allStatic method declaration).value = false
  := by
  have hany (bases : List String) : (isSubtypeOfAny allStatic declaration bases).value = false := by
    induction bases with
    | nil => rfl
    | cons base bases ih => exact ih
  rw [isAssertion]
  split
  · apply hany
  · rfl

/-- Every method of a class is called statically. -/
theorem callsStatically_allStatic (options : Options) (declaration method : String) :
  callsStatically options allStatic (some declaration) method = true
  := by
  rw [callsStatically, Option.any_some, isAssertion_allStatic]
  rfl

/-- `$this` as the object of a call. -/
def thisObject : Node :=
  (Node.inner Php.variableName [.token ⟨"$"⟩ "$", .token Php.name "this"]).withField "object"

/-- The arguments of a call. -/
def argumentList (arguments : List Node) : Node :=
  (Node.inner ⟨"arguments"⟩ ([.token ⟨"("⟩ "("] ++ arguments ++ [.token ⟨")"⟩ ")"])).withField
    "arguments"

end Amend.StaticCall
