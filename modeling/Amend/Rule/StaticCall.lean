import Amend.Php.Kinds
import Amend.Rule.Basic
import Amend.Rule.Name

/-!
# Static methods called on `$this`

The rule replaces a call `$this->m(…)` of a static method by `self::m(…)`.  Blanks and
comments of the call stay where they are.  Assertion methods of test cases are left alone,
since they are called on `$this` by custom although they are static.
-/

namespace Amend.StaticCall

def ruleName : String := "this_call_on_static_method_to_static_call"

/-- The options of the rule. -/
structure Options where
  /-- Classes whose subclasses are test cases. -/
  testCaseClasses : List String := ["PHPUnit\\Framework\\TestCase"]
  /-- Which methods of test cases are assertions. -/
  assertionPattern : String := "assert*"
deriving DecidableEq, Repr

/-- The declarations that `$this` can refer to. -/
def selfScopes : List Kind := [Php.classDeclaration, Php.traitDeclaration, Php.enumDeclaration]

/-- The bodies of declarations. -/
def classBodies : List Kind := [Php.declarationList, Php.enumDeclarationList]

/-- The name of the declaration that `$this` refers to, from the enclosing nodes, nearest
first: it owns the nearest class body.  The owner of an anonymous body has no name, so
that no outer class is taken for it. -/
def receiverClass : List Ancestor → Option String
  | [] => none
  | a :: outer =>
    if a.kind ∈ classBodies then
      match outer with
      | owner :: _ => if owner.kind ∈ selfScopes then owner.name else none
      | [] => none
    else receiverClass outer

/-- Whether one of the classes is a supertype; they are asked in order up to the first. -/
def isSubtypeOfAny (queries : Queries) (declaration : String) : List String → Logged Bool
  | [] => pure false
  | base :: bases => do
    if ← queries.isSubtype declaration base then
      return true
    else
      isSubtypeOfAny queries declaration bases

/-- Whether a method is an assertion of a test case. -/
def isAssertion (options : Options) (queries : Queries) (method declaration : String) : Logged Bool :=
  if matchesName method options.assertionPattern then
    isSubtypeOfAny queries declaration options.testCaseClasses
  else pure false

/-- What a child of a call prints when the arrow token itself is left out. -/
def withoutArrow (n : Node) : String :=
  if n.kind = Php.memberAccess then n.leading ++ n.trailing else n.source

/-- The children of a call after its object and before its method name. -/
def betweenObjectAndName (call : Node) : List Node :=
  (call.children.take (call.children.findIdx (·.field == some "name"))).drop
    (call.children.findIdx (·.field == some "object") + 1)

/-- What stands between the object and the method name of a call, the arrow left out. -/
def arrowTrivia (call object : Node) : String :=
  object.trailing ++ String.join ((betweenObjectAndName call).map withoutArrow)

/-- The call `self::method(arguments)` with the trivia of the call it stands for. -/
def staticCall (call object name : Node) (method : String) (arguments : Node) : Node :=
  .inner Php.scopedCall
    [((Node.inner Php.relativeScope [.token Php.selfKeyword "self"]).withField "scope").withLeading
        object.leading,
      (Node.token Php.scopeResolution "::").withLeading (arrowTrivia call object),
      (((Node.token Php.name method).withField "name").withLeading name.leading).withTrailing
        name.trailing,
      arguments]

/-- Decide on a call whose parts and receiver are known. -/
def decide (call object name : Node) (method declaration : String) (queries : Queries) : Verdict :=
  match call.childByField "arguments" with
  | none => .keep
  | some arguments =>
    if queries.isStaticMember method declaration then
      .replace (staticCall call object name method arguments)
    else .keep

/-- The verdict on a call. -/
def evaluate (options : Options) (call : Node) (context : Context) : Logged Verdict :=
  match call.childByField "object", call.childByField "name" with
  | some object, some name =>
    if object.isVariable Php.variableName "$this" then
      match name.staticName [Php.name], receiverClass context.ancestors with
      | some method, some declaration => do
        if ← isAssertion options context.queries method declaration then
          return .keep
        else
          return decide call object name method declaration context.queries
      | _, _ => pure .keep
    else pure .keep
  | _, _ => pure .keep

def definition : Definition where
  description := "Changes $this->call() of a static method into a self::call() static call"
  samples := [
    { before :=
        "class SomeClass\n\x7b\n    public function run()\n    \x7b\n        $this->eat();\n    \x7d\n\n"
          ++ "    public static function eat()\n    \x7b\n    \x7d\n\x7d\n"
      after :=
        "class SomeClass\n\x7b\n    public function run()\n    \x7b\n        self::eat();\n    \x7d\n\n"
          ++ "    public static function eat()\n    \x7b\n    \x7d\n\x7d\n" }]

/-- The rule with its options. -/
def rule (options : Options) : Rule where
  name := ruleName
  definition := definition
  kinds := [Php.memberCall]
  evaluate := evaluate options

end Amend.StaticCall
