import Amend.Proofs.Project
import Amend.Proofs.StaticCall.Verdicts

/-!
# What the rule means for a project

With the index of a whole project at hand, a call on `$this` is rewritten exactly when it means a
static method of the class, trait or enum whose body encloses it nearest (`MeansStatic`): the
first declaration with such a method, in a tour through the declaration, its traits and its
parent, has it static, and the call is no assertion of a test case (`rewrites_iff_meansStatic`).
-/

namespace Amend.StaticCall

/-- Inside the nodes of `path`, nearest first, `$this` refers to what `C` declares: the nearest
class body among them belongs to a class, trait or enum, which has a name. -/
def RefersTo (path : List Node) (C : Declaration) : Prop :=
  ∃ inner body owner outer, path = inner ++ body :: owner :: outer
    ∧ (∀ n ∈ inner, n.kind ∉ classBodies) ∧ body.kind ∈ classBodies
    ∧ owner.kind ∈ selfScopes ∧ Php.declarationOf owner = some C

/-- A method looked up in `C`, in its traits in order with all they lead to, and in its parent
likewise, is static where it is found first. -/
def FoundStatic (declared : String → Option Declaration) (C : Declaration) (method : String) :
    Prop :=
  ∃ order visited m,
    TourAll declared [key C.name] (C.traits.map key ++ (C.parent.map key).toList) order visited
    ∧ (C :: order).findSome? (·.member? method) = some m ∧ m.isStatic = true

/-- A method of `C` is called an assertion, and `C` is a test case. -/
def IsTestAssertion (options : Options) (declared : String → Option Declaration) (C : Declaration)
    (method : String) : Prop :=
  matchesName method options.assertionPattern = true
    ∧ ∃ base ∈ options.testCaseClasses, Inherits declared (key C.name) (key base)

/-- Inside the nodes of `path`, a call of `method` on `$this` means a static method. -/
def MeansStatic (options : Options) (declared : String → Option Declaration) (path : List Node)
    (method : String) : Prop :=
  ∃ C, RefersTo path C ∧ FoundStatic declared C method
    ∧ ¬ IsTestAssertion options declared C method

variable {options : Options} {queries : Queries} {path path' : List Node} {n m call : Node}
  {C : Declaration} {p : Parts} {method name : String}

/-! ### The class that `$this` refers to -/

/-- The owner of a class body has a name if it is one that `self` may stand for. -/
theorem ownerName_of (owner : Node) :
  ownerName (.of owner) = if owner.kind ∈ selfScopes then owner.declaredName else none
  := rfl

/-- The owner of a class body is known by the name that it declares. -/
theorem ownerName_eq_some_iff {owner : Node} :
  ownerName (.of owner) = some name
    ↔ owner.kind ∈ selfScopes ∧ ∃ C, Php.declarationOf owner = some C ∧ C.name = name
  := by
  rw [ownerName_of]
  split
  · rename_i hscope
    rw [Php.declarationOf, if_pos (isClassLike_of_mem_selfScopes hscope)]
    cases owner.declaredName <;> simp [hscope]
  · simp [*]

/-- A class body right inside the node that owns it. -/
theorem refersTo_cons_of_mem (h : n.kind ∈ classBodies) :
  RefersTo (n :: path) C
    ↔ ∃ owner outer, path = owner :: outer ∧ owner.kind ∈ selfScopes
      ∧ Php.declarationOf owner = some C
  := by
  constructor
  · rintro ⟨_ | ⟨m, inner⟩, body, owner, outer, hpath, hinner, hbody, hscope, hC⟩
    · obtain ⟨-, hpath⟩ := List.cons.inj hpath
      exact ⟨owner, outer, hpath, hscope, hC⟩
    · obtain ⟨rfl, -⟩ := List.cons.inj hpath
      cases hinner n List.mem_cons_self h
  · rintro ⟨owner, outer, rfl, hscope, hC⟩
    exact ⟨[], n, owner, outer, rfl, by simp, h, hscope, hC⟩

/-- A node that is no class body makes no difference. -/
theorem refersTo_cons_of_notMem (h : n.kind ∉ classBodies) :
  RefersTo (n :: path) C ↔ RefersTo path C
  := by
  constructor
  · rintro ⟨_ | ⟨m, inner⟩, body, owner, outer, hpath, hinner, hbody, howner⟩
    · obtain ⟨rfl, -⟩ := List.cons.inj hpath
      cases h hbody
    · obtain ⟨rfl, hrest⟩ := List.cons.inj hpath
      obtain ⟨-, hinner⟩ := List.forall_mem_cons.1 hinner
      exact ⟨inner, body, owner, outer, hrest, hinner, hbody, howner⟩
  · rintro ⟨inner, body, owner, outer, rfl, hinner, hbody, howner⟩
    exact ⟨n :: inner, body, owner, outer, rfl, List.forall_mem_cons.2 ⟨h, hinner⟩, hbody, howner⟩

/-- The class that `$this` is taken for is the one that it refers to. -/
theorem receiverClass_eq_some_iff :
  receiverClass (path.map .of) = some name ↔ ∃ C, RefersTo path C ∧ C.name = name
  := by
  induction path with
  | nil =>
    apply iff_of_false
    · rintro ⟨⟩
    · rintro ⟨C, ⟨inner, body, owner, outer, hpath, -⟩, -⟩
      cases (List.append_eq_nil_iff.1 hpath.symm).2
  | cons n path ih =>
    have hkind : (Ancestor.of n).kind = n.kind := rfl
    rw [List.map_cons, receiverClass_cons, hkind]
    by_cases hbody : n.kind ∈ classBodies
    · rw [if_pos hbody]
      simp only [refersTo_cons_of_mem hbody]
      cases path with
      | nil => simp
      | cons owner outer =>
        rw [List.map_cons, List.head?_cons, Option.bind_some, ownerName_eq_some_iff]
        constructor
        · rintro ⟨hscope, C, hC, hname⟩
          exact ⟨C, ⟨owner, outer, rfl, hscope, hC⟩, hname⟩
        · rintro ⟨C, ⟨_, _, ⟨⟩, hscope, hC⟩, hname⟩
          exact ⟨hscope, C, hC, hname⟩
    · rw [if_neg hbody, ih]
      simp only [refersTo_cons_of_notMem hbody]

/-! ### The decision on a call -/

/-- A class is a test case when it extends one of the bases. -/
theorem value_isSubtypeOfAny_iff {declaration : String} {bases : List String} :
  (isSubtypeOfAny queries declaration bases).value = true
    ↔ ∃ base ∈ bases, (queries.isSubtype declaration base).value = true
  := by
  induction bases with
  | nil => simp [isSubtypeOfAny]
  | cons base bases ih =>
    rw [isSubtypeOfAny, Logged.value_bind, List.exists_mem_cons_iff, ← ih]
    cases (queries.isSubtype declaration base).value <;> simp

/-- A call is taken for an assertion when it is one of a test case. -/
theorem value_isAssertion_iff (index : ProjectIndex) :
  (isAssertion options index.queries method C.name).value = true
    ↔ IsTestAssertion options index.atKey? C method
  := by
  have hsubtype (base : String) : (index.queries.isSubtype C.name base).value = true
      ↔ Inherits index.atKey? (key C.name) (key base) := ProjectIndex.value_isSubtype_iff
  rw [isAssertion, IsTestAssertion]
  by_cases hmatches : matchesName method options.assertionPattern = true
  · rw [if_pos hmatches, value_isSubtypeOfAny_iff]
    simp only [hsubtype, hmatches, true_and]
  · rw [if_neg hmatches]
    simp [hmatches]

/-- A method is called statically on the class that `$this` refers to when a static method is
meant. -/
theorem callsStatically_iff {index : ProjectIndex}
    (hknown : ∀ C, RefersTo path C → index.atKey? (key C.name) = some C) :
  callsStatically options index.queries (receiverClass (path.map .of)) method = true
    ↔ MeansStatic options index.atKey? path method
  := by
  have hdecides {C : Declaration} (hC : RefersTo path C) :
      (!(isAssertion options index.queries method C.name).value
          && index.queries.isStaticMember method C.name) = true
        ↔ FoundStatic index.atKey? C method ∧ ¬ IsTestAssertion options index.atKey? C method := by
    have hstatic : index.queries.isStaticMember method C.name = true
        ↔ FoundStatic index.atKey? C method := ProjectIndex.isStaticMember_iff (hknown C hC)
    rw [Bool.and_eq_true, Bool.not_eq_true', ← Bool.not_eq_true, value_isAssertion_iff, hstatic,
      and_comm]
  rw [callsStatically, Option.any_eq_true]
  constructor
  · rintro ⟨name, hname, hcalls⟩
    obtain ⟨C, hC, rfl⟩ := receiverClass_eq_some_iff.1 hname
    exact ⟨C, hC, (hdecides hC).1 hcalls⟩
  · rintro ⟨C, hC, hmeans⟩
    exact ⟨C.name, receiverClass_eq_some_iff.2 ⟨C, hC, rfl⟩, (hdecides hC).2 hmeans⟩

/-- What it takes for the rule to replace a call on `$this`. -/
theorem exists_replace_iff {index : ProjectIndex}
    (hknown : ∀ C, RefersTo path C → index.atKey? (key C.name) = some C)
    (hkind : call.kind = Php.memberCall) (hparts : Parts.of? call = some p)
    (hthis : p.object.isVariable Php.variableName "$this" = true) :
  (∃ new, verdict options index.queries path call = .replace new)
    ↔ p.name.kind = Php.name ∧ p.name.text ≠ ""
      ∧ MeansStatic options index.atKey? path p.name.text
  := by
  have hrewritten : (∃ new, verdict options index.queries path call = .replace new)
      ↔ rewritten? options index.queries (receiverClass (path.map .of)) call = some p := by
    constructor
    · rintro ⟨new, hnew⟩
      rw [verdict_eq] at hnew
      cases hp : rewritten? options index.queries (receiverClass (path.map .of)) call with
      | none =>
        rw [hp] at hnew
        cases hnew
      | some q => rw [← hparts, (rewritten?_eq_some_iff.1 hp).2.1]
    · intro hp
      exact ⟨_, verdict_of_some hp⟩
  rw [hrewritten, rewritten?_eq_some_iff, Parts.onThis_iff, callsStatically_iff hknown]
  simp only [hkind, hparts, hthis, true_and, and_assoc]

/-! ### A project -/

/-- The nodes around a node that stands in a tree belong to the tree. -/
theorem Stands.mem_descendants (h : Stands options queries path n path' m) :
  ∀ a ∈ path', a ∈ path ∨ a ∈ n.descendants
  := by
  have hdown {path : List Node} {n c a : Node} (hc : c ∈ n.children)
      (ha : a ∈ n :: path ∨ a ∈ c.descendants) : a ∈ path ∨ a ∈ n.descendants := by
    obtain ha | ha := ha
    · obtain rfl | ha := List.mem_cons.1 ha
      · exact .inr (Node.self_mem_descendants _)
      · exact .inl ha
    · exact .inr (Node.mem_descendants_of_mem_children ha hc)
  induction h with
  | here =>
    intro a ha
    exact .inl ha
  | child _ hmem _ ih =>
    intro a ha
    apply hdown hmem (ih a ha)
  | argument _ hfield _ ih =>
    intro a ha
    apply hdown (List.mem_of_find?_eq_some hfield) (ih a ha)

/-- What `$this` refers to in a file of a project is a declaration of the project. -/
theorem mem_declarations_of_refersTo {files : List Run.ParsedFile} {f : Run.ParsedFile}
    (hf : f ∈ files) (hstands : Stands options queries [] f.unit.tree path call)
    (hC : RefersTo path C) :
  C ∈ Run.declarations files
  := by
  obtain ⟨inner, body, owner, outer, rfl, -, -, -, howner⟩ := hC
  have hmem : owner ∈ f.unit.tree.descendants := by
    have howner' : owner ∈ inner ++ body :: owner :: outer := by simp
    obtain hnil | hmem := hstands.mem_descendants owner howner'
    · cases hnil
    · exact hmem
  apply List.mem_flatMap.2
  use f, hf
  rw [← Run.declarationsOf_unit]
  apply List.mem_filterMap.2 ⟨owner, hmem, howner⟩

/-- With the index of a project no two declarations of which have one key, a pass with the rule
over a file of the project ends.  It rewrites a call on `$this` that has a name and arguments, and
that stands in no dropped part of another rewritten call, exactly when the name is a plain one and
the call means a static method.  The declarations are those of the files as they were parsed. -/
theorem rewrites_iff_meansStatic (options : Options) (files : List Run.ParsedFile)
    (hdistinct : DistinctKeys (Run.declarations files)) {f : Run.ParsedFile} (hf : f ∈ files)
    (activity : Activity) :
  ∃ outcome calls, (dispatcher options .single).applyAll? (Run.indexOf files).queries f.unit.tree
      activity = some outcome
    ∧ Mapped options (Run.indexOf files).queries [] f.unit.tree outcome.tree calls
    ∧ Php.declarationsOf f.unit.tree = Php.meantDeclarations f.tree
    ∧ ∀ path call parts, Stands options (Run.indexOf files).queries [] f.unit.tree path call →
        call.kind = Php.memberCall → Parts.of? call = some parts →
        parts.object.isVariable Php.variableName "$this" = true →
          ((path, call) ∈ calls
            ↔ parts.name.kind = Php.name ∧ parts.name.text ≠ ""
              ∧ MeansStatic options (declaredAt (Run.declarations files)) path parts.name.text)
  := by
  let index := Run.indexOf files
  have hindex : index.atKey? = declaredAt (Run.declarations files) := Run.atKey?_indexOf hdistinct
  obtain ⟨t, hadds⟩ := exists_adds options index.queries activity f.unit.tree
  obtain ⟨calls, hmapped, -⟩ := exists_mapped options index.queries [] f.unit.tree
  refine ⟨_, calls, hadds.applyAll?_single, hmapped, Run.declarationsOf_unit f, ?_⟩
  intro path call parts hstands hkind hparts hthis
  have hknown (C : Declaration) (hC : RefersTo path C) : index.atKey? (key C.name) = some C := by
    rw [hindex]
    apply declaredAt_of_mem hdistinct (mem_declarations_of_refersTo hf hstands hC)
  rw [hmapped.mem_iff, ← hindex, ← exists_replace_iff hknown hkind hparts hthis]
  apply and_iff_right hstands

/-- The file `class Eater{static function eat(){}}`. -/
def eaterFile : Run.ParsedFile where
  path := "Eater.php"
  text := "class Eater\x7bstatic function eat()\x7b\x7d\x7d"
  parse :=
    .node Php.program 0 36 none false false false
      [.node Php.classDeclaration 0 36 none false false false
         [.node ⟨"class"⟩ 0 5 none false false false [],
          .node Php.name 6 11 (some "name") false false false [],
          .node Php.declarationList 11 36 (some "body") false false false
            [.node ⟨"\x7b"⟩ 11 12 none false false false [],
             .node Php.methodDeclaration 12 35 none false false false
               [.node Php.staticModifier 12 18 none false false false [],
                .node ⟨"function"⟩ 19 27 none false false false [],
                .node Php.name 28 31 (some "name") false false false [],
                .node ⟨"formal_parameters"⟩ 31 33 (some "parameters") false false false [],
                .node ⟨"compound_statement"⟩ 33 35 (some "body") false false false []],
             .node ⟨"\x7d"⟩ 35 36 none false false false []]]]

/-- The file `class Dog extends Eater{function run(){$this->eat();}}`. -/
def dogFile : Run.ParsedFile where
  path := "Dog.php"
  text := "class Dog extends Eater\x7bfunction run()\x7b$this->eat();\x7d\x7d"
  parse :=
    .node Php.program 0 54 none false false false
      [.node Php.classDeclaration 0 54 none false false false
         [.node ⟨"class"⟩ 0 5 none false false false [],
          .node Php.name 6 9 (some "name") false false false [],
          .node Php.baseClause 10 23 none false false false
            [.node ⟨"extends"⟩ 10 17 none false false false [],
             .node Php.name 18 23 none false false false []],
          .node Php.declarationList 23 54 (some "body") false false false
            [.node ⟨"\x7b"⟩ 23 24 none false false false [],
             .node Php.methodDeclaration 24 53 none false false false
               [.node ⟨"function"⟩ 24 32 none false false false [],
                .node Php.name 33 36 (some "name") false false false [],
                .node ⟨"formal_parameters"⟩ 36 38 (some "parameters") false false false [],
                .node ⟨"compound_statement"⟩ 38 53 (some "body") false false false
                  [.node ⟨"\x7b"⟩ 38 39 none false false false [],
                   .node ⟨"expression_statement"⟩ 39 52 none false false false
                     [.node Php.memberCall 39 51 none false false false
                        [.node Php.variableName 39 44 (some "object") false false false
                           [.node ⟨"$"⟩ 39 40 none false false false [],
                            .node Php.name 40 44 none false false false []],
                         .node Php.memberAccess 44 46 none false false false [],
                         .node Php.name 46 49 (some "name") false false false [],
                         .node ⟨"arguments"⟩ 49 51 (some "arguments") false false false
                           [.node ⟨"("⟩ 49 50 none false false false [],
                            .node ⟨")"⟩ 50 51 none false false false []]],
                      .node ⟨";"⟩ 51 52 none false false false []],
                   .node ⟨"\x7d"⟩ 52 53 none false false false []]],
             .node ⟨"\x7d"⟩ 53 54 none false false false []]]]

/-- A call in a class of a static method that its parent declares, in another file. -/
theorem rewrites_iff_meansStatic_dogFile :
  DistinctKeys (Run.declarations [eaterFile, dogFile]) ∧ dogFile ∈ [eaterFile, dogFile]
  ∧ ∃ outcome calls, (dispatcher {} .single).applyAll? (Run.indexOf [eaterFile, dogFile]).queries
      dogFile.unit.tree .idle = some outcome
    ∧ Mapped {} (Run.indexOf [eaterFile, dogFile]).queries [] dogFile.unit.tree outcome.tree calls
    ∧ Php.declarationsOf dogFile.unit.tree = Php.meantDeclarations dogFile.tree
    ∧ ∀ path call parts,
        Stands {} (Run.indexOf [eaterFile, dogFile]).queries [] dogFile.unit.tree path call →
        call.kind = Php.memberCall → Parts.of? call = some parts →
        parts.object.isVariable Php.variableName "$this" = true →
          ((path, call) ∈ calls
            ↔ parts.name.kind = Php.name ∧ parts.name.text ≠ ""
              ∧ MeansStatic {} (declaredAt (Run.declarations [eaterFile, dogFile])) path
                parts.name.text)
  := by
  have hdistinct : DistinctKeys (Run.declarations [eaterFile, dogFile]) := by decide +kernel
  have hf : dogFile ∈ [eaterFile, dogFile] := by simp
  exact ⟨hdistinct, hf, rewrites_iff_meansStatic {} _ hdistinct hf .idle⟩

end Amend.StaticCall
