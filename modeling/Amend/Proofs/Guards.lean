import Amend.Proofs.Converge
import Amend.Proofs.StaticCall.Stable

/-!
# Guards put back what they found

Entering a phase, a file or a rule hands out a guard, which knows what was in hand before.  When
guards are released in the reverse of the order in which they were handed out, what is in hand
between two steps is told by what has been entered and not left yet, the innermost of each sort
first (`Session.run_within`), although phase and file are put back together and the rule on its
own.  A sequence of scopes, each inside another one or after it, ends with what was in hand at
its beginning, and so do the passes over a tree, which ask each rule with this rule in hand
(`Session.scopes_restore`).
-/

namespace Amend

/-- What may be entered. -/
inductive Focus where
  | phase (phase : Phase)
  | file (file : String)
  | rule (rule : String)
deriving DecidableEq, Repr

namespace Focus

def phase? : Focus → Option Phase
  | .phase p => some p
  | _ => none

def file? : Focus → Option String
  | .file f => some f
  | _ => none

def rule? : Focus → Option String
  | .rule r => some r
  | _ => none

end Focus

namespace Activity

/-- Enter a phase, a file or a rule. -/
def enter (a : Activity) : Focus → Guard × Activity
  | .phase phase => a.enterPhase phase
  | .file file => a.enterFile file
  | .rule rule => a.enterRule rule

/-- What is in hand inside what has been entered, innermost first: the innermost phase, file and
rule, and of a sort that has not been entered what was in hand outside. -/
def inside (a : Activity) (entered : List Focus) : Activity where
  station :=
    { phase := (entered.findSome? Focus.phase?).or a.station.phase
      file := (entered.findSome? Focus.file?).or a.station.file }
  rule := (entered.findSome? Focus.rule?).or a.rule

/-- Entering something puts it in front of what has been entered. -/
theorem enter_inside (a : Activity) (entered : List Focus) (focus : Focus) :
  ((a.inside entered).enter focus).2 = a.inside (focus :: entered)
  := by
  cases focus <;> rfl

/-- The guard knows all that it puts back, of whatever sort it is. -/
theorem release_inside (a : Activity) (entered : List Focus) (focus : Focus) :
  (a.inside (focus :: entered)).release ((a.inside entered).enter focus).1 = a.inside entered
  := by
  cases focus <;> rfl

end Activity

/-- What is in hand, and the guards that are held, the newest first. -/
structure Session where
  activity : Activity
  guards : List Guard := []
deriving DecidableEq, Repr

namespace Session

/-- Entering something, or releasing the newest guard. -/
inductive Step where
  | enter (focus : Focus)
  | leave
deriving DecidableEq, Repr

def step (s : Session) : Step → Session
  | .enter focus =>
    let (guard, activity) := s.activity.enter focus
    ⟨activity, guard :: s.guards⟩
  | .leave =>
    match s.guards with
    | [] => s
    | guard :: guards => ⟨s.activity.release guard, guards⟩

def run (s : Session) (steps : List Step) : Session := steps.foldl step s

/-- Scopes inside each other and one after the other. -/
inductive WellNested : List Step → Prop
  | nil : WellNested []
  | scope {inner rest : List Step} (focus : Focus) (inside : WellNested inner)
      (after : WellNested rest) : WellNested (.enter focus :: (inner ++ .leave :: rest))

/-- What has been entered and not left after some steps, innermost first, `entered` being what had
been entered before; `none` when more is left than was entered. -/
def enclosing? : (entered : List Focus) → List Step → Option (List Focus)
  | entered, [] => some entered
  | entered, .enter focus :: steps => enclosing? (focus :: entered) steps
  | [], .leave :: _ => none
  | _ :: entered, .leave :: steps => enclosing? entered steps

/-! ### What has been entered -/

variable {steps before after : List Step} {entered entered' : List Focus}

/-- Scopes that are closed leave no trace in what encloses the steps after them. -/
theorem WellNested.enclosing?_eq (h : WellNested steps) (entered : List Focus)
    (after : List Step) :
  enclosing? entered (steps ++ after) = enclosing? entered after
  := by
  induction h generalizing entered after with
  | nil => rfl
  | scope focus _ _ ihinner ihrest =>
    rw [List.cons_append, List.append_assoc, enclosing?, ihinner, List.cons_append, enclosing?,
      ihrest]

/-- What encloses a step is told by the steps before it, one part of them after the other. -/
theorem enclosing?_append (entered : List Focus) (before after : List Step) :
  enclosing? entered (before ++ after)
    = (enclosing? entered before).bind fun entered' => enclosing? entered' after
  := by
  fun_induction enclosing? entered before with
  | case1 => rfl
  | case2 entered focus before ih => rw [List.cons_append, enclosing?, ih]
  | case3 => rfl
  | case4 entered focus before ih => rw [List.cons_append, enclosing?, ih]

/-- At every point of a sequence of scopes there is something, or nothing, that encloses it. -/
theorem WellNested.exists_enclosing (h : WellNested (before ++ after)) :
  ∃ entered, enclosing? [] before = some entered
  := by
  have hend : enclosing? [] (before ++ after ++ []) = some [] := h.enclosing?_eq [] []
  rw [List.append_nil, enclosing?_append] at hend
  obtain ⟨entered, hentered, -⟩ := Option.bind_eq_some_iff.1 hend
  exact ⟨entered, hentered⟩

/-! ### What is in hand -/

/-- The guards that are handed out when something is entered, the newest first. -/
def guardsFor (a : Activity) : List Focus → List Guard
  | [] => []
  | focus :: entered => ((a.inside entered).enter focus).1 :: guardsFor a entered

/-- The session inside what has been entered in it. -/
def within (s : Session) (entered : List Focus) : Session :=
  ⟨s.activity.inside entered, guardsFor s.activity entered ++ s.guards⟩

theorem within_nil (s : Session) :
  s.within [] = s
  := rfl

/-- Entering something leads inside it. -/
theorem step_enter_within (s : Session) (entered : List Focus) (focus : Focus) :
  (s.within entered).step (.enter focus) = s.within (focus :: entered)
  := by
  rw [step, within, within, ← Activity.enter_inside]
  rfl

/-- Releasing the newest guard leads out of what was entered last. -/
theorem step_leave_within (s : Session) (entered : List Focus) (focus : Focus) :
  (s.within (focus :: entered)).step .leave = s.within entered
  := by
  rw [within, guardsFor, List.cons_append, step]
  dsimp only
  rw [Activity.release_inside, within]

/-- Whatever is entered and left in a session, its state is told by what is entered and not left. -/
theorem run_within (s : Session) (h : enclosing? entered steps = some entered') :
  (s.within entered).run steps = s.within entered'
  := by
  fun_induction enclosing? entered steps with
  | case1 entered =>
    cases h
    rfl
  | case2 entered focus steps ih =>
    rw [run, List.foldl_cons, step_enter_within]
    apply ih h
  | case3 => cases h
  | case4 focus entered steps ih =>
    rw [run, List.foldl_cons, step_leave_within]
    apply ih h

end Session

/-! ### Rules in hand -/

namespace Dispatcher

variable {queries : Queries} {activity : Activity} {d : Dispatcher} {tree : Node} {o : Outcome}

/-- Every question is put to a rule that is interested in the node, with this rule in hand and
else with what is in hand outside. -/
def AskedInHand (registry : Registry) (activity : Activity) (i : Inquiry) : Prop :=
  (∃ rule ∈ registry.rulesFor i.node.kind, rule.name = i.rule)
    ∧ i.activity = { activity with rule := some i.rule }

/-- Every question that is added to the journal is put with the rule in hand that is asked. -/
theorem kept_askedInHand (registry : Registry) :
  registry.Kept queries activity fun t => ∀ i ∈ t.inquiries, AskedInHand registry activity i
  where
  empty := List.forall_mem_nil _
  append hs ht := List.forall_mem_append.2 ⟨hs, ht⟩
  change _ _ _ := List.forall_mem_nil _
  asking outer n i hi := by
    obtain ⟨rule, hrule, rfl⟩ := List.mem_map.1 hi
    exact ⟨⟨rule, Rule.mem_of_mem_asked hrule, rfl⟩, rfl⟩

/-- In a single pass every question is put with the rule in hand that is asked. -/
theorem askedInHand_of_once (h : d.once queries activity tree = some o) :
  ∀ i ∈ o.inquiries, AskedInHand d.registry activity i
  := by
  obtain ⟨hmakes, -, -⟩ := makes_of_once h
  obtain ⟨left, hshown, -⟩ := hmakes.exists_shown
  apply (kept_askedInHand d.registry).of_shown hshown

/-- The passes over a tree put back what was in hand, and put every question with the rule in hand
that is asked. -/
theorem askedInHand_of_applyAll? (h : d.applyAll? queries tree activity = some o) :
  o.activity = activity ∧ ∀ i ∈ o.inquiries, AskedInHand d.registry activity i
  := by
  obtain ⟨passes, last, hiteration, rfl⟩ := applyAll?_eq_some_iff.1 h
  refine ⟨rfl, fun i hi => ?_⟩
  obtain ⟨pass, hpass, hi⟩ := List.mem_flatMap.1 hi
  obtain ⟨before, honce⟩ := hiteration.made.exists_once hpass
  apply askedInHand_of_once honce i hi

end Dispatcher

namespace Session

/-- Inside scopes, entered and left in whatever order as long as they are inside each other or one
after the other, there is in hand the innermost phase, file and rule that encloses, and what was
in hand before where none does; after them the session is as it was before them.  So are the
passes over a tree: while a rule is asked this rule is in hand, with the phase and the file that
were in hand before the passes, and after them there is in hand what was in hand before. -/
theorem scopes_restore {steps : List Step} (h : WellNested steps) (s : Session) :
  (∀ before after, steps = before ++ after → ∃ entered, enclosing? [] before = some entered
    ∧ (s.run before).activity = s.activity.inside entered)
  ∧ s.run steps = s
  ∧ ∀ (d : Dispatcher) (queries : Queries) (tree : Node) (o : Outcome),
    d.applyAll? queries tree s.activity = some o →
      o.activity = s.activity ∧ ∀ i ∈ o.inquiries,
        (∃ rule ∈ d.registry.rulesFor i.node.kind, rule.name = i.rule)
          ∧ i.activity = { s.activity with rule := some i.rule }
  := by
  refine ⟨?_, ?_, fun _ _ _ _ hpasses => Dispatcher.askedInHand_of_applyAll? hpasses⟩
  · rintro before after rfl
    obtain ⟨entered, hentered⟩ := h.exists_enclosing
    use entered, hentered
    rw [← s.within_nil, run_within s hentered]
    rfl
  · have hend : enclosing? [] (steps ++ []) = some [] := h.enclosing?_eq [] []
    rw [List.append_nil] at hend
    have hrun := run_within s hend
    rwa [within_nil] at hrun

/-- A phase with a file in it, and in the file a rule with another rule inside it; then another
phase. -/
def fileInPhase : List Step :=
  [.enter (.phase .amending), .enter (.file "Dog.php"), .enter (.rule "outer"),
    .enter (.rule "inner"), .leave, .leave, .leave, .leave, .enter (.phase .writeBack), .leave]

/-- Inside both rules the inner one is in hand, in the outer file and phase. -/
theorem scopes_restore_fileInPhase :
  WellNested fileInPhase
    ∧ (run ⟨.idle, []⟩ (fileInPhase.take 4)).activity
      = ⟨⟨some .amending, some "Dog.php"⟩, some "inner"⟩
    ∧ run ⟨.idle, []⟩ fileInPhase = ⟨.idle, []⟩
    ∧ ∃ o, (StaticCall.dispatcher {} .single).applyAll? StaticCall.allStatic StaticCall.nestedCalls
        .idle = some o
      ∧ o.activity = .idle ∧ ∀ i ∈ o.inquiries, i.activity.rule = some i.rule
  := by
  have hrule {inner : List Step} (rule : String) (h : WellNested inner) :
      WellNested (.enter (.rule rule) :: (inner ++ [.leave])) := .scope (.rule rule) h .nil
  have hfile : WellNested [.enter (.file "Dog.php"), .enter (.rule "outer"),
      .enter (.rule "inner"), .leave, .leave, .leave] :=
    .scope (.file "Dog.php") (hrule "outer" (hrule "inner" .nil)) .nil
  have h : WellNested fileInPhase :=
    .scope (.phase .amending) hfile (.scope (.phase .writeBack) .nil .nil)
  obtain ⟨hinside, hafter, hpasses⟩ := scopes_restore h ⟨.idle, []⟩
  refine ⟨h, ?_, hafter, ?_⟩
  · obtain ⟨entered, hentered, hactivity⟩ := hinside (fileInPhase.take 4) (fileInPhase.drop 4)
      (List.take_append_drop 4 fileInPhase).symm
    cases hentered
    exact hactivity
  · obtain ⟨t, ht⟩ := StaticCall.exists_adds {} StaticCall.allStatic .idle StaticCall.nestedCalls
    have happlied := ht.applyAll?_single
    obtain ⟨hsame, hasked⟩ := hpasses _ _ _ _ happlied
    refine ⟨_, happlied, hsame, fun i hi => ?_⟩
    rw [(hasked i hi).2]

end Session

end Amend
