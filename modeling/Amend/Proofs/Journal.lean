import Amend.Pass.Walk

/-!
# What a walk adds to its journal

A walk only ever adds to the end of its journal: `Trace` is what is added, and traces are
added one after the other.  Asking the rules about a node adds the questions put and what the
rules log, and leaves what is in hand as it was (`Journal.consult_eq`).
-/

namespace Amend

/-- What is added to a journal, in order. -/
@[ext]
structure Trace where
  applications : List Application := []
  inquiries : List Inquiry := []
  log : List LogRecord := []
deriving DecidableEq

namespace Trace

/-- One trace after the other. -/
instance : Append Trace :=
  ⟨fun s t => ⟨s.applications ++ t.applications, s.inquiries ++ t.inquiries, s.log ++ t.log⟩⟩

@[simp]
theorem applications_append (s t : Trace) :
  (s ++ t).applications = s.applications ++ t.applications
  := rfl

@[simp]
theorem inquiries_append (s t : Trace) :
  (s ++ t).inquiries = s.inquiries ++ t.inquiries
  := rfl

@[simp]
theorem log_append (s t : Trace) :
  (s ++ t).log = s.log ++ t.log
  := rfl

theorem append_assoc (s t u : Trace) :
  s ++ t ++ u = s ++ (t ++ u)
  := by
  ext1 <;> simp

@[simp]
theorem append_empty (t : Trace) :
  t ++ {} = t
  := by
  ext1 <;> simp

/-- The change of a node, which keeps the kind that the node had before. -/
def change (rule : String) (n : Node) (removed : Bool) : Trace :=
  { applications := [⟨rule, n.kind, removed⟩] }

end Trace

namespace Journal

/-- The journal with a trace added to its end. -/
def extend (j : Journal) (t : Trace) : Journal :=
  { j with
    applications := j.applications ++ t.applications
    inquiries := j.inquiries ++ t.inquiries
    log := j.log ++ t.log }

@[simp]
theorem ancestors_extend (j : Journal) (t : Trace) :
  (j.extend t).ancestors = j.ancestors
  := rfl

@[simp]
theorem activity_extend (j : Journal) (t : Trace) :
  (j.extend t).activity = j.activity
  := rfl

/-- Adding one trace after another is adding them as one. -/
@[simp]
theorem extend_extend (j : Journal) (s t : Trace) :
  (j.extend s).extend t = j.extend (s ++ t)
  := by
  simp [extend]

@[simp]
theorem extend_empty (j : Journal) :
  j.extend {} = j
  := by
  simp [extend]

/-- A journal tells what was added to it. -/
theorem extend_inj {j : Journal} {s t : Trace} (h : j.extend s = j.extend t) :
  s = t
  := by
  ext1
  · apply List.append_cancel_left (congrArg Journal.applications h)
  · apply List.append_cancel_left (congrArg Journal.inquiries h)
  · apply List.append_cancel_left (congrArg Journal.log h)

/-- Noting a change adds it to the journal. -/
theorem applied_eq (j : Journal) (rule : String) (n : Node) (removed : Bool) :
  j.applied rule n removed = j.extend (.change rule n removed)
  := by
  simp [applied, extend, Trace.change]

/-- Coming back up restores the enclosing nodes. -/
theorem leave_extend_enter (j : Journal) (n : Node) (t : Trace) :
  ((j.enter n).extend t).leave = j.extend t
  := rfl

end Journal

/-! ### Asking the rules about a node -/

/-- The rules that are asked: one after the other up to the first that wants a change. -/
def Rule.asked (n : Node) (context : Context) : List Rule → List Rule
  | [] => []
  | rule :: rules =>
    if (rule.evaluate n context).value.isChange then [rule] else rule :: asked n context rules

/-- No rule is asked but those that are given. -/
theorem Rule.mem_of_mem_asked {n : Node} {context : Context} {rules : List Rule} {rule : Rule}
    (h : rule ∈ Rule.asked n context rules) :
  rule ∈ rules
  := by
  induction rules with
  | nil => exact h
  | cons first rules ih =>
    rw [Rule.asked] at h
    split at h
    · rw [List.mem_singleton.1 h]
      apply List.mem_cons_self
    · obtain rfl | hothers := List.mem_cons.1 h
      · apply List.mem_cons_self
      · apply List.mem_cons_of_mem _ (ih hothers)

/-- The change that the first rule to want one wants, with the name of the rule. -/
def Rule.wanted (n : Node) (context : Context) (rules : List Rule) : Option (String × Verdict) :=
  (rules.find? fun rule => (rule.evaluate n context).value.isChange).map fun rule =>
    (rule.name, (rule.evaluate n context).value)

/-- Asking rules about a node: each question, put with the rule in hand, and what the rules log. -/
def Trace.asking (activity : Activity) (n : Node) (context : Context) (rules : List Rule) :
    Trace where
  inquiries := rules.map fun rule =>
    ⟨rule.name, n, context.ancestors, { activity with rule := some rule.name }⟩
  log := rules.flatMap fun rule => (rule.evaluate n context).log

/-- Asking several rules leaves the traces of asking them one by one. -/
theorem Trace.asking_cons (activity : Activity) (n : Node) (context : Context) (rule : Rule)
    (rules : List Rule) :
  asking activity n context (rule :: rules)
    = asking activity n context [rule] ++ asking activity n context rules
  := by
  ext1 <;> simp [asking]

namespace Journal

variable (j : Journal) (queries : Queries) (n : Node)

/-- The rule in hand is put back once the rule has answered. -/
theorem ask_eq (rule : Rule) :
  j.ask queries rule n
    = ((rule.evaluate n ⟨j.ancestors, queries⟩).value,
        j.extend (.asking j.activity n ⟨j.ancestors, queries⟩ [rule]))
  := by
  simp [ask, extend, Trace.asking, Activity.enterRule, Activity.release]

/-- The loop over the rules asks them up to the first one that wants a change, and adds its trace.
-/
theorem askAll_eq (rules : List Rule) :
  j.askAll queries n rules
    = (Rule.wanted n ⟨j.ancestors, queries⟩ rules,
        j.extend (.asking j.activity n ⟨j.ancestors, queries⟩
          (Rule.asked n ⟨j.ancestors, queries⟩ rules)))
  := by
  induction rules generalizing j with
  | nil => simp [askAll, Rule.wanted, Rule.asked, extend, Trace.asking]
  | cons rule rules ih =>
    rw [askAll, ask_eq]
    cases hverdict : (rule.evaluate n ⟨j.ancestors, queries⟩).value with
    | keep =>
      simp only [ih, ancestors_extend, activity_extend, extend_extend]
      simp [Rule.wanted, Rule.asked, hverdict, Verdict.isChange, ← Trace.asking_cons]
    | replace new =>
      simp [Rule.wanted, Rule.asked, hverdict, Verdict.isChange]
    | remove =>
      simp [Rule.wanted, Rule.asked, hverdict, Verdict.isChange]

end Journal

/-- The change wanted for a node by the first of the rules interested in its kind. -/
def Registry.wanted (registry : Registry) (context : Context) (n : Node) :
    Option (String × Verdict) :=
  Rule.wanted n context (registry.rulesFor n.kind)

/-- Asking the rules interested in the kind of a node. -/
def Registry.asking (registry : Registry) (activity : Activity) (context : Context) (n : Node) :
    Trace :=
  .asking activity n context (Rule.asked n context (registry.rulesFor n.kind))

/-- Consulting a registry adds what asking its rules leaves. -/
theorem Journal.consult_eq (j : Journal) (registry : Registry) (queries : Queries) (n : Node) :
  j.consult registry queries n
    = (registry.wanted ⟨j.ancestors, queries⟩ n,
        j.extend (registry.asking j.activity ⟨j.ancestors, queries⟩ n))
  := by
  apply askAll_eq

/-- Only changes are wanted. -/
theorem Registry.ne_keep_of_wanted {registry : Registry} {context : Context} {n : Node}
    {rule : String} {verdict : Verdict} (h : registry.wanted context n = some (rule, verdict)) :
  verdict ≠ .keep
  := by
  obtain ⟨r, hr, hpair⟩ := Option.map_eq_some_iff.1 h
  have hchange := List.find?_some hr
  rw [(Prod.mk.inj hpair).2] at hchange
  rintro rfl
  cases hchange

end Amend
