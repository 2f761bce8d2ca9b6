import Amend.Proofs.StaticCall.Simultaneous

/-!
# What the rule decides on depends on the original tree only

`verdict` is what the rule answers when it is asked about a node of the original tree, inside
the nodes that enclose it there.  `Mapped` is the structural map that these answers give: a
rewritten call keeps its arguments, which are mapped, and everything else is mapped child by
child.  A pass with the rule alone is this map (`pass_is_map`), although the pass asks the rule
about a call in the arguments of a rewritten one only after the outer one was rewritten.
-/

namespace Amend.StaticCall

variable (options : Options) (queries : Queries)

/-- The rule's verdict on a node that stands inside the nodes of `path`, nearest first.  Only
method calls are shown to the rule. -/
def verdict (path : List Node) (n : Node) : Verdict :=
  if n.kind = Php.memberCall then (evaluate options n ⟨path.map .of, queries⟩).value else .keep

mutual

/-- `Mapped path n left calls`: the node `n` inside the nodes of `path` is mapped to `left`, and
`calls` are the calls that are rewritten, each with the nodes around it and before the calls in
its arguments. -/
inductive Mapped : (path : List Node) → Node → Node → List (List Node × Node) → Prop
  /-- The replacement keeps the arguments, mapped, and takes over the position of the call. -/
  | rewritten {path : List Node} {n new arguments left : Node} {front : List Node}
      {calls : List (List Node × Node)}
      (decided : verdict options queries path n = .replace new)
      (field : n.childByField "arguments" = some arguments)
      (children : new.children = front ++ [arguments])
      (below : Mapped (n :: path) arguments left calls) :
      Mapped path n ((new.withChildren (front ++ [left])).inheritPosition n) ((path, n) :: calls)
  | kept {path : List Node} {n : Node} {lefts : List Node} {calls : List (List Node × Node)}
      (decided : verdict options queries path n = .keep)
      (below : MappedAll (n :: path) n.children lefts calls) :
      Mapped path n (n.withChildren lefts) calls

/-- `MappedAll path ns lefts calls`: the nodes `ns` are mapped one by one. -/
inductive MappedAll : (path : List Node) → List Node → List Node → List (List Node × Node) → Prop
  | nil {path : List Node} : MappedAll path [] [] []
  | cons {path : List Node} {n left : Node} {ns lefts : List Node}
      {calls calls' : List (List Node × Node)}
      (first : Mapped path n left calls) (others : MappedAll path ns lefts calls') :
      MappedAll path (n :: ns) (left :: lefts) (calls ++ calls')

end

/-- `Stands path n path' m`: the node `m` stands inside the nodes of `path'` in the node `n`,
itself inside the nodes of `path`, and in no part of a rewritten call but its arguments. -/
inductive Stands : (path : List Node) → Node → (path' : List Node) → Node → Prop
  | here {path : List Node} {n : Node} : Stands path n path n
  | child {path path' : List Node} {n c m : Node}
      (decided : verdict options queries path n = .keep) (mem : c ∈ n.children)
      (below : Stands (n :: path) c path' m) : Stands path n path' m
  | argument {path path' : List Node} {n new arguments m : Node}
      (decided : verdict options queries path n = .replace new)
      (field : n.childByField "arguments" = some arguments)
      (below : Stands (n :: path) arguments path' m) : Stands path n path' m

variable {options queries} {path path' : List Node} {n m left left' : Node}
  {ns lefts lefts' : List Node} {calls calls' : List (List Node × Node)}

/-! ### The verdict on a node -/

/-- The verdict on a node is that a rewritten call becomes a static one. -/
theorem verdict_eq (path : List Node) (n : Node) :
  verdict options queries path n
    = match rewritten? options queries (receiverClass (path.map .of)) n with
      | some p => .replace (p.toStatic n)
      | none => .keep
  := by
  rw [verdict, rewritten?]
  split
  · apply evaluate_value
  · rfl

/-- A rewritten call is to be replaced. -/
theorem verdict_of_some {p : Parts}
    (h : rewritten? options queries (receiverClass (path.map .of)) n = some p) :
  verdict options queries path n = .replace (p.toStatic n)
  := by
  rw [verdict_eq, h]

/-- Any other node is to be kept. -/
theorem verdict_of_none (h : rewritten? options queries (receiverClass (path.map .of)) n = none) :
  verdict options queries path n = .keep
  := by
  rw [verdict_eq, h]

/-! ### The map exists -/

/-- If each sibling is mapped, all of them are. -/
theorem exists_mappedAll {f : Node → Node} {g : Node → List Node}
    (h : ∀ n ∈ ns, ∃ calls, Mapped options queries path n (f n) calls
      ∧ calls.map Prod.snd = g n) :
  ∃ calls, MappedAll options queries path ns (ns.map f) calls
    ∧ calls.map Prod.snd = ns.flatMap g
  := by
  induction ns with
  | nil => exact ⟨[], .nil, rfl⟩
  | cons n ns ih =>
    obtain ⟨hn, hns⟩ := List.forall_mem_cons.1 h
    obtain ⟨calls, hfirst, hcalls⟩ := hn
    obtain ⟨calls', hothers, hcalls'⟩ := ih hns
    use calls ++ calls', .cons hfirst hothers
    rw [List.map_append, hcalls, hcalls', List.flatMap_cons]

variable (options queries) in
/-- Rewriting all calls at once is the map. -/
theorem exists_mapped (path : List Node) (n : Node) :
  ∃ calls, Mapped options queries path n (amend options queries (path.map .of) n) calls
    ∧ calls.map Prod.snd = rewrittenCalls options queries (path.map .of) n
  := by
  induction n using Node.below_induction generalizing path with
  | below n ih =>
    cases h : rewritten? options queries (receiverClass (path.map .of)) n with
    | some p =>
      have harguments := (of?_eq_some_iff.1 (rewritten?_eq_some_iff.1 h).2.1).2.2
      obtain ⟨calls, hmapped, hcalls⟩ := ih p.arguments (arguments_mem_of_rewritten? h) (n :: path)
      have hchildren : (p.toStatic n).children = [p.scope, p.operator n, p.method] ++ [p.arguments] :=
        rfl
      use (path, n) :: calls
      rw [amend_of_some h, rewrittenCalls_of_some h]
      constructor
      · apply Mapped.rewritten (verdict_of_some h) harguments hchildren hmapped
      · rw [List.map_cons, hcalls]
        rfl
    | none =>
      have hchild (c : Node) (hc : c ∈ n.children) := ih c hc (n :: path)
      obtain ⟨calls, hmapped, hcalls⟩ := exists_mappedAll hchild
      use calls
      rw [amend_of_none h, rewrittenCalls_of_none h]
      exact ⟨.kept (verdict_of_none h) hmapped, hcalls⟩

/-! ### The map is one -/

mutual

/-- A node is mapped in one way only. -/
theorem Mapped.unique {path : List Node} {n left left' : Node}
    {calls calls' : List (List Node × Node)} :
    Mapped options queries path n left calls → Mapped options queries path n left' calls' →
      left = left' ∧ calls = calls'
  | .rewritten hdecided hfield hchildren hbelow, .rewritten hdecided' hfield' hchildren' hbelow' => by
    cases hdecided.symm.trans hdecided'
    cases hfield.symm.trans hfield'
    obtain ⟨rfl, -⟩ := List.append_inj' (hchildren.symm.trans hchildren') rfl
    obtain ⟨rfl, rfl⟩ := hbelow.unique hbelow'
    exact ⟨rfl, rfl⟩
  | .rewritten hdecided _ _ _, .kept hdecided' _ => by
    cases hdecided.symm.trans hdecided'
  | .kept hdecided _, .rewritten hdecided' _ _ _ => by
    cases hdecided.symm.trans hdecided'
  | .kept _ hbelow, .kept _ hbelow' => by
    obtain ⟨rfl, rfl⟩ := hbelow.unique hbelow'
    exact ⟨rfl, rfl⟩

/-- The same holds of siblings. -/
theorem MappedAll.unique {path : List Node} {ns lefts lefts' : List Node}
    {calls calls' : List (List Node × Node)} :
    MappedAll options queries path ns lefts calls →
      MappedAll options queries path ns lefts' calls' → lefts = lefts' ∧ calls = calls'
  | .nil, .nil => ⟨rfl, rfl⟩
  | .cons hfirst hothers, .cons hfirst' hothers' => by
    obtain ⟨rfl, rfl⟩ := hfirst.unique hfirst'
    obtain ⟨rfl, rfl⟩ := hothers.unique hothers'
    exact ⟨rfl, rfl⟩

end

/-! ### The calls that are rewritten -/

mutual

/-- The calls rewritten are those that stand in the node and that the rule wants to replace. -/
theorem Mapped.mem_iff {path : List Node} {n left : Node} {calls : List (List Node × Node)} :
    Mapped options queries path n left calls → ∀ path' m, (path', m) ∈ calls
      ↔ Stands options queries path n path' m
        ∧ ∃ new, verdict options queries path' m = .replace new
  | .rewritten hdecided hfield _ hbelow => by
    intro path' m
    rw [List.mem_cons, hbelow.mem_iff path' m]
    constructor
    · rintro (hhere | ⟨hstands, hnew⟩)
      · cases hhere
        exact ⟨.here, _, hdecided⟩
      · exact ⟨.argument hdecided hfield hstands, hnew⟩
    · rintro ⟨_ | ⟨hdecided', _, _⟩ | ⟨_, hfield', hstands⟩, hnew⟩
      · exact .inl rfl
      · cases hdecided.symm.trans hdecided'
      · cases hfield.symm.trans hfield'
        exact .inr ⟨hstands, hnew⟩
  | .kept hdecided hbelow => by
    intro path' m
    rw [hbelow.mem_iff path' m]
    constructor
    · rintro ⟨⟨c, hc, hstands⟩, hnew⟩
      exact ⟨.child hdecided hc hstands, hnew⟩
    · rintro ⟨_ | ⟨_, hc, hstands⟩ | ⟨hdecided', _, _⟩, hnew⟩
      · obtain ⟨new, hnew⟩ := hnew
        cases hdecided.symm.trans hnew
      · exact ⟨⟨_, hc, hstands⟩, hnew⟩
      · cases hdecided.symm.trans hdecided'

/-- The same holds of siblings. -/
theorem MappedAll.mem_iff {path : List Node} {ns lefts : List Node}
    {calls : List (List Node × Node)} :
    MappedAll options queries path ns lefts calls → ∀ path' m, (path', m) ∈ calls
      ↔ (∃ n ∈ ns, Stands options queries path n path' m)
        ∧ ∃ new, verdict options queries path' m = .replace new
  | .nil => by
    simp
  | .cons hfirst hothers => by
    intro path' m
    rw [List.mem_append, hfirst.mem_iff path' m, hothers.mem_iff path' m, List.exists_mem_cons_iff,
      or_and_right]

end

/-- A pass with the rule alone over a tree is the map: each method call is decided as the rule
decides on the untouched node inside the nodes that enclose it in the tree, and one change is
noted for each call rewritten.  There is one such map, and it rewrites the calls that stand in the
tree and that the rule wants to replace there. -/
theorem pass_is_map (options : Options) (queries : Queries) (tree : Node) (activity : Activity) :
  ∃ outcome calls, (dispatcher options .single).applyAll? queries tree activity = some outcome
    ∧ Mapped options queries [] tree outcome.tree calls
    ∧ outcome.applications = calls.map (fun _ => rewriting)
    ∧ (∀ left calls', Mapped options queries [] tree left calls' →
        left = outcome.tree ∧ calls' = calls)
    ∧ ∀ path call, (path, call) ∈ calls
      ↔ Stands options queries [] tree path call
        ∧ ∃ new, verdict options queries path call = .replace new
  := by
  obtain ⟨t, hadds⟩ := exists_adds options queries activity tree
  obtain ⟨calls, hmapped, hcalls⟩ := exists_mapped options queries [] tree
  have happlications : t.applications = calls.map fun _ => rewriting := by
    rw [hadds.rewrites.applications, ← List.map_nil, ← hcalls, List.map_map]
    rfl
  refine ⟨_, calls, hadds.applyAll?_single, hmapped, happlications, ?_, hmapped.mem_iff⟩
  intro left calls' hmapped'
  apply hmapped'.unique hmapped

end Amend.StaticCall
