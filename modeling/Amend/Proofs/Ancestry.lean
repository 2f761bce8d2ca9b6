import Amend.Proofs.Lookup

/-!
# Chains of parents

The parents of a declaration form a chain, which comes to an end, leaves the project, or runs into
a circle.  A declaration is a subtype of the names on its chain, and a warning is left exactly when
the chain circles without coming by the name that is asked for
(`ProjectIndex.isSubtype_along_parents`).
-/

namespace Amend

section Chains

variable (declared : String → Option Declaration)

/-- The parents of the key `k` lead back to it. -/
def ExtendsItself (k : String) : Prop := Relation.TransGen (Extends declared) k k

/-- The parents lead from the key `k` into a circle. -/
def Circles (k : String) : Prop := ∃ k', Inherits declared k k' ∧ ExtendsItself declared k'

end Chains

section Climbing

variable {declared : String → Option Declaration} {index : ProjectIndex}
  {target k k' : String} {visited : List String}

/-- A declaration has one parent. -/
theorem Extends.unique {k'' : String} (h : Extends declared k k') (h' : Extends declared k k'') :
  k' = k''
  := by
  obtain ⟨d, hfound, hparent⟩ := h
  obtain ⟨d', hfound', hparent'⟩ := h'
  cases hfound.symm.trans hfound'
  apply Option.some.inj (hparent.symm.trans hparent')

/-- What extends itself goes on to extend itself from its parent. -/
theorem ExtendsItself.inherits (h : ExtendsItself declared k) (hparent : Extends declared k k') :
  Inherits declared k' k
  := by
  obtain ⟨k'', hextends, hback⟩ := Relation.TransGen.head'_iff.1 h
  rwa [hparent.unique hextends]

/-- A chain circles when it circles from the parent on. -/
theorem circles_iff_of_extends (h : Extends declared k k') :
  Circles declared k ↔ Circles declared k'
  := by
  constructor
  · rintro ⟨c, hleads, hcircle⟩
    obtain rfl | ⟨k'', hextends, hrest⟩ := hleads.cases_head
    · exact ⟨k, hcircle.inherits h, hcircle⟩
    · cases h.unique hextends
      exact ⟨c, hrest, hcircle⟩
  · rintro ⟨c, hleads, hcircle⟩
    exact ⟨c, hleads.head h, hcircle⟩

/-- A chain that comes to an end does not circle. -/
theorem not_circles_of_not_extends (h : ∀ k', ¬ Extends declared k k') :
  ¬ Circles declared k
  := by
  rintro ⟨c, hleads, hcircle⟩
  obtain rfl | ⟨k', hextends, -⟩ := hleads.cases_head
  · obtain ⟨k', hextends, -⟩ := Relation.TransGen.head'_iff.1 hcircle
    apply h k' hextends
  · apply h k' hextends

/-- The record that is left when the parents lead back to the key `k`. -/
def circleRecord (k : String) : LogRecord :=
  ⟨.warn, .index, s!"Inheritance cycle detected at {k}"⟩

/-- What following the parents from the key `k` comes to. -/
inductive ClimbEnds (declared : String → Option Declaration) (k : String) : Logged Bool → Prop
  /-- The target was met. -/
  | met : ClimbEnds declared k ⟨true, []⟩
  /-- The chain came to an end without it. -/
  | ended (h : ¬ Circles declared k) : ClimbEnds declared k ⟨false, []⟩
  /-- The chain came back to a key before it was met. -/
  | circled {c : String} (hleads : Inherits declared k c) (hcircle : ExtendsItself declared c) :
      ClimbEnds declared k ⟨false, [circleRecord c]⟩

/-- A climb that goes on from the parent ends as the climb from there does. -/
theorem ClimbEnds.of_extends {answer : Logged Bool} (hextends : Extends declared k k')
    (h : ClimbEnds declared k' answer) :
  ClimbEnds declared k answer
  := by
  cases h with
  | met => apply ClimbEnds.met
  | ended h =>
    apply ClimbEnds.ended
    rwa [circles_iff_of_extends hextends]
  | circled hleads hcircle => apply ClimbEnds.circled (hleads.head hextends) hcircle

/-- A record is left exactly when the chain circles and the target was not met. -/
theorem ClimbEnds.log_ne_nil_iff {answer : Logged Bool} (h : ClimbEnds declared k answer) :
  answer.log ≠ [] ↔ Circles declared k ∧ ¬ answer.value = true
  := by
  cases h with
  | met => exact iff_of_false (fun h => h rfl) fun h => h.2 rfl
  | ended hends => exact iff_of_false (fun h => h rfl) fun h => hends h.1
  | circled hleads hcircle =>
    exact iff_of_true (List.cons_ne_nil _ _) ⟨⟨_, hleads, hcircle⟩, Bool.false_ne_true⟩

/-- There is no other record than that of a circle. -/
theorem ClimbEnds.log_eq {answer : Logged Bool} (h : ClimbEnds declared k answer)
    (hlog : answer.log ≠ []) :
  ∃ c, Inherits declared k c ∧ ExtendsItself declared c ∧ answer.log = [circleRecord c]
  := by
  cases h with
  | met => cases hlog rfl
  | ended hends => cases hlog rfl
  | circled hleads hcircle => exact ⟨_, hleads, hcircle, rfl⟩

/-- The keys that were entered lead to the one that is entered next. -/
theorem leads_cons (h : ∀ v ∈ visited, Relation.TransGen (Extends declared) v k)
    (hextends : Extends declared k k') :
  ∀ v ∈ k :: visited, Relation.TransGen (Extends declared) v k'
  := by
  rw [List.forall_mem_cons]
  refine ⟨.single hextends, ?_⟩
  intro v hv
  apply (h v hv).tail hextends

namespace ProjectIndex

/-- A climb ends at its target, where no parent is declared, or at a key that it has come from. -/
theorem climbEnds_climb (h : ∀ v ∈ visited, Relation.TransGen (Extends index.atKey?) v k) :
  ClimbEnds index.atKey? k (index.climb target visited k)
  := by
  fun_induction climb index target visited k with
  | case1 visited => exact .met
  | case2 visited k hk hmet => exact .circled .refl (h k hmet)
  | case3 visited k hk hmet habsent =>
    apply ClimbEnds.ended
    apply not_circles_of_not_extends
    rintro k' ⟨d, hfound, -⟩
    cases habsent.symm.trans hfound
  | case4 visited k hk hmet d hfound hparent =>
    apply ClimbEnds.ended
    apply not_circles_of_not_extends
    rintro k' ⟨d', hfound', hparent'⟩
    cases hfound.symm.trans hfound'
    rw [hparent] at hparent'
    cases hparent'
  | case5 visited k hk hmet d hfound parent hparent ih =>
    have hextends : Extends index.atKey? k (key parent) := by
      use d, hfound
      rw [hparent, Option.map_some]
    apply (ih (leads_cons h hextends)).of_extends hextends

/-- So does the climb that answers whether one declaration extends another. -/
theorem climbEnds_isSubtype (index : ProjectIndex) (declaration ancestor : String) :
  ClimbEnds index.atKey? (key declaration) (index.isSubtype declaration ancestor)
  := by
  apply climbEnds_climb
  intro v hv
  cases hv

/-- Whatever parents the declarations of an index name, its own key or keys outside the index
among them, a declaration is a subtype of another name exactly when that is its own name or on the
chain of its parents; so being a subtype is reflexive and transitive.  A warning is left exactly
when the chain circles and the name is not on it, and then one, about a key of the circle. -/
theorem isSubtype_along_parents (index : ProjectIndex) :
  (∀ declaration ancestor,
    ((index.isSubtype declaration ancestor).value = true
      ↔ Inherits index.atKey? (key declaration) (key ancestor))
    ∧ ((index.isSubtype declaration ancestor).log ≠ []
      ↔ Circles index.atKey? (key declaration)
        ∧ ¬ Inherits index.atKey? (key declaration) (key ancestor))
    ∧ ((index.isSubtype declaration ancestor).log ≠ [] →
      ∃ c, Inherits index.atKey? (key declaration) c ∧ ExtendsItself index.atKey? c
        ∧ (index.isSubtype declaration ancestor).log = [circleRecord c]))
  ∧ (∀ declaration, (index.isSubtype declaration declaration).value = true)
  ∧ ∀ declaration between ancestor, (index.isSubtype declaration between).value = true →
      (index.isSubtype between ancestor).value = true →
        (index.isSubtype declaration ancestor).value = true
  := by
  refine ⟨?_, ?_, ?_⟩
  · intro declaration ancestor
    have hends := climbEnds_isSubtype index declaration ancestor
    refine ⟨value_isSubtype_iff, ?_, hends.log_eq⟩
    rw [hends.log_ne_nil_iff, value_isSubtype_iff]
  · intro declaration
    rw [value_isSubtype_iff]
    exact .refl
  · intro declaration between ancestor hlower hupper
    rw [value_isSubtype_iff] at hlower hupper ⊢
    apply hlower.trans hupper

end ProjectIndex

end Climbing

end Amend
