import Amend.Index.Lookup
import Mathlib.Data.List.Basic
import Mathlib.Logic.Relation

/-!
# What the index answers

`Tour` walks through the declarations that a name leads to: each key once, a declaration before
its traits, and these, in order and each with all it leads to, before its parent.  The method
that is looked up is the first one on the tour (`ProjectIndex.findMember?_eq`), and a declaration
is a subtype of those that the parents lead to (`ProjectIndex.value_isSubtype_iff`).

The index keeps the last declaration of each key (`ProjectIndex.atKey?_insertAll`).
-/

namespace Amend

section Walks

variable (declared : String → Option Declaration)

mutual

/-- `Tour visited k order visited'`: from the key `k`, when the keys `visited` have been met
already, a tour comes by the declarations `order`, and then the keys `visited'` have been met. -/
inductive Tour : (visited : List String) → String → (order : List Declaration) →
    (visited' : List String) → Prop
  | again {visited : List String} {k : String} (met : k ∈ visited) : Tour visited k [] visited
  | outside {visited : List String} {k : String} (new : k ∉ visited) (absent : declared k = none) :
      Tour visited k [] (k :: visited)
  /-- A declaration comes before its traits in order, and these before its parent. -/
  | enter {visited visited' : List String} {k : String} {d : Declaration} {order : List Declaration}
      (new : k ∉ visited) (found : declared k = some d)
      (onward : TourAll (k :: visited) (d.traits.map key ++ (d.parent.map key).toList) order
        visited') :
      Tour visited k (d :: order) visited'

/-- `TourAll visited ks order visited'`: the same from the keys `ks`, one after the other. -/
inductive TourAll : (visited : List String) → List String → (order : List Declaration) →
    (visited' : List String) → Prop
  | nil {visited : List String} : TourAll visited [] [] visited
  | cons {visited visited' visited'' : List String} {k : String} {ks : List String}
      {order order' : List Declaration}
      (first : Tour visited k order visited') (others : TourAll visited' ks order' visited'') :
      TourAll visited (k :: ks) (order ++ order') visited''

end

/-- The declaration of key `k` names one of key `k'` as its parent. -/
def Extends (k k' : String) : Prop := ∃ d, declared k = some d ∧ d.parent.map key = some k'

/-- From the key `k` the parents lead, in any number of steps, to the key `k'`. -/
def Inherits (k k' : String) : Prop := Relation.ReflTransGen (Extends declared) k k'

end Walks

/-! ### Looking up a method -/

section Search

variable {index : ProjectIndex} {member k : String} {visited visited' ks : List String}
  {order : List Declaration} {d : Declaration}

namespace ProjectIndex

/-- The search goes on to the traits of a declaration in order, and then to its parent. -/
theorem successors_eq (d : Declaration) :
  successors d = d.traits.map key ++ (d.parent.map key).toList
  := rfl

theorem search_nil :
  index.search member visited [] = none
  := by
  rw [search]

/-- A key that has been met is passed over. -/
theorem search_of_mem (h : k ∈ visited) (pending : List String) :
  index.search member visited (k :: pending) = index.search member visited pending
  := by
  rw [search, dif_pos h]

/-- A key without a declaration is passed over, and has been met. -/
theorem search_of_none (hnew : k ∉ visited) (h : index.atKey? k = none) (pending : List String) :
  index.search member visited (k :: pending) = index.search member (k :: visited) pending
  := by
  rw [search, dif_neg hnew]
  split
  · rfl
  · rename_i h'
    cases h.symm.trans h'

/-- A declaration has the method, or the search goes on with what it leads to. -/
theorem search_of_some (hnew : k ∉ visited) (h : index.atKey? k = some d) (pending : List String) :
  index.search member visited (k :: pending)
    = (d.member? member).or (index.search member (k :: visited) (successors d ++ pending))
  := by
  rw [search, dif_neg hnew]
  split
  · rename_i h'
    cases h.symm.trans h'
  · rename_i h'
    cases h.symm.trans h'
    cases d.member? member <;> rfl

end ProjectIndex

mutual

/-- The pending keys are searched one after the other, each with all it leads to. -/
theorem Tour.search_cons {visited visited' : List String} {k : String} {order : List Declaration} :
    Tour index.atKey? visited k order visited' → ∀ pending,
      index.search member visited (k :: pending)
        = (order.findSome? (·.member? member)).or (index.search member visited' pending)
  | .again hmet, pending => ProjectIndex.search_of_mem hmet pending
  | .outside hnew habsent, pending => ProjectIndex.search_of_none hnew habsent pending
  | .enter (d := d) hnew hfound honward, pending => by
    rw [ProjectIndex.search_of_some hnew hfound, ProjectIndex.successors_eq,
      honward.search_append, List.findSome?_cons]
    cases d.member? member <;> rfl

/-- The same holds of several keys that are searched before the pending ones. -/
theorem TourAll.search_append {visited visited' ks : List String} {order : List Declaration} :
    TourAll index.atKey? visited ks order visited' → ∀ pending,
      index.search member visited (ks ++ pending)
        = (order.findSome? (·.member? member)).or (index.search member visited' pending)
  | .nil, pending => rfl
  | .cons hfirst hothers, pending => by
    rw [List.cons_append, hfirst.search_cons, hothers.search_append, List.findSome?_append,
      Option.or_assoc]

end

namespace ProjectIndex

/-- The more keys have been met, the fewer are left. -/
theorem length_unvisited_le_of_subset (h : visited ⊆ visited') :
  (index.unvisited visited').length ≤ (index.unvisited visited).length
  := by
  rw [unvisited, unvisited, ← List.countP_eq_length_filter, ← List.countP_eq_length_filter]
  apply List.countP_mono_left
  intro k _ hk
  rw [decide_eq_true_eq] at hk ⊢
  apply mt (@h k) hk

/-- Where every single tour comes to an end, tours from one key after the other do. -/
theorem exists_tourAll
    (h : ∀ visited', visited ⊆ visited' → ∀ k, ∃ order visited'',
      Tour index.atKey? visited' k order visited'' ∧ visited' ⊆ visited'') (ks : List String) :
  ∃ order visited', TourAll index.atKey? visited ks order visited' ∧ visited ⊆ visited'
  := by
  induction ks generalizing visited with
  | nil => exact ⟨[], visited, .nil, List.Subset.refl visited⟩
  | cons k ks ih =>
    obtain ⟨order, visited', hfirst, hsubset⟩ := h visited (List.Subset.refl visited) k
    have hrest (v : List String) (hv : visited' ⊆ v) := h v (List.Subset.trans hsubset hv)
    obtain ⟨order', visited'', hothers, hsubset'⟩ := ih hrest
    exact ⟨order ++ order', visited'', .cons hfirst hothers, List.Subset.trans hsubset hsubset'⟩

/-- Every tour comes to an end. -/
theorem exists_tour (index : ProjectIndex) (visited : List String) (k : String) :
  ∃ order visited', Tour index.atKey? visited k order visited' ∧ visited ⊆ visited'
  := by
  induction hlength : (index.unvisited visited).length using Nat.strongRecOn
    generalizing visited k with
  | ind length ih =>
    by_cases hmet : k ∈ visited
    · exact ⟨[], visited, .again hmet, List.Subset.refl visited⟩
    cases hfound : index.atKey? k with
    | none => exact ⟨[], k :: visited, .outside hmet hfound, List.subset_cons_self k visited⟩
    | some d =>
      have hless := length_unvisited_cons_lt (mem_keys_of_atKey? hfound) hmet
      have honward (v : List String) (hv : k :: visited ⊆ v) (k' : String) :
          ∃ order v', Tour index.atKey? v k' order v' ∧ v ⊆ v' := by
        have hle : (index.unvisited v).length ≤ (index.unvisited (k :: visited)).length :=
          length_unvisited_le_of_subset hv
        apply ih _ (by omega) v k' rfl
      obtain ⟨order, visited', htour, hsubset⟩ :=
        exists_tourAll honward (d.traits.map key ++ (d.parent.map key).toList)
      exact ⟨d :: order, visited', .enter hmet hfound htour,
        List.Subset.trans (List.subset_cons_self k visited) hsubset⟩

/-- A method is looked up in a declaration, in its traits and all they lead to, and in its parent
likewise; the first one found counts. -/
theorem findMember?_eq {name : String} (hfound : index.atKey? (key name) = some d)
    (htour : TourAll index.atKey? [key name] (d.traits.map key ++ (d.parent.map key).toList) order
      visited) :
  index.findMember? member name = (d :: order).findSome? (·.member? member)
  := by
  rw [findMember?, (Tour.enter List.not_mem_nil hfound htour).search_cons, search_nil,
    Option.or_none]

/-- A method is static when the first one that is found is. -/
theorem isStaticMember_iff {name : String} (hfound : index.atKey? (key name) = some d) :
  index.isStaticMember member name = true
    ↔ ∃ order visited m,
      TourAll index.atKey? [key name] (d.traits.map key ++ (d.parent.map key).toList) order visited
      ∧ (d :: order).findSome? (·.member? member) = some m ∧ m.isStatic = true
  := by
  rw [isStaticMember, Option.any_eq_true]
  constructor
  · rintro ⟨m, hm, hstatic⟩
    obtain ⟨order, visited, htour, -⟩ :=
      exists_tourAll (fun v _ k => index.exists_tour v k)
        (d.traits.map key ++ (d.parent.map key).toList)
    rw [findMember?_eq hfound htour] at hm
    exact ⟨order, visited, m, htour, hm, hstatic⟩
  · rintro ⟨order, visited, m, htour, hm, hstatic⟩
    rw [findMember?_eq hfound htour]
    exact ⟨m, hm, hstatic⟩

end ProjectIndex

end Search

/-! ### Subtypes -/

section Subtypes

variable {index : ProjectIndex} {target k : String} {visited : List String}

/-- The keys `visited` were entered on the way up to the key `k`, and the target is none of
them. -/
structure OnTheWay (index : ProjectIndex) (target : String) (visited : List String) (k : String) :
    Prop where
  onward : ∀ v ∈ visited, ∀ v', Extends index.atKey? v v' → v' ∈ visited ∨ v' = k
  missed : target ∉ visited

/-- One step up to the parent. -/
theorem OnTheWay.step {k' : String} (h : OnTheWay index target visited k) (hk : k ≠ target)
    (hnext : ∀ v, Extends index.atKey? k v → v = k') :
  OnTheWay index target (k :: visited) k'
  := by
  constructor
  · intro v hv v' hextends
    obtain rfl | hv := List.mem_cons.1 hv
    · exact .inr (hnext v' hextends)
    · obtain hv' | rfl := h.onward v hv v' hextends
      · exact .inl (List.mem_cons_of_mem k hv')
      · exact .inl List.mem_cons_self
  · rw [List.mem_cons, not_or]
    exact ⟨hk.symm, h.missed⟩

/-- The parents of keys on the way lead back to them. -/
theorem OnTheWay.not_inherits (h : OnTheWay index target visited k) (hk : k ∈ visited) :
  ¬ Inherits index.atKey? k target
  := by
  have hmet (v : String) (hv : Inherits index.atKey? k v) : v ∈ visited := by
    induction hv with
    | refl => exact hk
    | tail _ hextends ih =>
      obtain hmet | rfl := h.onward _ ih _ hextends
      · exact hmet
      · exact hk
  intro hinherits
  apply h.missed (hmet target hinherits)

namespace ProjectIndex

/-- The climb finds its target when the parents lead there. -/
theorem value_climb_iff (h : OnTheWay index target visited k) :
  (index.climb target visited k).value = true ↔ Inherits index.atKey? k target
  := by
  fun_induction climb index target visited k with
  | case1 visited => exact iff_of_true rfl .refl
  | case2 visited k hk hmet => exact iff_of_false Bool.false_ne_true (h.not_inherits hmet)
  | case3 visited k hk hmet habsent =>
    apply iff_of_false Bool.false_ne_true
    intro hinherits
    obtain rfl | ⟨k', ⟨d, hfound, -⟩, -⟩ := hinherits.cases_head
    · apply hk rfl
    · cases habsent.symm.trans hfound
  | case4 visited k hk hmet d hfound hparent =>
    apply iff_of_false Bool.false_ne_true
    intro hinherits
    obtain rfl | ⟨k', ⟨d', hfound', hparent'⟩, -⟩ := hinherits.cases_head
    · apply hk rfl
    · cases hfound.symm.trans hfound'
      rw [hparent] at hparent'
      cases hparent'
  | case5 visited k hk hmet d hfound parent hparent ih =>
    have hnext : ∀ v, Extends index.atKey? k v → v = key parent := by
      rintro v ⟨d', hfound', hparent'⟩
      cases hfound.symm.trans hfound'
      rw [hparent] at hparent'
      exact (Option.some.inj hparent').symm
    rw [ih (h.step hk hnext)]
    constructor
    · intro hinherits
      apply hinherits.head
      exact ⟨d, hfound, by rw [hparent, Option.map_some]⟩
    · intro hinherits
      obtain rfl | ⟨k', hextends, hrest⟩ := hinherits.cases_head
      · cases hk rfl
      · rwa [hnext k' hextends] at hrest

/-- A declaration is a subtype of the names that its parents lead to, and of its own name. -/
theorem value_isSubtype_iff {declaration ancestor : String} :
  (index.isSubtype declaration ancestor).value = true
    ↔ Inherits index.atKey? (key declaration) (key ancestor)
  := by
  apply value_climb_iff
  constructor
  · intro v hv
    cases hv
  · apply List.not_mem_nil

end ProjectIndex

end Subtypes

/-! ### Collecting declarations -/

namespace ProjectIndex

/-- Inserting a declaration puts it under its key, whatever is logged. -/
theorem value_insert (index : ProjectIndex) (d : Declaration) :
  (index.insert d).value = index.put d
  := by
  rw [insert]
  split <;> rfl

/-- Declarations are inserted one after the other. -/
theorem value_insertAll_cons (index : ProjectIndex) (d : Declaration) (ds : List Declaration) :
  (index.insertAll (d :: ds)).value = ((index.put d).insertAll ds).value
  := by
  rw [insertAll, List.foldlM_cons, Logged.value_bind, value_insert]
  rfl

/-- The last declaration of a key is kept. -/
theorem atKey?_insertAll (index : ProjectIndex) (ds : List Declaration) (k : String) :
  (index.insertAll ds).value.atKey? k
    = (ds.reverse.find? fun d => key d.name = k).or (index.atKey? k)
  := by
  induction ds generalizing index with
  | nil => rfl
  | cons d ds ih =>
    rw [value_insertAll_cons, ih, atKey?_put, List.reverse_cons, List.find?_append, Option.or_assoc]
    congr 1
    by_cases hk : key d.name = k
    · simp [hk]
    · simp [hk, Ne.symm hk]

end ProjectIndex

end Amend
