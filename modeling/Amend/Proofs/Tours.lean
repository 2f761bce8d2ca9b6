import Amend.Proofs.Lookup

/-!
# What a tour comes by

There is one tour from every key, whatever cycles, gaps and repetitions the declarations have.
It meets each key that parents and traits lead to, and each of them once
(`Tour.mem_iff_leadsTo`, `Tour.nodup`).  A method that is looked up is the first one that the
tour comes by, and none is found when nothing that can be reached has one
(`ProjectIndex.findMember?_first_on_tour`).
-/

namespace Amend

section Definitions

variable (declared : String → Option Declaration)

/-- The declaration of key `k` names one of key `k'` as a trait or as its parent. -/
def NamesNext (k k' : String) : Prop :=
  ∃ d, declared k = some d
    ∧ ((∃ name ∈ d.traits, key name = k') ∨ ∃ name, d.parent = some name ∧ key name = k')

/-- From the key `k` traits and parents lead, in any number of steps, to the key `k'`. -/
def LeadsTo (k k' : String) : Prop := Relation.ReflTransGen (NamesNext declared) k k'

/-- A declaration has a method of a name, its letter case aside. -/
def Declaration.Declares (d : Declaration) (name : String) : Prop :=
  ∃ m ∈ d.members, Text.fold m.name = Text.fold name

/-- A method is the first one of a name in a declaration. -/
def Declaration.DeclaresFirst (d : Declaration) (name : String) (m : Member) : Prop :=
  ∃ before after, d.members = before ++ m :: after ∧ Text.fold m.name = Text.fold name
    ∧ ∀ m' ∈ before, Text.fold m'.name ≠ Text.fold name

/-- A method is the first one of a name in the first of some declarations to have one. -/
def FirstAmong (order : List Declaration) (name : String) (m : Member) : Prop :=
  ∃ before d after, order = before ++ d :: after ∧ d.DeclaresFirst name m
    ∧ ∀ c ∈ before, ¬ c.Declares name

end Definitions

section Tours

variable {declared : String → Option Declaration} {visited visited' met met' ks : List String}
  {k k' name : String} {order order' : List Declaration} {d : Declaration} {m : Member}

/-- What a declaration names next are its traits and its parent. -/
theorem namesNext_iff (hfound : declared k = some d) :
  NamesNext declared k k' ↔ k' ∈ d.traits.map key ++ (d.parent.map key).toList
  := by
  rw [List.mem_append, List.mem_map, Option.mem_toList, Option.map_eq_some_iff]
  constructor
  · rintro ⟨c, hc, hnames⟩
    cases hfound.symm.trans hc
    exact hnames
  · intro hnames
    exact ⟨d, hfound, hnames⟩

/-! ### One tour -/

mutual

/-- Where a tour begins and what has been met before determine it. -/
theorem Tour.unique {visited visited' : List String} {k : String} {order : List Declaration} :
    Tour declared visited k order visited' → ∀ order' visited'',
      Tour declared visited k order' visited'' → order' = order ∧ visited'' = visited'
  | .again hmet => by
    rintro _ _ (_ | hnew | hnew)
    · exact ⟨rfl, rfl⟩
    · cases hnew hmet
    · cases hnew hmet
  | .outside hnew habsent => by
    rintro _ _ (hmet | _ | ⟨_, hfound, _⟩)
    · cases hnew hmet
    · exact ⟨rfl, rfl⟩
    · cases habsent.symm.trans hfound
  | .enter hnew hfound honward => by
    have hunique := honward.unique
    rintro _ _ (hmet | ⟨_, habsent⟩ | ⟨_, hfound', honward'⟩)
    · cases hnew hmet
    · cases habsent.symm.trans hfound
    · cases hfound.symm.trans hfound'
      obtain ⟨rfl, rfl⟩ := hunique _ _ honward'
      exact ⟨rfl, rfl⟩

/-- The same holds of several keys. -/
theorem TourAll.unique {visited visited' ks : List String} {order : List Declaration} :
    TourAll declared visited ks order visited' → ∀ order' visited'',
      TourAll declared visited ks order' visited'' → order' = order ∧ visited'' = visited'
  | .nil => by
    rintro _ _ ⟨⟩
    exact ⟨rfl, rfl⟩
  | .cons hfirst hothers => by
    have hunique := hfirst.unique
    have hunique' := hothers.unique
    rintro _ _ (_ | ⟨hfirst', hothers'⟩)
    obtain ⟨rfl, rfl⟩ := hunique _ _ hfirst'
    obtain ⟨rfl, rfl⟩ := hunique' _ _ hothers'
    exact ⟨rfl, rfl⟩

end

/-! ### The keys that are met -/

mutual

/-- No key is met twice. -/
theorem Tour.nodup {visited visited' : List String} {k : String} {order : List Declaration} :
    Tour declared visited k order visited' → visited.Nodup → visited'.Nodup
  | .again _, h => h
  | .outside hnew _, h => List.nodup_cons.2 ⟨hnew, h⟩
  | .enter hnew _ honward, h => honward.nodup (List.nodup_cons.2 ⟨hnew, h⟩)

/-- The same holds of several keys. -/
theorem TourAll.nodup {visited visited' ks : List String} {order : List Declaration} :
    TourAll declared visited ks order visited' → visited.Nodup → visited'.Nodup
  | .nil, h => h
  | .cons hfirst hothers, h => hothers.nodup (hfirst.nodup h)

end

mutual

/-- What has been met stays met. -/
theorem Tour.subset {visited visited' : List String} {k : String} {order : List Declaration} :
    Tour declared visited k order visited' → visited ⊆ visited'
  | .again _ => List.Subset.refl _
  | .outside _ _ => List.subset_cons_self _ _
  | .enter _ _ honward => List.Subset.trans (List.subset_cons_self _ _) honward.subset

/-- The same holds of several keys. -/
theorem TourAll.subset {visited visited' ks : List String} {order : List Declaration} :
    TourAll declared visited ks order visited' → visited ⊆ visited'
  | .nil => List.Subset.refl _
  | .cons hfirst hothers => List.Subset.trans hfirst.subset hothers.subset

end

mutual

/-- A tour comes by the declarations of the keys it meets, in the order in which it meets
them; the list of the keys met has the latest one first. -/
theorem Tour.filterMap_reverse {visited visited' : List String} {k : String}
    {order : List Declaration} :
    Tour declared visited k order visited' →
      visited'.reverse.filterMap declared = visited.reverse.filterMap declared ++ order
  | .again _ => (List.append_nil _).symm
  | .outside _ habsent => by
    simp [habsent]
  | .enter _ hfound honward => by
    rw [honward.filterMap_reverse]
    simp [hfound]

/-- The same holds of several keys. -/
theorem TourAll.filterMap_reverse {visited visited' ks : List String} {order : List Declaration} :
    TourAll declared visited ks order visited' →
      visited'.reverse.filterMap declared = visited.reverse.filterMap declared ++ order
  | .nil => (List.append_nil _).symm
  | .cons hfirst hothers => by
    rw [hothers.filterMap_reverse, hfirst.filterMap_reverse, List.append_assoc]

end

mutual

/-- Only what can be reached is met. -/
theorem Tour.leadsTo {visited visited' : List String} {k k' : String}
    {order : List Declaration} :
    Tour declared visited k order visited' → k' ∈ visited' → k' ∈ visited ∨ LeadsTo declared k k'
  | .again _, h => .inl h
  | .outside _ _, h => by
    obtain rfl | h := List.mem_cons.1 h
    · exact .inr .refl
    · exact .inl h
  | .enter _ hfound honward, h => by
    obtain h | ⟨next, hnext, hleads⟩ := honward.leadsTo h
    · obtain rfl | h := List.mem_cons.1 h
      · exact .inr .refl
      · exact .inl h
    · exact .inr (hleads.head ((namesNext_iff hfound).2 hnext))

/-- What is met from several keys can be reached from one of them. -/
theorem TourAll.leadsTo {visited visited' ks : List String} {k' : String}
    {order : List Declaration} :
    TourAll declared visited ks order visited' → k' ∈ visited' →
      k' ∈ visited ∨ ∃ k ∈ ks, LeadsTo declared k k'
  | .nil, h => .inl h
  | .cons hfirst hothers, h => by
    obtain h | ⟨k, hk, hleads⟩ := hothers.leadsTo h
    · obtain h | hleads := hfirst.leadsTo h
      · exact .inl h
      · exact .inr ⟨_, List.mem_cons_self, hleads⟩
    · exact .inr ⟨k, List.mem_cons_of_mem _ hk, hleads⟩

end

/-- The keys `met` include what each of them that is not among `visited` names. -/
def ClosedBut (declared : String → Option Declaration) (visited met : List String) : Prop :=
  ∀ k ∈ met, k ∈ visited ∨ ∀ k', NamesNext declared k k' → k' ∈ met

/-- What is closed but for some keys is so for more keys, and after more has been met that is
closed but for it. -/
theorem ClosedBut.trans {visited met met' : List String} (h : ClosedBut declared visited met)
    (h' : ClosedBut declared met met') (hsubset : met ⊆ met') :
  ClosedBut declared visited met'
  := by
  intro k hk
  obtain hk | hclosed := h' k hk
  · obtain hk | hclosed := h k hk
    · exact .inl hk
    · exact .inr fun k' hnames => hsubset (hclosed k' hnames)
  · exact .inr hclosed

mutual

/-- The key that a tour begins with is met, and so is what the keys met on it name. -/
theorem Tour.closedBut {visited visited' : List String} {k : String} {order : List Declaration} :
    Tour declared visited k order visited' → k ∈ visited' ∧ ClosedBut declared visited visited'
  | .again hmet => ⟨hmet, fun _ hk => .inl hk⟩
  | .outside _ habsent => by
    refine ⟨List.mem_cons_self, fun k' hk' => ?_⟩
    obtain rfl | hk' := List.mem_cons.1 hk'
    · refine .inr fun next ⟨d, hfound, _⟩ => ?_
      cases habsent.symm.trans hfound
    · exact .inl hk'
  | .enter _ hfound honward => by
    obtain ⟨hnext, hclosed⟩ := honward.closedBut
    refine ⟨honward.subset List.mem_cons_self, fun k' hk' => ?_⟩
    obtain hk' | hk' := hclosed k' hk'
    · obtain rfl | hk' := List.mem_cons.1 hk'
      · exact .inr fun next hnames => hnext next ((namesNext_iff hfound).1 hnames)
      · exact .inl hk'
    · exact .inr hk'

/-- The keys that tours begin with are met, and so is what the keys met on them name. -/
theorem TourAll.closedBut {visited visited' ks : List String} {order : List Declaration} :
    TourAll declared visited ks order visited' →
      (∀ k ∈ ks, k ∈ visited') ∧ ClosedBut declared visited visited'
  | .nil => ⟨by simp, fun _ hk => .inl hk⟩
  | .cons hfirst hothers => by
    obtain ⟨hk, hclosed⟩ := hfirst.closedBut
    obtain ⟨hks, hclosed'⟩ := hothers.closedBut
    exact ⟨List.forall_mem_cons.2 ⟨hothers.subset hk, hks⟩, hclosed.trans hclosed' hothers.subset⟩

end

/-- A tour that begins where nothing has been met meets exactly what can be reached. -/
theorem Tour.mem_iff_leadsTo (h : Tour declared [] k order met) :
  k' ∈ met ↔ LeadsTo declared k k'
  := by
  obtain ⟨hk, hclosed⟩ := h.closedBut
  constructor
  · intro hk'
    obtain hnil | hleads := h.leadsTo hk'
    · cases hnil
    · exact hleads
  · intro hleads
    induction hleads with
    | refl => exact hk
    | tail _ hnames ih => exact (hclosed _ ih).resolve_left List.not_mem_nil _ hnames

/-- The declarations on such a tour are those of the keys that can be reached. -/
theorem Tour.mem_order_iff (h : Tour declared [] k order met) :
  d ∈ order ↔ ∃ k', LeadsTo declared k k' ∧ declared k' = some d
  := by
  have horder : met.reverse.filterMap declared = order := h.filterMap_reverse
  simp only [← horder, List.mem_filterMap, List.mem_reverse, h.mem_iff_leadsTo]

end Tours

/-! ### The method that is found -/

section Members

variable {d : Declaration} {name : String} {m : Member} {order : List Declaration}

/-- The method that is found in a declaration is the first one of its name. -/
theorem Declaration.member?_eq_some_iff :
  d.member? name = some m ↔ d.DeclaresFirst name m
  := by
  rw [member?, List.find?_eq_some_iff_append, DeclaresFirst, Text.sameFolded_iff]
  constructor
  · rintro ⟨hname, before, after, hmembers, hbefore⟩
    refine ⟨before, after, hmembers, hname, fun m' hm' hsame => ?_⟩
    have hdiffers := hbefore m' hm'
    rw [Text.sameFolded_iff.2 hsame] at hdiffers
    cases hdiffers
  · rintro ⟨before, after, hmembers, hname, hbefore⟩
    refine ⟨hname, before, after, hmembers, fun m' hm' => ?_⟩
    rw [Bool.not_eq_true', ← Bool.not_eq_true, Text.sameFolded_iff]
    apply hbefore m' hm'

/-- No method is found in a declaration that declares none of the name. -/
theorem Declaration.member?_eq_none_iff :
  d.member? name = none ↔ ¬ d.Declares name
  := by
  rw [member?, List.find?_eq_none, Declares]
  simp

/-- The method that is found is the first one among the declarations. -/
theorem findSome?_member?_eq_some_iff :
  order.findSome? (·.member? name) = some m ↔ FirstAmong order name m
  := by
  rw [List.findSome?_eq_some_iff]
  simp only [Declaration.member?_eq_some_iff, Declaration.member?_eq_none_iff, FirstAmong]

end Members

namespace ProjectIndex

variable {index : ProjectIndex} {member name : String} {order : List Declaration}
  {met : List String}

/-- A look-up gives the first method on the tour. -/
theorem findMember?_of_tour (h : Tour index.atKey? [] (key name) order met) :
  index.findMember? member name = order.findSome? (·.member? member)
  := by
  rw [findMember?, h.search_cons, search_nil, Option.or_none]

/-- From every name there is one tour.  It meets every key that traits and parents lead to, each
once, and comes by their declarations in the order in which it meets them.  A look-up ends with
the first method of the name in the first declaration on the tour that has one, and without a
method exactly when no declaration that can be reached has one.  So a method counts as static
when that first one is static, whatever the declarations after it say. -/
theorem findMember?_first_on_tour (index : ProjectIndex) (member name : String) :
  ∃ order met,
    (∀ order' met', Tour index.atKey? [] (key name) order' met' ↔ order' = order ∧ met' = met)
    ∧ met.Nodup ∧ (∀ k, k ∈ met ↔ LeadsTo index.atKey? (key name) k)
    ∧ order = met.reverse.filterMap index.atKey?
    ∧ (∀ m, index.findMember? member name = some m ↔ FirstAmong order member m)
    ∧ (index.findMember? member name = none
      ↔ ∀ k d, LeadsTo index.atKey? (key name) k → index.atKey? k = some d →
          ¬ d.Declares member)
    ∧ (index.isStaticMember member name = true
      ↔ ∃ m, FirstAmong order member m ∧ m.isStatic = true)
  := by
  obtain ⟨order, met, htour, -⟩ := index.exists_tour [] (key name)
  have hfound (m : Member) :
      index.findMember? member name = some m ↔ FirstAmong order member m := by
    rw [findMember?_of_tour htour, findSome?_member?_eq_some_iff]
  refine ⟨order, met, ?_, htour.nodup List.nodup_nil, fun k => htour.mem_iff_leadsTo,
    htour.filterMap_reverse.symm, hfound, ?_, ?_⟩
  · intro order' met'
    constructor
    · intro htour'
      apply htour.unique _ _ htour'
    · rintro ⟨rfl, rfl⟩
      exact htour
  · rw [findMember?_of_tour htour, List.findSome?_eq_none_iff]
    simp only [Declaration.member?_eq_none_iff, htour.mem_order_iff]
    constructor
    · intro hnone k d hleads hk
      exact hnone d ⟨k, hleads, hk⟩
    · rintro hnone d ⟨k, hleads, hk⟩
      exact hnone k d hleads hk
  · rw [isStaticMember, Option.any_eq_true]
    simp only [hfound]

end ProjectIndex

end Amend
