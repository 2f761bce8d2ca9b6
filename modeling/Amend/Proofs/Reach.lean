import Amend.Proofs.Tours

/-!
# What an answer of the index depends on

An answer about a name depends on the declarations that traits and parents lead to from that name,
and on no other (`ProjectIndex.answersAlike_of_agreeFrom`).  So a declaration of a key that cannot
be reached from the name makes no difference, whether it is new or takes the place of another one
(`ProjectIndex.agreeFrom_insertAll`).
-/

namespace Amend

/-- Two ways of declaring keys agree on every key that the first one leads to from `k`. -/
def AgreeFrom (declared declared' : String → Option Declaration) (k : String) : Prop :=
  ∀ k', LeadsTo declared k k' → declared' k' = declared k'

/-- Whatever is asked about a declaration, the answers are the same, and so are the records that
they leave. -/
structure Queries.AnswersAlike (queries queries' : Queries) (declaration : String) : Prop where
  isStaticMember_eq : ∀ member,
    queries'.isStaticMember member declaration = queries.isStaticMember member declaration
  isSubtype_eq : ∀ ancestor,
    queries'.isSubtype declaration ancestor = queries.isSubtype declaration ancestor

section Agreement

variable {declared declared' : String → Option Declaration} {k k' : String} {d : Declaration}

/-- What is declared under the key itself is the same. -/
theorem AgreeFrom.eq (h : AgreeFrom declared declared' k) :
  declared' k = declared k
  := h k .refl

/-- Agreement goes on to what a declaration names. -/
theorem AgreeFrom.onward (h : AgreeFrom declared declared' k) (hnames : NamesNext declared k k') :
  AgreeFrom declared declared' k'
  := by
  intro k'' hleads
  apply h k'' (hleads.head hnames)

/-- Agreement goes on to the traits and the parent. -/
theorem AgreeFrom.onwardAll (h : AgreeFrom declared declared' k) (hfound : declared k = some d) :
  ∀ k' ∈ d.traits.map key ++ (d.parent.map key).toList, AgreeFrom declared declared' k'
  := by
  intro k' hk'
  apply h.onward ((namesNext_iff hfound).2 hk')

mutual

/-- A tour comes by the declarations that can be reached. -/
theorem Tour.of_agreeFrom {visited visited' : List String} {k : String}
    {order : List Declaration} :
    Tour declared visited k order visited' → AgreeFrom declared declared' k →
      Tour declared' visited k order visited'
  | .again hmet, _ => .again hmet
  | .outside hnew habsent, h => .outside hnew (h.eq.trans habsent)
  | .enter hnew hfound honward, h =>
    .enter hnew (h.eq.trans hfound) (honward.of_agreeFrom (h.onwardAll hfound))

/-- The same holds of several keys. -/
theorem TourAll.of_agreeFrom {visited visited' ks : List String} {order : List Declaration} :
    TourAll declared visited ks order visited' → (∀ k ∈ ks, AgreeFrom declared declared' k) →
      TourAll declared' visited ks order visited'
  | .nil, _ => .nil
  | .cons hfirst hothers, h => by
    obtain ⟨hk, hks⟩ := List.forall_mem_cons.1 h
    exact .cons (hfirst.of_agreeFrom hk) (hothers.of_agreeFrom hks)

end

end Agreement

namespace ProjectIndex

variable {index index' : ProjectIndex} {member name target k : String} {visited : List String}
  {d : Declaration} {ds : List Declaration}

/-! ### The answers -/

/-- The method that is found depends on what can be reached. -/
theorem findMember?_of_agreeFrom (h : AgreeFrom index.atKey? index'.atKey? (key name)) :
  index'.findMember? member name = index.findMember? member name
  := by
  obtain ⟨order, met, htour, -⟩ := index.exists_tour [] (key name)
  rw [findMember?_of_tour htour, findMember?_of_tour (htour.of_agreeFrom h)]

/-- The climb ends without success where nothing is declared. -/
theorem climb_of_none (hk : k ≠ target) (hnew : k ∉ visited) (h : index.atKey? k = none) :
  index.climb target visited k = pure false
  := by
  rw [climb, if_neg hk, dif_neg hnew]
  split
  · rfl
  · rename_i h'
    cases h.symm.trans h'

/-- The climb goes on to the parent, if there is one. -/
theorem climb_of_some (hk : k ≠ target) (hnew : k ∉ visited) (h : index.atKey? k = some d) :
  index.climb target visited k
    = (d.parent.map key).elim (pure false) (index.climb target (k :: visited))
  := by
  rw [climb, if_neg hk, dif_neg hnew]
  split
  · rename_i h'
    cases h.symm.trans h'
  · rename_i h'
    cases h.symm.trans h'
    cases d.parent <;> rfl

/-- The way up along the parents, with the records that it leaves. -/
theorem climb_of_agreeFrom (h : AgreeFrom index.atKey? index'.atKey? k) :
  index'.climb target visited k = index.climb target visited k
  := by
  fun_induction climb index target visited k with
  | case1 visited => rw [climb, if_pos rfl]
  | case2 visited k hk hmet => rw [climb, if_neg hk, dif_pos hmet]
  | case3 visited k hk hmet habsent => apply climb_of_none hk hmet (h.eq.trans habsent)
  | case4 visited k hk hmet d hfound hparent =>
    rw [climb_of_some hk hmet (h.eq.trans hfound), hparent]
    rfl
  | case5 visited k hk hmet d hfound parent hparent ih =>
    rw [climb_of_some hk hmet (h.eq.trans hfound), hparent]
    apply ih (h.onward ⟨d, hfound, .inr ⟨parent, hparent, rfl⟩⟩)

/-- Indexes that agree on what can be reached from a name answer alike about it. -/
theorem answersAlike_of_agreeFrom (h : AgreeFrom index.atKey? index'.atKey? (key name)) :
  Queries.AnswersAlike index.queries index'.queries name
  := by
  constructor
  · intro member
    change (index'.findMember? member name).any _ = (index.findMember? member name).any _
    rw [findMember?_of_agreeFrom h]
  · intro ancestor
    apply climb_of_agreeFrom h

/-! ### Declarations that cannot be reached -/

/-- Declarations that are inserted are seen only from where their keys can be reached. -/
theorem agreeFrom_insertAll (h : ∀ d ∈ ds, ¬ LeadsTo index.atKey? k (key d.name)) :
  AgreeFrom index.atKey? (index.insertAll ds).value.atKey? k
  := by
  intro k' hleads
  have hnone : (ds.reverse.find? fun d => key d.name = k') = none := by
    rw [List.find?_eq_none]
    intro d hd hkey
    rw [decide_eq_true_eq] at hkey
    apply h d (List.mem_reverse.1 hd)
    rwa [hkey]
  rw [atKey?_insertAll, hnone, Option.none_or]

end ProjectIndex

end Amend
