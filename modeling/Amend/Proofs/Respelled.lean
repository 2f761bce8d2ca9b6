import Amend.Proofs.Lookup
import Amend.Proofs.Spellings

/-!
# An index in another spelling

Declarations may be spelled in another way: the names of classes as `SameName` has it, and those of
methods in other letters.  The index of the declarations in the other spelling answers every
question alike, however the names in the question are spelled
(`ProjectIndex.Respelled.isStaticMember_eq`, `ProjectIndex.Respelled.value_isSubtype_eq`).
-/

namespace Amend

/-- The same method, its name in other letters. -/
structure Member.Respelled (m m' : Member) : Prop where
  name : Text.Respelled m.name m'.name
  isStatic_eq : m'.isStatic = m.isStatic

/-- The same declaration, with all its names in another spelling. -/
structure Declaration.Respelled (d d' : Declaration) : Prop where
  name : SameName d.name d'.name
  parent : Option.Rel SameName d.parent d'.parent
  traits : List.Forall₂ SameName d.traits d'.traits
  members : List.Forall₂ Member.Respelled d.members d'.members

/-- The indexes hold the same declarations under the same keys, in one spelling and in another. -/
def ProjectIndex.Respelled (index index' : ProjectIndex) : Prop :=
  ∀ k, Option.Rel Declaration.Respelled (index.atKey? k) (index'.atKey? k)

variable {d d' : Declaration} {ds ds' : List Declaration} {index index' : ProjectIndex}
  {member member' name name' base base' : String}

namespace Declaration.Respelled

/-- The key of the parent is the same. -/
theorem parent_eq (h : d.Respelled d') :
  d'.parent.map key = d.parent.map key
  := rel_map_eq h.parent fun _ _ hname => hname.key_eq

/-- The search goes on to the same keys. -/
theorem successors_eq (h : d.Respelled d') :
  ProjectIndex.successors d' = ProjectIndex.successors d
  := by
  have htraits : d'.traits.map key = d.traits.map key :=
    forall₂_map_eq h.traits fun _ _ hname => hname.key_eq
  rw [ProjectIndex.successors, ProjectIndex.successors, htraits, h.parent_eq]

/-- The first method of a name is the same one, in another spelling. -/
theorem member? (h : d.Respelled d') (hmember : Text.Respelled member member') :
  Option.Rel Member.Respelled (d.member? member) (d'.member? member')
  := by
  apply forall₂_find? h.members
  intro m m' hm
  apply Text.sameFolded_congr hm.name hmember

end Declaration.Respelled

namespace ProjectIndex

/-- Where nothing is declared there is nothing to spell. -/
theorem respelled_empty :
  empty.Respelled empty
  := fun _ => .none

/-- Declarations that are inserted in another spelling are found in another spelling. -/
theorem Respelled.insertAll (h : index.Respelled index')
    (hds : List.Forall₂ Declaration.Respelled ds ds') :
  (index.insertAll ds).value.Respelled (index'.insertAll ds').value
  := by
  intro k
  have hlast : Option.Rel Declaration.Respelled (ds.reverse.find? fun d => key d.name = k)
      (ds'.reverse.find? fun d => key d.name = k) := by
    apply forall₂_find? (List.forall₂_reverse_iff.2 hds)
    intro d d' hd
    rw [hd.name.key_eq]
  rw [atKey?_insertAll, atKey?_insertAll]
  apply rel_or hlast (h k)

namespace Respelled

/-- The search goes through the same keys. -/
theorem rel_search (h : index.Respelled index') (hmember : Text.Respelled member member')
    (visited ks : List String) :
  Option.Rel Member.Respelled (index.search member visited ks) (index'.search member' visited ks)
  := by
  fun_induction search index member visited ks with
  | case1 =>
    rw [search_nil]
    exact .none
  | case2 visited k pending hmet ih => rwa [search_of_mem hmet]
  | case3 visited k pending hnew habsent ih =>
    have habsent' := eq_none_of_rel (h k) habsent
    rwa [search_of_none hnew habsent']
  | case4 visited k pending hnew d hfound m hm =>
    obtain ⟨d', hfound', hd⟩ := exists_of_rel (h k) hfound
    obtain ⟨m', hm', hmm'⟩ := exists_of_rel (hd.member? hmember) hm
    rw [search_of_some hnew hfound', hm', Option.some_or]
    exact .some hmm'
  | case5 visited k pending hnew d hfound hnone ih =>
    obtain ⟨d', hfound', hd⟩ := exists_of_rel (h k) hfound
    rwa [search_of_some hnew hfound', eq_none_of_rel (hd.member? hmember) hnone, Option.none_or,
      hd.successors_eq]

/-- A method is static or not, however it and the class are spelled. -/
theorem isStaticMember_eq (h : index.Respelled index') (hmember : Text.Respelled member member')
    (hname : SameName name name') :
  index'.isStaticMember member' name' = index.isStaticMember member name
  := by
  rw [isStaticMember, isStaticMember, findMember?, findMember?, hname.key_eq]
  apply rel_any_eq (h.rel_search hmember [] [key name])
  intro m m' hm
  apply hm.isStatic_eq

/-- The parents lead from key to key in the same way. -/
theorem extends_eq (h : index.Respelled index') :
  Extends index'.atKey? = Extends index.atKey?
  := by
  funext k k'
  have hparent : (index'.atKey? k).map (·.parent.map key)
      = (index.atKey? k).map (·.parent.map key) :=
    rel_map_eq (h k) fun _ _ hd => hd.parent_eq
  have hextends (i : ProjectIndex) :
      Extends i.atKey? k k' ↔ (i.atKey? k).map (·.parent.map key) = some (some k') := by
    rw [Extends, Option.map_eq_some_iff]
  rw [eq_iff_iff, hextends, hextends, hparent]

/-- A class extends another one or does not, however the two are spelled. -/
theorem value_isSubtype_eq (h : index.Respelled index') (hname : SameName name name')
    (hbase : SameName base base') :
  (index'.isSubtype name' base').value = (index.isSubtype name base).value
  := by
  rw [Bool.eq_iff_iff, value_isSubtype_iff, value_isSubtype_iff, Inherits, Inherits, h.extends_eq,
    hname.key_eq, hbase.key_eq]

end Respelled

end ProjectIndex

end Amend
