import Amend.Disk.Resolve
import Mathlib.Data.List.Basic

/-!
# The names of places

A path leads to a place whose names are neither empty nor have a slash in them
(`Disk.proper_of_locate`), when the directory that relative paths are taken from is such a place.
Two such places with the same path are the same (`Location.path_inj`).
-/

namespace Amend

/-- No name on the way to the place is empty or has a slash in it. -/
def Location.Proper (l : Location) : Prop := ∀ name ∈ l, name ≠ "" ∧ '/' ∉ name.toList

instance (l : Location) : Decidable (Location.Proper l) :=
  inferInstanceAs (Decidable (∀ name ∈ l, name ≠ "" ∧ '/' ∉ name.toList))

/-- The leg leads to a proper place, or to a link with pieces without slashes left after it. -/
def Leg.Proper : Leg → Prop
  | .arrived place => Location.Proper place
  | .missing place => Location.Proper place
  | .link directory _ rest => Location.Proper directory ∧ ∀ piece ∈ rest, '/' ∉ piece.toList
  | .failed _ => True

variable {d : Disk} {l l' place : Location} {pieces : List String}

/-! ### Paths of places -/

/-- The pieces of a list have no separator in them. -/
theorem notMem_of_mem_splitOn {c : Char} {cs piece : List Char} (h : piece ∈ cs.splitOn c) :
  c ∉ piece
  := by
  induction cs generalizing piece with
  | nil =>
    rw [List.splitOn_nil, List.mem_singleton] at h
    rw [h]
    exact List.not_mem_nil
  | cons first cs ih =>
    rw [List.splitOn_cons_eq_if_modifyHead] at h
    split at h
    next hfirst =>
      obtain rfl | h := List.mem_cons.1 h
      · exact List.not_mem_nil
      · exact ih h
    next hfirst =>
      obtain ⟨head, tail, hsplit⟩ := List.exists_cons_of_ne_nil (List.splitOn_ne_nil c cs)
      rw [hsplit, List.modifyHead_cons] at h
      rw [hsplit] at ih
      obtain rfl | h := List.mem_cons.1 h
      · rw [List.mem_cons, not_or]
        exact ⟨fun heq => hfirst (beq_iff_eq.2 heq.symm), ih List.mem_cons_self⟩
      · exact ih (List.mem_cons_of_mem _ h)

/-- The pieces of a path have no slash in them. -/
theorem Path.slash_notMem_of_mem_pieces {path piece : String} (h : piece ∈ Path.pieces path) :
  '/' ∉ piece.toList
  := by
  rw [Path.pieces, Text.splitOn, List.mem_map] at h
  obtain ⟨cs, hcs, rfl⟩ := h
  rw [String.toList_ofList]
  apply notMem_of_mem_splitOn hcs

namespace Location

/-- The directory of a proper place is a proper place. -/
theorem Proper.dropLast (h : Proper l) :
  Proper (List.dropLast l)
  := fun _ hname => h _ (List.dropLast_subset _ hname)

/-- A piece that is not idle leads from a proper place to a proper one. -/
theorem Proper.append_singleton (h : Proper l) {piece : String} (hidle : ¬ Path.isIdle piece = true)
    (hslash : '/' ∉ piece.toList) :
  Proper (l ++ [piece])
  := by
  intro name hname
  obtain hname | hname := List.mem_append.1 hname
  · exact h name hname
  · rw [List.mem_singleton.1 hname]
    refine ⟨?_, hslash⟩
    rintro rfl
    exact hidle rfl

/-- Slashes cut the path of a place into its names, after the slash at its start. -/
theorem pieces_path (h : Proper l) (hl : l ≠ []) :
  Path.pieces l.path = "" :: l
  := by
  have hpath : l.path.toList = ['/'].intercalate ([] :: l.map String.toList) := by
    have hnames : l.map String.toList ≠ [] := by
      rw [Ne, List.map_eq_nil_iff]
      exact hl
    rw [Location.path, String.toList_append, String.toList_intercalate,
      List.intercalate_cons_of_ne_nil hnames]
    rfl
  have hslash : ∀ name ∈ [] :: l.map String.toList, '/' ∉ name := by
    rw [List.forall_mem_cons, List.forall_mem_map]
    exact ⟨List.not_mem_nil, fun name hname => (h name hname).2⟩
  rw [Path.pieces, Text.splitOn, hpath,
    List.splitOn_intercalate '/' hslash (List.cons_ne_nil _ _), List.map_cons, List.map_map]
  simp

/-- The root is the only proper place with its path. -/
theorem eq_nil_of_path_eq (h : Proper l) (heq : l.path = path []) :
  l = []
  := by
  by_contra hl
  have hroot : Path.pieces (path []) = ["", ""] := by decide
  have hpieces := pieces_path h hl
  rw [heq, hroot] at hpieces
  obtain rfl := (List.cons.inj hpieces).2
  exact (h "" List.mem_cons_self).1 rfl

/-- Proper places with the same path are the same. -/
theorem path_inj (h : Proper l) (h' : Proper l') (heq : l.path = l'.path) :
  l = l'
  := by
  by_cases hl : l = []
  · rw [hl] at heq ⊢
    exact (eq_nil_of_path_eq h' heq.symm).symm
  · by_cases hl' : l' = []
    · rw [hl'] at heq ⊢
      exact eq_nil_of_path_eq h heq
    · have hpieces := pieces_path h hl
      rw [heq, pieces_path h' hl'] at hpieces
      exact (List.cons.inj hpieces).2.symm

end Location

/-! ### Where paths lead -/

namespace Disk

variable {path : String}

/-- A path is one of a file when it leads to a file. -/
theorem isFile_iff :
  d.isFile path = true
    ↔ ∃ place content, d.locate path = .ok place ∧ d.lookup? place = some (.file content)
  := by
  rw [isFile, entryOf?]
  constructor
  · intro h
    split at h
    next content hentry =>
      split at hentry
      next place hlocate => exact ⟨place, content, hlocate, hentry⟩
      next => cases hentry
    next => cases h
  · rintro ⟨place, content, hlocate, hentry⟩
    rw [hlocate]
    dsimp only
    rw [hentry]

/-- A path is one of a directory when it leads to a directory. -/
theorem isDirectory_iff :
  d.isDirectory path = true
    ↔ ∃ place, d.locate path = .ok place ∧ d.lookup? place = some .directory
  := by
  rw [isDirectory, entryOf?]
  constructor
  · intro h
    split at h
    next hentry =>
      split at hentry
      next place hlocate => exact ⟨place, hlocate, hentry⟩
      next => cases hentry
    next => cases h
  · rintro ⟨place, hlocate, hentry⟩
    rw [hlocate]
    dsimp only
    rw [hentry]

theorem locate_of_toOption_eq_some (h : (d.locate path).toOption = some place) :
  d.locate path = .ok place
  := by
  cases hlocate : d.locate path with
  | error reason =>
    rw [hlocate] at h
    cases h
  | ok other =>
    rw [hlocate] at h
    cases h
    rfl

/-- A part of a path leads from proper places to proper places. -/
theorem proper_leg (hplace : Location.Proper place) (hpieces : ∀ piece ∈ pieces, '/' ∉ piece.toList)
    (purpose : Purpose) :
  (d.leg purpose place pieces).Proper
  := by
  fun_induction leg d purpose place pieces with
  | case1 place => exact hplace
  | case3 place piece rest hentry hidle ih =>
    rw [List.forall_mem_cons] at hpieces
    exact ih hplace hpieces.2
  | case4 place rest hentry hidle ih =>
    rw [List.forall_mem_cons] at hpieces
    exact ih hplace.dropLast hpieces.2
  | case7 place piece hentry hidle =>
    rw [List.forall_mem_cons] at hpieces
    exact hplace.append_singleton hidle hpieces.1
  | case9 place piece rest hentry hidle =>
    rw [List.forall_mem_cons] at hpieces
    exact hplace.append_singleton hidle hpieces.1
  | case10 place piece rest hentry hidle =>
    rw [List.forall_mem_cons] at hpieces
    exact ⟨hplace, hpieces.2⟩
  | case11 place piece rest hentry hidle hup hslashes hshort entry hlink hbelow ih =>
    rw [List.forall_mem_cons] at hpieces
    exact ih (hplace.append_singleton hidle hpieces.1) hpieces.2
  | case2 | case5 | case6 | case8 | case12 => trivial

/-- A path begins at a proper place. -/
theorem proper_origin (hplace : Location.Proper place) (path : String) :
  Location.Proper (origin place path)
  := by
  rw [origin]
  split
  · exact fun _ hname => absurd hname List.not_mem_nil
  · exact hplace

/-- A path leads from proper places to proper places. -/
theorem proper_of_follow (hplace : Location.Proper place)
    (hpieces : ∀ piece ∈ pieces, '/' ∉ piece.toList) {purpose : Purpose} {links : Nat}
    (h : d.follow purpose links place pieces = .ok (.present l)) :
  Location.Proper l
  := by
  have hleg := proper_leg (d := d) hplace hpieces purpose
  fun_induction follow d purpose links place pieces with
  | case1 links place pieces arrival hend =>
    rw [hend] at hleg
    cases h
    exact hleg
  | case2 links place pieces arrival hend => cases h
  | case3 links place pieces reason hend => cases h
  | case4 place pieces directory target rest hend => cases h
  | case5 place pieces directory target rest hend links ih =>
    rw [hend] at hleg
    obtain ⟨hdirectory, hrest⟩ := hleg
    have hstart := proper_origin hdirectory target
    have hahead : ∀ piece ∈ Path.pieces target ++ rest, '/' ∉ piece.toList := by
      rw [List.forall_mem_append]
      exact ⟨fun _ => Path.slash_notMem_of_mem_pieces, hrest⟩
    apply ih hstart hahead h
    apply proper_leg hstart hahead

/-- A path leads to a proper place when relative paths are taken from one. -/
theorem proper_of_locate (hhere : Location.Proper d.here)
    (h : d.locate path = .ok place) :
  Location.Proper place
  := by
  have hpresent : d.resolve .target path = .ok (.present place) := by
    rw [locate] at h
    split at h
    next hresolve =>
      cases h
      exact hresolve
    all_goals cases h
  rw [resolve] at hpresent
  split at hpresent
  · cases hpresent
  · split at hpresent
    · cases hpresent
    · split at hpresent
      · cases hpresent
      · exact proper_of_follow (proper_origin hhere path)
          (fun _ => Path.slash_notMem_of_mem_pieces) hpresent

end Disk

end Amend
