import Amend.Disk.Files

/-!
# Writing to files that are there

Writing a text to a file that is there changes what the file holds and nothing else
(`Disk.Opens.overwrites`).  Where paths lead does not depend on what files hold
(`Disk.SameLayout.locate_eq`), so paths lead to the same places before and after.
-/

namespace Amend

/-- The entry with another text in it, if it is a file. -/
def Entry.withText (s : String) : Entry → Entry
  | .file _ => .file (.text s)
  | e => e

@[simp]
theorem Entry.withText_comp_withText (s t : String) :
  Entry.withText t ∘ Entry.withText s = Entry.withText t
  := by
  funext e
  cases e <;> rfl

namespace Disk

/-- Two disks are the same up to what their files hold. -/
structure SameLayout (d d' : Disk) : Prop where
  here_eq : d'.here = d.here
  map_lookup?_eq : ∀ l,
    (d'.lookup? l).map (Entry.withText "") = (d.lookup? l).map (Entry.withText "")

/-- One disk is the other one with the text `s` in the file at a place, if there is a file. -/
structure Overwrites (d : Disk) (place : Location) (s : String) (d' : Disk) : Prop where
  here_eq : d'.here = d.here
  lookup?_eq : ∀ l,
    d'.lookup? l = if l = place then (d.lookup? l).map (Entry.withText s) else d.lookup? l

/-- A path leads to a file or to a device at a place. -/
structure Opens (d : Disk) (path : String) (place : Location) : Prop where
  locate_eq : d.locate path = .ok place
  entry : (∃ content, d.lookup? place = some (.file content))
    ∨ ∃ device, d.lookup? place = some (.device device)

variable {d d' d'' : Disk} {path s : String} {place p : Location} {pieces : List String}
  {purpose : Purpose} {links : Nat}

/-! ### The same layout -/

namespace SameLayout

theorem refl (d : Disk) :
  d.SameLayout d
  := ⟨rfl, fun _ => rfl⟩

theorem trans (h : d.SameLayout d') (h' : d'.SameLayout d'') :
  d.SameLayout d''
  := by
  constructor
  · rw [h'.here_eq, h.here_eq]
  · intro l
    rw [h'.map_lookup?_eq, h.map_lookup?_eq]

/-- What the files hold does not matter once another text has been put in them. -/
theorem map_withText_eq (h : d.SameLayout d') (s : String) (l : Location) :
  (d'.lookup? l).map (Entry.withText s) = (d.lookup? l).map (Entry.withText s)
  := by
  rw [← Entry.withText_comp_withText "" s, ← Option.map_map, ← Option.map_map,
    h.map_lookup?_eq]

/-- At every place stand equal entries or files. -/
theorem eq_or_files (h : d.SameLayout d') (l : Location) :
  d'.lookup? l = d.lookup? l
    ∨ ∃ content content', d.lookup? l = some (.file content)
      ∧ d'.lookup? l = some (.file content')
  := by
  have heq := h.map_lookup?_eq l
  generalize d.lookup? l = o at heq ⊢
  generalize d'.lookup? l = o' at heq ⊢
  rcases o with _ | (_ | _ | _ | _) <;> rcases o' with _ | (_ | _ | _ | _) <;> cases heq
  · exact .inl rfl
  · exact .inl rfl
  · exact .inr ⟨_, _, rfl, rfl⟩
  · exact .inl rfl
  · exact .inl rfl

/-- A part of a path leads on in the same way on both disks. -/
theorem leg_eq (h : d.SameLayout d') (purpose : Purpose) (place : Location)
    (pieces : List String) :
  d'.leg purpose place pieces = d.leg purpose place pieces
  := by
  induction pieces generalizing place with
  | nil => rfl
  | cons piece rest ih =>
    rw [leg, leg]
    obtain heq | ⟨_, _, hfile, hfile'⟩ := h.eq_or_files place
    · obtain heq' | ⟨_, _, hfile, hfile'⟩ := h.eq_or_files (place ++ [piece])
      · simp only [heq, heq', ih]
      · simp only [heq, hfile, hfile', ih]
    · simp only [hfile, hfile']

/-- A path leads on in the same way on both disks, through all its links. -/
theorem follow_eq (h : d.SameLayout d') (purpose : Purpose) (links : Nat) (place : Location)
    (pieces : List String) :
  d'.follow purpose links place pieces = d.follow purpose links place pieces
  := by
  induction links generalizing place pieces with
  | zero =>
    rw [follow, follow, h.leg_eq]
  | succ links ih =>
    rw [follow, follow, h.leg_eq]
    simp only [ih]

/-- A path stands for the same on both disks. -/
theorem resolve_eq (h : d.SameLayout d') (purpose : Purpose) (path : String) :
  d'.resolve purpose path = d.resolve purpose path
  := by
  simp only [resolve, h.here_eq, h.follow_eq]

/-- A path leads to the same place. -/
theorem locate_eq (h : d.SameLayout d') (path : String) :
  d'.locate path = d.locate path
  := by
  rw [locate, locate, h.resolve_eq]

/-- A file that can be opened on one disk can be on the other. -/
theorem opens (h : d.SameLayout d') (hopens : d.Opens path place) :
  d'.Opens path place
  := by
  constructor
  · rw [h.locate_eq, hopens.locate_eq]
  · obtain heq | ⟨_, content', _, hfile'⟩ := h.eq_or_files place
    · rw [heq]
      apply hopens.entry
    · exact .inl ⟨content', hfile'⟩

end SameLayout

/-- Overwriting a file leaves every entry where it was. -/
theorem Overwrites.sameLayout (h : d.Overwrites place s d') :
  d.SameLayout d'
  := by
  refine ⟨h.here_eq, fun l => ?_⟩
  rw [h.lookup?_eq]
  split
  · rw [Option.map_map, Entry.withText_comp_withText]
  · rfl

/-! ### A file is opened where its path leads -/

/-- A leg along a path with a slash at its end ends in a directory, or at a link before the
slash. -/
theorem leg_of_getLast?_eq (d : Disk) (place : Location) (hlast : pieces.getLast? = some "") :
  (∀ p, d.leg .target place pieces = .arrived p → d.lookup? p = some .directory)
    ∧ ∀ directory target rest, d.leg .target place pieces = .link directory target rest →
      rest.getLast? = some ""
  := by
  induction pieces generalizing place with
  | nil => cases hlast
  | cons piece rest ih =>
    rw [leg]
    cases hplace : d.lookup? place with
    | none => simp
    | some e =>
      cases rest with
      | nil =>
        obtain rfl := Option.some.inj hlast
        cases e <;> simp [Path.isIdle, leg, hplace]
      | cons next rest =>
        rw [List.getLast?_cons_cons] at hlast
        cases e with
        | directory =>
          dsimp only
          split
          · apply ih _ hlast
          split
          · apply ih _ hlast
          split
          · simp
          split
          · simp
          cases d.lookup? (place ++ [piece]) with
          | none => simp
          | some e' =>
            cases e' with
            | link target =>
              simp only [reduceCtorEq, false_and, if_false, Leg.link.injEq, false_implies,
                implies_true, true_and]
              rintro _ _ _ ⟨-, -, rfl⟩
              exact hlast
            | _ => apply ih _ hlast
        | _ => simp

/-- A path with a slash at its end leads to a directory. -/
theorem lookup?_of_follow (hlast : pieces.getLast? = some "")
    (h : d.follow .target links place pieces = .ok (.present p)) :
  d.lookup? p = some .directory
  := by
  induction links generalizing place pieces with
  | zero =>
    obtain ⟨harrived, -⟩ := leg_of_getLast?_eq d place hlast
    rw [follow] at h
    cases hleg : d.leg .target place pieces <;> rw [hleg] at h <;> cases h
    apply harrived _ hleg
  | succ links ih =>
    obtain ⟨harrived, hlink⟩ := leg_of_getLast?_eq d place hlast
    rw [follow] at h
    cases hleg : d.leg .target place pieces with
    | arrived place' =>
      rw [hleg] at h
      cases h
      apply harrived _ hleg
    | missing place' =>
      rw [hleg] at h
      cases h
    | failed reason =>
      rw [hleg] at h
      cases h
    | link directory target rest =>
      rw [hleg] at h
      have hrest := hlink _ _ _ hleg
      apply ih _ h
      rw [List.getLast?_append, hrest]
      rfl

/-- Along a path without a slash at its end it makes no difference that a file is wanted. -/
theorem leg_newFile (hlast : pieces.getLast? ≠ some "") :
  d.leg .newFile place pieces = d.leg .target place pieces
  := by
  induction pieces generalizing place with
  | nil => rfl
  | cons piece rest ih =>
    have hrest : rest.getLast? ≠ some "" := by
      cases rest with
      | nil => simp
      | cons next rest => rwa [List.getLast?_cons_cons] at hlast
    have hslash : ¬ (rest ≠ [] ∧ rest.all (· = "") = true) := by
      rintro ⟨hne, hall⟩
      apply hrest
      rw [List.getLast?_eq_some_getLast hne]
      have hmem := List.all_eq_true.1 hall _ (List.getLast_mem hne)
      rw [decide_eq_true_eq] at hmem
      rw [hmem]
    rw [leg, leg]
    simp only [ih hrest, hslash, reduceCtorEq, and_false, if_false]

/-- What is there is found alike, whether it may be made or not. -/
theorem follow_newFile (h : d.follow .target links place pieces = .ok (.present p))
    (hp : d.lookup? p ≠ some .directory) :
  d.follow .newFile links place pieces = .ok (.present p)
  := by
  induction links generalizing place pieces with
  | zero =>
    have hlast : pieces.getLast? ≠ some "" := fun hlast => hp (lookup?_of_follow hlast h)
    rw [follow] at h ⊢
    rw [leg_newFile hlast]
    exact h
  | succ links ih =>
    have hlast : pieces.getLast? ≠ some "" := fun hlast => hp (lookup?_of_follow hlast h)
    rw [follow] at h ⊢
    rw [leg_newFile hlast]
    cases hleg : d.leg .target place pieces with
    | link directory target rest =>
      rw [hleg] at h
      apply ih h
    | _ =>
      rw [hleg] at h
      exact h

/-- A file that is there is the one that a path stands for when a file is to be made. -/
theorem resolve_newFile (h : d.locate path = .ok p) (hp : d.lookup? p ≠ some .directory) :
  d.resolve .newFile path = .ok (.present p)
  := by
  have htarget : d.resolve .target path = .ok (.present p) := by
    rw [locate] at h
    cases hresolve : d.resolve .target path with
    | error reason =>
      rw [hresolve] at h
      cases h
    | ok destination =>
      rw [hresolve] at h
      cases destination <;> cases h
      rfl
  rw [resolve] at htarget ⊢
  split at htarget
  · cases htarget
  split at htarget
  · cases htarget
  split at htarget
  · cases htarget
  rename_i hnul hempty hlong
  rw [if_neg hnul, if_neg hempty, if_neg hlong]
  apply follow_newFile htarget hp

/-! ### Reading and writing -/

/-- What can be read can be opened. -/
theorem opens_of_read (h : d.read path = .ok s) :
  ∃ place, d.Opens path place
  := by
  rw [read] at h
  cases hlocate : d.locate path with
  | error reason =>
    rw [hlocate] at h
    cases h
  | ok place =>
    refine ⟨place, hlocate, ?_⟩
    rw [hlocate] at h
    dsimp only at h
    cases hentry : d.lookup? place with
    | none =>
      rw [hentry] at h
      cases h
    | some e =>
      rw [hentry] at h
      cases e with
      | file content => exact .inl ⟨content, rfl⟩
      | device device => exact .inr ⟨device, rfl⟩
      | directory => cases h
      | link target => cases h

/-- What is read depends on the place only. -/
theorem read_eq_of_locate_eq {path' : String} (h : d.locate path' = d.locate path) :
  d.read path' = d.read path
  := by
  rw [read, read, h]

/-- The root of the disk is no file. -/
theorem Opens.place_ne_nil (h : d.Opens path place) :
  place ≠ []
  := by
  rintro rfl
  obtain ⟨_, hentry⟩ | ⟨_, hentry⟩ := h.entry <;> cases hentry

/-- A file that can be opened is the one that is written. -/
theorem Opens.resolve_newFile (h : d.Opens path place) :
  d.resolve .newFile path = .ok (.present place)
  := by
  apply Disk.resolve_newFile h.locate_eq
  obtain ⟨_, hentry⟩ | ⟨_, hentry⟩ := h.entry
  · simp [hentry]
  · simp [hentry]

/-- A file is first emptied, then filled. -/
theorem Opens.write_file (h : d.Opens path place) {content : Content}
    (hfile : d.lookup? place = some (.file content)) (s : String) :
  d.write path s = .ok ((d.put place (.file (.text ""))).put place (.file (.text s)))
  := by
  have hput : (d.put place (.file (.text ""))).lookup? place = some (.file (.text "")) := by
    rw [lookup?_put d h.place_ne_nil, if_pos rfl]
  rw [write, create, h.resolve_newFile]
  simp only [openAt, hfile, fill, hput]

/-- Writing to a device fills it. -/
theorem Opens.write_device (h : d.Opens path place) {device : Device}
    (hdevice : d.lookup? place = some (.device device)) (s : String) :
  d.write path s = d.fill place s
  := by
  rw [write, create, h.resolve_newFile]
  simp only [openAt, hdevice]

/-- The disk after writing a text, or as it is if the text cannot be written. -/
def afterWriting (d : Disk) (path s : String) : Disk := (d.write path s).toOption.getD d

/-- Writing changes what the file holds to which the path leads, and nothing else. -/
theorem Opens.overwrites (h : d.Opens path place) (s : String) :
  d.Overwrites place s (d.afterWriting path s)
  := by
  rw [afterWriting]
  obtain ⟨content, hfile⟩ | ⟨device, hdevice⟩ := h.entry
  · rw [h.write_file hfile]
    refine ⟨rfl, fun l => ?_⟩
    change ((d.put place _).put place _).lookup? l = _
    rw [lookup?_put _ h.place_ne_nil, lookup?_put _ h.place_ne_nil]
    by_cases hl : l = place
    · rw [if_pos hl, if_pos hl, hl, hfile]
      rfl
    · rw [if_neg hl, if_neg hl, if_neg hl]
  · have hsame : (d.write path s).toOption.getD d = d := by
      rw [h.write_device hdevice, fill, hdevice]
      cases device with
      | null => rfl
      | full =>
        dsimp only
        split <;> rfl
    rw [hsame]
    refine ⟨rfl, fun l => ?_⟩
    by_cases hl : l = place
    · rw [if_pos hl, hl, hdevice]
      rfl
    · rw [if_neg hl]

/-- Whether a text can be written does not depend on what files hold. -/
theorem SameLayout.exists_write (h : d.SameLayout d') (hopens : d.Opens path place)
    (hwrite : ∃ d₁, d.write path s = .ok d₁) :
  ∃ d₁, d'.write path s = .ok d₁
  := by
  have hopens' := h.opens hopens
  obtain heq | ⟨_, content', _, hfile'⟩ := h.eq_or_files place
  · obtain ⟨content, hfile⟩ | ⟨device, hdevice⟩ := hopens.entry
    · exact ⟨_, hopens'.write_file (heq.trans hfile) s⟩
    · obtain ⟨d₁, hd₁⟩ := hwrite
      rw [hopens.write_device hdevice, fill, hdevice] at hd₁
      rw [hopens'.write_device (heq.trans hdevice), fill, heq, hdevice]
      cases device with
      | null => exact ⟨_, rfl⟩
      | full =>
        dsimp only at hd₁ ⊢
        split
        · exact ⟨_, rfl⟩
        · rename_i hs
          rw [if_neg hs] at hd₁
          cases hd₁
  · exact ⟨_, hopens'.write_file hfile' s⟩

end Disk

end Amend
