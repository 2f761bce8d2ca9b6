import Amend.Text.Offset
import Mathlib.Data.List.Basic

/-!
# Adjacent stretches of a text

A boundary of a text is an offset between two of its characters.  Stretches between
boundaries that follow each other join to the stretch from the first boundary to the last,
and the stretch from the start to the end is the text.
-/

namespace Amend.Text

variable {text : String} {a b c : Nat}

/-- An offset between two characters of a text, at its start or at its end. -/
def IsBoundary (text : String) (n : Nat) : Prop :=
  ∃ front, front <+: text.toList ∧ byteLength front = n

/-- A text begins between two characters. -/
theorem isBoundary_zero (text : String) :
  IsBoundary text 0
  := ⟨[], List.nil_prefix, rfl⟩

/-- The bytes of a text are those of its characters. -/
theorem byteLength_toList (text : String) :
  byteLength text.toList = text.utf8ByteSize
  := by
  obtain ⟨cs, rfl⟩ : ∃ cs, text = String.ofList cs := ⟨text.toList, String.ofList_toList.symm⟩
  rw [String.toList_ofList]
  induction cs with
  | nil => rfl
  | cons c cs ih =>
    rw [byteLength, ih, String.ofList_cons]
    simp

/-- A text ends between two characters. -/
theorem isBoundary_end (text : String) :
  IsBoundary text text.utf8ByteSize
  := ⟨text.toList, List.prefix_refl _, byteLength_toList text⟩

/-- No boundary lies past the end of a text. -/
theorem IsBoundary.le_end (h : IsBoundary text a) :
  a ≤ text.utf8ByteSize
  := by
  obtain ⟨front, ⟨rest, hrest⟩, rfl⟩ := h
  rw [← byteLength_toList, ← hrest, byteLength_append]
  omega

/-- Every character has a byte. -/
theorem eq_nil_of_byteLength_eq_zero {cs : List Char} (h : byteLength cs = 0) :
  cs = []
  := by
  cases cs with
  | nil => rfl
  | cons c cs =>
    have := c.utf8Size_pos
    rw [byteLength] at h
    omega

/-- Of two beginnings of a text the one with fewer bytes is a beginning of the other. -/
theorem prefix_of_byteLength_le {xs ys cs : List Char} (hx : xs <+: cs) (hy : ys <+: cs)
    (h : byteLength xs ≤ byteLength ys) :
  xs <+: ys
  := by
  rcases List.prefix_or_prefix_of_prefix hx hy with hxy | ⟨more, rfl⟩
  · apply hxy
  · rw [byteLength_append] at h
    have hmore : more = [] := eq_nil_of_byteLength_eq_zero (by omega)
    simp [hmore]

/-- A list of characters is cut behind the bytes of its front. -/
theorem splitBytes_append (front rest : List Char) :
  splitBytes (byteLength front) (front ++ rest) = some (front, rest)
  := by
  induction front with
  | nil => simp [byteLength, splitBytes]
  | cons c front ih =>
    obtain ⟨n, hn⟩ := Nat.exists_eq_add_of_lt c.utf8Size_pos
    have hlen : byteLength (c :: front) = byteLength front + n + 1 := by
      rw [byteLength]
      omega
    have hrest : byteLength front + n + 1 - c.utf8Size = byteLength front := by omega
    rw [hlen, List.cons_append, splitBytes, if_pos (by omega), hrest, ih]
    rfl

/-- The two parts make up the list, and the first one has the bytes that were asked for. -/
theorem append_of_splitBytes {n : Nat} {cs front rest : List Char}
    (h : splitBytes n cs = some (front, rest)) :
  front ++ rest = cs ∧ byteLength front = n
  := by
  fun_induction splitBytes n cs generalizing front with
  | case1 cs =>
    obtain ⟨rfl, rfl⟩ := Prod.mk.inj (Option.some.inj h)
    exact ⟨rfl, rfl⟩
  | case2 n => cases h
  | case3 n c cs hc ih =>
    obtain ⟨⟨front', rest'⟩, hsplit, hpair⟩ := Option.map_eq_some_iff.1 h
    obtain ⟨rfl, rfl⟩ := Prod.mk.inj hpair
    obtain ⟨happend, hlen⟩ := ih hsplit
    constructor
    · rw [List.cons_append, happend]
    · rw [byteLength, hlen]
      omega
  | case4 n c cs hc => cases h

/-- A number of bytes is a boundary when the text can be cut there. -/
theorem isBoundary_iff {n : Nat} :
  IsBoundary text n ↔ (splitBytes n text.toList).isSome
  := by
  constructor
  · rintro ⟨front, ⟨rest, hrest⟩, rfl⟩
    rw [← hrest, splitBytes_append]
    rfl
  · intro h
    obtain ⟨⟨front, rest⟩, hsplit⟩ := Option.isSome_iff_exists.1 h
    obtain ⟨happend, hlen⟩ := append_of_splitBytes hsplit
    exact ⟨front, ⟨rest, happend⟩, hlen⟩

instance (text : String) (n : Nat) : Decidable (IsBoundary text n) :=
  decidable_of_iff _ isBoundary_iff.symm

/-- The stretch of a text that begins after `front` and ends after `mid`. -/
theorem slice_eq_of_append {front mid rest : List Char} (h : front ++ mid ++ rest = text.toList) :
  slice text (byteLength front) (byteLength (front ++ mid)) = String.ofList mid
  := by
  rw [slice, sliceChars, ← h, List.append_assoc, splitBytes_append, byteLength_append]
  split
  · simp only [Nat.add_sub_cancel_left, splitBytes_append]
    rfl
  · have hmid : mid = [] := eq_nil_of_byteLength_eq_zero (by omega)
    rw [hmid]

/-- Slices that meet make up one slice. -/
theorem slice_append (ha : IsBoundary text a) (hb : IsBoundary text b) (hc : IsBoundary text c)
    (hab : a ≤ b) (hbc : b ≤ c) :
  slice text a b ++ slice text b c = slice text a c
  := by
  obtain ⟨xs, hx, rfl⟩ := ha
  obtain ⟨ys, hy, rfl⟩ := hb
  obtain ⟨zs, ⟨rest, hz⟩, rfl⟩ := hc
  obtain ⟨mid, rfl⟩ := prefix_of_byteLength_le hx hy hab
  obtain ⟨last, rfl⟩ := prefix_of_byteLength_le hy ⟨rest, hz⟩ hbc
  have hmid : xs ++ mid ++ (last ++ rest) = text.toList := by
    rw [← hz, List.append_assoc (xs ++ mid)]
  have hboth : xs ++ (mid ++ last) ++ rest = text.toList := by
    rw [← hz, ← List.append_assoc xs]
  rw [slice_eq_of_append hmid, slice_eq_of_append hz, List.append_assoc xs mid last,
    slice_eq_of_append hboth, String.ofList_append]

/-- The slice from beginning to end is the text. -/
theorem slice_all (text : String) :
  slice text 0 text.utf8ByteSize = text
  := by
  have h : [] ++ text.toList ++ [] = text.toList := by simp
  have hslice := slice_eq_of_append h
  rw [byteLength, List.nil_append, byteLength_toList] at hslice
  rw [hslice, String.ofList_toList]

/-- A stretch of no length is empty. -/
theorem slice_self (text : String) (a : Nat) :
  slice text a a = ""
  := by
  simp [slice, sliceChars]

end Amend.Text
