import Amend.Text.Cut
import Mathlib.Data.List.Basic
import Mathlib.Data.List.TakeWhile

/-!
# Texts cut at a character

A list in which `x` occurs is `front ++ x :: back` for one `front` without `x`; `takeWhile` and
`dropWhile` find the two parts.  `Text.splitFirst?` and `Text.lastPiece` cut texts there.
-/

namespace Amend.Text

section Lists

variable {α : Type} [BEq α] [LawfulBEq α] {x : α} {l front back : List α}

theorem ne_of_mem_of_notMem (h : x ∉ front) :
  ∀ y ∈ front, (y != x) = true
  := by
  intro y hy
  rw [bne_iff_ne]
  rintro rfl
  exact h hy

/-- What stands before the first separator is what is taken. -/
theorem takeWhile_append_cons (h : x ∉ front) :
  (front ++ x :: back).takeWhile (· != x) = front
  := by
  rw [List.takeWhile_append_of_pos (ne_of_mem_of_notMem h), List.takeWhile_cons_of_neg,
    List.append_nil]
  simp

/-- The separator and what follows it are what is left. -/
theorem dropWhile_append_cons (h : x ∉ front) :
  (front ++ x :: back).dropWhile (· != x) = x :: back
  := by
  rw [List.dropWhile_append_of_pos (ne_of_mem_of_notMem h), List.dropWhile_cons_of_neg]
  simp

/-- Nothing is left where there is no separator. -/
theorem dropWhile_of_notMem (h : x ∉ l) :
  l.dropWhile (· != x) = []
  := by
  rw [List.dropWhile_eq_nil_iff]
  exact ne_of_mem_of_notMem h

end Lists

variable {c : Char} {s front back : String}

/-- A front is cut off when the text begins with it. -/
theorem afterFront?_eq_some_iff :
  afterFront? front s = some back ↔ s = front ++ back
  := by
  rw [afterFront?, Option.map_eq_some_iff]
  constructor
  · rintro ⟨rest, hrest, rfl⟩
    rw [List.isPrefixOf?_eq_some_iff_append_eq] at hrest
    rw [← String.toList_inj, String.toList_append, String.toList_ofList, hrest]
  · rintro rfl
    refine ⟨back.toList, ?_, String.ofList_toList⟩
    rw [List.isPrefixOf?_eq_some_iff_append_eq, String.toList_append]

/-- A text is split at the first of the characters that it is split at. -/
theorem splitFirst?_of_toList (hs : s.toList = front.toList ++ c :: back.toList)
    (hfront : c ∉ front.toList) :
  splitFirst? c s = some (front, back)
  := by
  rw [splitFirst?, hs, dropWhile_append_cons hfront, takeWhile_append_cons hfront]
  simp only [String.ofList_toList]

/-- A text without the character is not split. -/
theorem splitFirst?_of_notMem (h : c ∉ s.toList) :
  splitFirst? c s = none
  := by
  rw [splitFirst?, dropWhile_of_notMem h]

/-- The last piece stands behind the last of the characters. -/
theorem lastPiece_of_toList {cs : List Char} (hs : s.toList = cs ++ c :: back.toList)
    (hback : c ∉ back.toList) :
  lastPiece c s = back
  := by
  have hreverse : s.toList.reverse = back.toList.reverse ++ c :: cs.reverse := by
    rw [hs, List.reverse_append, List.reverse_cons, List.append_assoc, List.singleton_append]
  have hmem : c ∉ back.toList.reverse := fun h => hback (List.mem_reverse.1 h)
  rw [lastPiece, hreverse, takeWhile_append_cons hmem, List.reverse_reverse,
    String.ofList_toList]

/-- A text without the character is one piece. -/
theorem lastPiece_of_notMem (h : c ∉ s.toList) :
  lastPiece c s = s
  := by
  have hwhole : s.toList.reverse.takeWhile (· != c) = s.toList.reverse := by
    rw [List.takeWhile_eq_self_iff]
    exact ne_of_mem_of_notMem fun h' => h (List.mem_reverse.1 h')
  rw [lastPiece, hwhole, List.reverse_reverse, String.ofList_toList]

/-- A text is its last piece, or ends with a separator and its last piece. -/
theorem eq_lastPiece_or (c : Char) (s : String) :
  c ∉ (lastPiece c s).toList
    ∧ (s = lastPiece c s ∨ ∃ cs, s.toList = cs ++ c :: (lastPiece c s).toList)
  := by
  by_cases h : c ∈ s.toList
  · obtain ⟨back, front, hs, hback⟩ :=
      List.eq_append_cons_of_mem (List.mem_reverse.2 h)
    have hs' : s.toList = front.reverse ++ c :: (String.ofList back.reverse).toList := by
      rw [String.toList_ofList, ← List.reverse_reverse s.toList, hs]
      simp
    have hback' : c ∉ (String.ofList back.reverse).toList := by
      rw [String.toList_ofList, List.mem_reverse]
      exact hback
    rw [lastPiece_of_toList hs' hback']
    exact ⟨hback', .inr ⟨_, hs'⟩⟩
  · rw [lastPiece_of_notMem h]
    exact ⟨h, .inl rfl⟩

/-! ### Separators at the start -/

/-- Trimming takes all of the characters off that the text begins with, and no others. -/
theorem trimStart_eq_iff :
  trimStart c s = back
    ↔ back.toList.head? ≠ some c ∧ ∃ n, s.toList = List.replicate n c ++ back.toList
  := by
  constructor
  · rintro rfl
    rw [trimStart, String.toList_ofList]
    constructor
    · intro hhead
      have h := List.head?_dropWhile_not (· == c) s.toList
      rw [hhead] at h
      simp at h
    · have hfront : ∀ x ∈ s.toList.takeWhile (· == c), x = c := by
        intro x hx
        have h := List.mem_takeWhile_imp hx
        exact eq_of_beq h
      refine ⟨(s.toList.takeWhile (· == c)).length, ?_⟩
      rw [← List.eq_replicate_of_mem hfront, List.takeWhile_append_dropWhile]
  · rintro ⟨hhead, n, hs⟩
    have hfront : ∀ x ∈ List.replicate n c, (x == c) = true := fun x hx =>
      beq_iff_eq.2 (List.eq_of_mem_replicate hx)
    have hback : back.toList.dropWhile (· == c) = back.toList := by
      rw [List.dropWhile_eq_self_iff]
      intro hlength hc
      apply hhead
      rw [List.head?_eq_getElem?, List.getElem?_eq_getElem hlength]
      exact congrArg some (eq_of_beq hc)
    rw [trimStart, hs, List.dropWhile_append_of_pos hfront, hback, String.ofList_toList]

/-- Separators at the start do not count for the last piece. -/
theorem lastPiece_trimStart (c : Char) (s : String) :
  lastPiece c (trimStart c s) = lastPiece c s
  := by
  obtain ⟨-, n, hs⟩ := trimStart_eq_iff.1 (@rfl _ (trimStart c s))
  have hfront : (List.replicate n c).takeWhile (· != c) = [] := by
    cases n with
    | zero => rfl
    | succ n => simp [List.replicate_succ]
  rw [lastPiece, lastPiece, hs, List.reverse_append, List.reverse_replicate, List.takeWhile_append,
    hfront, List.append_nil]
  split
  next hlength => rw [(List.takeWhile_prefix _).eq_of_length hlength]
  next => rfl

end Amend.Text
