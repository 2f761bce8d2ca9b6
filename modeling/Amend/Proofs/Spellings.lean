import Amend.Index.Declaration
import Amend.Proofs.Cuts
import Mathlib

/-!
# Spellings of a name

A name may be spelled with small letters and with capitals (`Text.Respelled`), and that of a class
also with backslashes in front of it (`SameName`).  `Text.fold` gives one text to all spellings of
a name and different texts to different names (`Text.respelled_iff`), and so does `key`
(`sameName_iff`).
-/

namespace Amend

section Related

variable {α β : Type} {R : α → β → Prop} {a : α} {o : Option α} {o' : Option β} {p : α → Bool}
  {q : β → Bool} {l : List α} {l' : List β}

/-- Nothing is related to nothing only. -/
theorem eq_none_of_rel (h : Option.Rel R o o') (ho : o = none) :
  o' = none
  := by
  cases h with
  | none => rfl
  | some => cases ho

/-- Something is related to something only. -/
theorem exists_of_rel (h : Option.Rel R o o') (ho : o = some a) :
  ∃ b, o' = some b ∧ R a b
  := by
  cases h with
  | none => cases ho
  | some hab =>
    cases ho
    exact ⟨_, rfl, hab⟩

/-- Lists that are related one by one have related elements where the first ones are found. -/
theorem forall₂_find? (h : List.Forall₂ R l l') (hpq : ∀ a b, R a b → q b = p a) :
  Option.Rel R (l.find? p) (l'.find? q)
  := by
  induction h with
  | nil => exact .none
  | @cons a b l l' hab _ ih =>
    rw [List.find?_cons, List.find?_cons, hpq a b hab]
    cases p a with
    | true => exact .some hab
    | false => exact ih

/-- Lists that are related one by one have an element of some kind alike. -/
theorem forall₂_any (h : List.Forall₂ R l l') (hpq : ∀ a b, R a b → q b = p a) :
  l'.any q = l.any p
  := by
  induction h with
  | nil => rfl
  | @cons a b _ _ hab _ ih => rw [List.any_cons, List.any_cons, hpq a b hab, ih]

/-- Functions that agree on related items give one list. -/
theorem forall₂_map_eq {γ : Type} {f : α → γ} {g : β → γ} (h : List.Forall₂ R l l')
    (hfg : ∀ a b, R a b → g b = f a) :
  l'.map g = l.map f
  := by
  induction h with
  | nil => rfl
  | @cons a b _ _ hab _ ih => rw [List.map_cons, List.map_cons, hfg a b hab, ih]

/-- Functions that agree on related items give one result. -/
theorem rel_map_eq {γ : Type} {f : α → γ} {g : β → γ} (h : Option.Rel R o o')
    (hfg : ∀ a b, R a b → g b = f a) :
  o'.map g = o.map f
  := by
  cases h with
  | none => rfl
  | some hab => rw [Option.map_some, Option.map_some, hfg _ _ hab]

/-- Tests that agree on related items give one answer. -/
theorem rel_any_eq (h : Option.Rel R o o') (hpq : ∀ a b, R a b → q b = p a) :
  o'.any q = o.any p
  := by
  cases h with
  | none => rfl
  | some hab => rw [Option.any_some, Option.any_some, hpq _ _ hab]

/-- The first results of two searches are related when the results are. -/
theorem rel_or {u : Option α} {u' : Option β} (h : Option.Rel R o o') (hu : Option.Rel R u u') :
  Option.Rel R (o.or u) (o'.or u')
  := by
  cases h with
  | none => exact hu
  | some hab => exact .some hab

end Related

namespace Text

/-- The same character, or the same letter from `A` to `Z` as a small one or as a capital. -/
def SameLetter (c d : Char) : Prop := d = c ∨ d = c.toLower ∨ d = c.toUpper

/-- The texts differ in the case of the letters `A` to `Z` only. -/
def Respelled (s s' : String) : Prop := List.Forall₂ SameLetter s.toList s'.toList

variable {c d : Char} {cs cs' : List Char} {s s' : String}

/-- Letters are the same when they have one small letter. -/
theorem sameLetter_iff :
  SameLetter c d ↔ c.toLower = d.toLower
  := by
  constructor
  · rintro (rfl | rfl | rfl)
    · rfl
    · rw [Char.toLower_toLower_eq_toLower]
    · rw [Char.toLower_toUpper_eq_toLower]
  · intro h
    by_cases hd : d.isUpper = true
    · have hupper : d = c.toUpper := by
        rw [← Char.toUpper_toLower_eq_toUpper, h, Char.toUpper_toLower_eq_toUpper,
          Char.toUpper_eq_of_not_isLower (Char.not_isLower_of_isUpper hd)]
      exact .inr (.inr hupper)
    · rw [Char.toLower_eq_of_not_isUpper hd] at h
      exact .inr (.inl h.symm)

/-- The same letter is so both ways. -/
theorem SameLetter.symm (h : SameLetter c d) :
  SameLetter d c
  := sameLetter_iff.2 (sameLetter_iff.1 h).symm

/-- A character that is no letter has one case. -/
theorem SameLetter.eq_of_isAlpha (h : SameLetter c d) (hc : c.isAlpha = false) :
  d = c
  := by
  have hupper : c.isUpper = false := (Bool.or_eq_false_iff.1 hc).1
  have hlower : c.isLower = false := (Bool.or_eq_false_iff.1 hc).2
  rcases h with rfl | rfl | rfl
  · rfl
  · rw [Char.toLower_eq_of_not_isUpper (by simp [hupper])]
  · rw [Char.toUpper_eq_of_not_isLower (by simp [hlower])]

/-- A character that is no letter is met in both texts at the same places. -/
theorem SameLetter.eq_iff (h : SameLetter c d) {x : Char} (hx : x.isAlpha = false) :
  d = x ↔ c = x
  := by
  constructor
  · rintro rfl
    exact h.symm.eq_of_isAlpha hx
  · rintro rfl
    exact h.eq_of_isAlpha hx

/-- Texts have the same letters when they are one in small letters. -/
theorem forall₂_sameLetter_iff :
  List.Forall₂ SameLetter cs cs' ↔ cs.map Char.toLower = cs'.map Char.toLower
  := by
  have hsame : SameLetter = fun c d => c.toLower = d.toLower := by
    funext c d
    rw [sameLetter_iff]
  have hequal : List.Forall₂ (· = ·) (cs.map Char.toLower) (cs'.map Char.toLower)
      ↔ cs.map Char.toLower = cs'.map Char.toLower := by
    rw [List.forall₂_eq_eq_eq]
  rw [hsame, ← hequal, List.forall₂_map_left_iff, List.forall₂_map_right_iff]

/-- A name is folded letter by letter. -/
theorem toList_fold (s : String) :
  (fold s).toList = s.toList.map Char.toLower
  := String.toList_map

/-- Folding gives one text to the spellings of a name, and to them alone. -/
theorem respelled_iff :
  Respelled s s' ↔ fold s = fold s'
  := by
  rw [Respelled, forall₂_sameLetter_iff, ← toList_fold, ← toList_fold, String.toList_inj]

instance (s s' : String) : Decidable (Respelled s s') := decidable_of_iff' _ forall₂_sameLetter_iff

/-- A text is a spelling of itself. -/
theorem Respelled.refl (s : String) :
  Respelled s s
  := respelled_iff.2 rfl

/-- Whether two texts differ in letter case only does not depend on how they are spelled. -/
theorem sameFolded_congr {t t' : String} (hs : Respelled s s') (ht : Respelled t t') :
  sameFolded s' t' = sameFolded s t
  := by
  rw [sameFolded, sameFolded, respelled_iff.1 hs, respelled_iff.1 ht]

/-- Only the empty text is a spelling of the empty text. -/
theorem Respelled.eq_empty_iff (h : Respelled s s') :
  s' = "" ↔ s = ""
  := by
  rw [← String.toList_eq_nil_iff, ← String.toList_eq_nil_iff, ← List.length_eq_zero_iff,
    ← List.length_eq_zero_iff, h.length_eq]

end Text

/-- Two spellings of the name of a class: they differ in the case of the letters `A` to `Z` and in
the backslashes at their front only. -/
def SameName (a b : String) : Prop :=
  ∃ m n cs cs', a.toList = List.replicate m '\\' ++ cs ∧ b.toList = List.replicate n '\\' ++ cs'
    ∧ List.Forall₂ Text.SameLetter cs cs'

variable {a b : String}

/-- A backslash is no letter. -/
theorem toLower_beq_backslash (c : Char) :
  (c.toLower == '\\') = (c == '\\')
  := by
  have hsame : Text.SameLetter c c.toLower := .inr (.inl rfl)
  rw [Bool.eq_iff_iff, beq_iff_eq, beq_iff_eq]
  exact hsame.eq_iff (by decide)

/-- It makes no difference whether the backslashes are left out before the letters are made small
or after that. -/
theorem toList_key (name : String) :
  (key name).toList = (name.toList.map Char.toLower).dropWhile (· == '\\')
  := by
  have hpred : (· == '\\') ∘ Char.toLower = (· == '\\') := funext toLower_beq_backslash
  rw [key, Text.toList_fold, Text.trimStart, String.toList_ofList, List.dropWhile_map, hpred]

/-- Leading backslashes are no part of a key. -/
theorem toList_key_of_toList {n : Nat} {cs : List Char}
    (h : a.toList = List.replicate n '\\' ++ cs) :
  (key a).toList = (cs.map Char.toLower).dropWhile (· == '\\')
  := by
  have hfront : ∀ c ∈ List.replicate n '\\', (c == '\\') = true := fun c hc =>
    beq_iff_eq.2 (List.eq_of_mem_replicate hc)
  have hbackslash : '\\'.toLower = '\\' := rfl
  rw [toList_key, h, List.map_append, List.map_replicate, hbackslash,
    List.dropWhile_append_of_pos hfront]

/-- The spellings of the name of a class have one key, and other names have others. -/
theorem sameName_iff :
  SameName a b ↔ key a = key b
  := by
  constructor
  · rintro ⟨m, n, cs, cs', ha, hb, hsame⟩
    rw [← String.toList_inj, toList_key_of_toList ha, toList_key_of_toList hb,
      Text.forall₂_sameLetter_iff.1 hsame]
  · intro h
    obtain ⟨-, m, ha⟩ := Text.trimStart_eq_iff.1 (@rfl _ (Text.trimStart '\\' a))
    obtain ⟨-, n, hb⟩ := Text.trimStart_eq_iff.1 (@rfl _ (Text.trimStart '\\' b))
    exact ⟨m, n, _, _, ha, hb, Text.respelled_iff.2 h⟩

/-- Spellings of one name have one key. -/
theorem SameName.key_eq (h : SameName a b) :
  key b = key a
  := (sameName_iff.1 h).symm

instance (a b : String) : Decidable (SameName a b) :=
  decidable_of_iff ((a.toList.map Char.toLower).dropWhile (· == '\\')
    = (b.toList.map Char.toLower).dropWhile (· == '\\'))
    (by rw [sameName_iff, ← String.toList_inj, toList_key, toList_key])

example : SameName "App\\Http\\Controller" "\\app\\HTTP\\controller" := by decide +kernel

end Amend
