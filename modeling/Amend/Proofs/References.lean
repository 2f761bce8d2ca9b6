import Amend.Php.Scope
import Amend.Proofs.Cuts
import Mathlib.Data.List.Basic
import Mathlib.Data.List.Induction

/-!
# What class references mean

`Scope.Means` says what a class reference stands for once namespaces have been entered and classes
imported, in terms of that history alone.  Every reference stands for one name, and `Scope.resolve`
gives this name unless the reference begins with the keyword `namespace` in mixed letters
(`Scope.means_resolve_iff`).
-/

namespace Amend.Php

variable {head head' front name short target full reference space : String}
variable {rest rest' given : Option String}

/-! ### References and their first segments -/

/-- The reference with a first segment and with what follows it after a backslash. -/
def joined (head : String) : Option String → String
  | none => head
  | some rest => head ++ "\\" ++ rest

/-- A name of several parts has a backslash between the first one and the others. -/
theorem toList_joined_some (head name : String) :
  (joined head (some name)).toList = head.toList ++ '\\' :: name.toList
  := by
  simp [joined]

/-- A name is cut behind its first part. -/
theorem splitFirst?_joined (h : '\\' ∉ head.toList) :
  Text.splitFirst? '\\' (joined head rest) = rest.map (head, ·)
  := by
  cases rest with
  | none => exact Text.splitFirst?_of_notMem h
  | some name => exact Text.splitFirst?_of_toList (toList_joined_some head name) h

/-- A reference has one first segment. -/
theorem joined_inj (h : '\\' ∉ head.toList) (h' : '\\' ∉ head'.toList) :
  joined head rest = joined head' rest' ↔ head = head' ∧ rest = rest'
  := by
  constructor
  · intro heq
    have hsplit : rest.map (head, ·) = rest'.map (head', ·) := by
      rw [← splitFirst?_joined h, ← splitFirst?_joined h', heq]
    cases rest with
    | none =>
      obtain rfl : rest' = none := Option.map_eq_none_iff.1 hsplit.symm
      exact ⟨heq, rfl⟩
    | some name =>
      cases rest' with
      | none => cases hsplit
      | some name' =>
        cases hsplit
        exact ⟨rfl, rfl⟩
  · rintro ⟨rfl, rfl⟩
    rfl

/-- Every reference has a first segment. -/
theorem exists_joined (reference : String) :
  ∃ head rest, '\\' ∉ head.toList ∧ reference = joined head rest
  := by
  by_cases h : '\\' ∈ reference.toList
  · obtain ⟨front, back, hcut, hfront⟩ := List.eq_append_cons_of_mem h
    refine ⟨String.ofList front, some (String.ofList back), ?_, ?_⟩
    · rw [String.toList_ofList]
      exact hfront
    · rw [← String.toList_inj, toList_joined_some, String.toList_ofList, String.toList_ofList,
        hcut]
  · exact ⟨reference, none, h, rfl⟩

/-- What follows a front is there when the front is the first part. -/
theorem afterFront?_joined (hfront : '\\' ∉ front.toList) (h : '\\' ∉ head.toList) :
  Text.afterFront? (front ++ "\\") (joined head rest) = if head = front then rest else none
  := by
  apply Option.ext
  intro name
  rw [Text.afterFront?_eq_some_iff]
  change joined head rest = joined front (some name) ↔ _
  rw [joined_inj h hfront]
  split
  next hhead => simp [hhead]
  next hhead => simp [hhead]

/-- A name in other letters has no backslash in it either. -/
theorem notMem_of_fold {folded : String} (hfold : Text.fold name = folded)
    (h : '\\' ∉ folded.toList) :
  '\\' ∉ name.toList
  := by
  intro hmem
  apply h
  rw [← hfold, Text.fold, String.toList_map]
  exact List.mem_map.2 ⟨_, hmem, rfl⟩

namespace Scope

/-! ### Histories -/

/-- What changes a scope: a namespace is entered, or a class is imported, under an alias if one is
given. -/
inductive Change where
  | enter (space : String)
  | bring (full : String) (given : Option String)

def Change.apply (s : Scope) : Change → Scope
  | enter space => .entering space
  | bring full given => s.addImport full given

/-- The scope after a history of changes. -/
def after (history : List Change) : Scope := history.foldl Change.apply {}

/-- The namespace that a change enters. -/
def Change.entered? : Change → Option String
  | enter space => some space
  | bring _ _ => none

/-- The namespace that was entered last; the global one when none was. -/
def current (history : List Change) : String :=
  (history.filterMap Change.entered?).getLast?.getD ""

/-- A name without the backslashes at its start. -/
def Rootless (full target : String) : Prop :=
  target.toList.head? ≠ some '\\' ∧ ∃ n, full.toList = List.replicate n '\\' ++ target.toList

/-- What a class is imported as: the alias that is given, or else the last segment of its name. -/
inductive Alias (full : String) : Option String → String → Prop
  | given (short : String) : Alias full (some short) short
  | whole (hfull : '\\' ∉ full.toList) : Alias full none full
  | last {front last : String} (hlast : '\\' ∉ last.toList) (hfull : full = front ++ "\\" ++ last) :
      Alias full none last

/-- `Binds change short target`: the change imports `target` under an alias that is `short`, letter
case aside. -/
inductive Binds : Change → String → String → Prop
  | bring {full target short word : String} {given : Option String} (halias : Alias full given word)
      (hword : Text.fold word = Text.fold short) (htarget : Rootless full target) :
      Binds (.bring full given) short target

/-- A change that leaves alone what was imported under an alias. -/
def Keeps (short : String) (change : Change) : Prop :=
  change.entered? = none ∧ ∀ target, ¬ Binds change short target

/-- `Imports history short target`: since the current namespace was entered, the last import under
the alias `short` was that of `target`. -/
def Imports (history : List Change) (short target : String) : Prop :=
  ∃ before change later, history = before ++ change :: later
    ∧ Binds change short target ∧ ∀ c ∈ later, Keeps short c

/-- A name in a namespace; in the global one it stands alone. -/
def within (space name : String) : String := if space = "" then name else space ++ "\\" ++ name

/-- The first segment of a reference is looked up among the imports. -/
def LookedUp (head : String) (rest : Option String) : Prop :=
  rest ≠ none → head ≠ "" ∧ Text.fold head ≠ "namespace"

/-- What a reference with a given first segment stands for after a history. -/
inductive Stands (history : List Change) : String → Option String → String → Prop
  | absolute (name : String) : Stands history "" (some name) name
  | relative {keyword : String} (hkeyword : Text.fold keyword = "namespace") (name : String) :
      Stands history keyword (some name) (within (current history) name)
  | imported {head target : String} {rest : Option String} (hlooked : LookedUp head rest)
      (himports : Imports history head target) : Stands history head rest (joined target rest)
  | nearby {head : String} {rest : Option String} (hlooked : LookedUp head rest)
      (himports : ∀ target, ¬ Imports history head target) :
      Stands history head rest (within (current history) (joined head rest))

/-- `Means history reference name`: after the history, the class reference stands for `name`. -/
def Means (history : List Change) (reference name : String) : Prop :=
  ∃ head rest, '\\' ∉ head.toList ∧ reference = joined head rest ∧ Stands history head rest name

variable {history : List Change} {change : Change} {s : Scope}

/-! ### Scopes and histories -/

/-- The scope after some changes is that after the last one. -/
theorem after_concat :
  after (history ++ [change]) = change.apply (after history)
  := by
  rw [after, List.foldl_append]
  rfl

/-- The scope is in the namespace that was entered last. -/
theorem space_after (history : List Change) :
  (after history).space = current history
  := by
  induction history using List.reverseRecOn with
  | nil => rfl
  | append_singleton history change ih =>
    rw [after_concat, current, List.filterMap_append, List.getLast?_append]
    cases change with
    | enter space => rfl
    | bring full given => exact ih

/-- A name without leading backslashes is the trimmed one. -/
theorem rootless_iff :
  Rootless full target ↔ Text.trimStart '\\' full = target
  := Text.trimStart_eq_iff.symm

/-- An import without an alias goes by its last part. -/
theorem alias_iff :
  Alias full given short ↔ given.getD (Text.lastPiece '\\' full) = short
  := by
  constructor
  · intro h
    cases h with
    | given => rfl
    | whole hfull => exact Text.lastPiece_of_notMem hfull
    | last hlast hfull =>
      subst hfull
      exact Text.lastPiece_of_toList (toList_joined_some _ _) hlast
  · rintro rfl
    cases given with
    | some short => exact .given short
    | none =>
      obtain ⟨hlast, hwhole | ⟨cs, hcut⟩⟩ := Text.eq_lastPiece_or '\\' full
      · rw [← hwhole] at hlast
        rw [Option.getD_none, ← hwhole]
        exact .whole hlast
      · apply @Alias.last _ (String.ofList cs) _ hlast
        rw [← String.toList_inj, hcut]
        simp

/-- An import binds a name when it goes by it, its letter case aside. -/
theorem binds_bring_iff :
  Binds (.bring full given) short target
    ↔ Text.fold (given.getD (Text.lastPiece '\\' full)) = Text.fold short
      ∧ Text.trimStart '\\' full = target
  := by
  rw [← rootless_iff]
  constructor
  · rintro ⟨halias, hword, htarget⟩
    rw [alias_iff.1 halias]
    exact ⟨hword, htarget⟩
  · rintro ⟨hword, htarget⟩
    exact .bring (alias_iff.2 rfl) hword htarget

/-- An import keeps the names that it does not go by. -/
theorem keeps_bring_iff :
  Keeps short (.bring full given)
    ↔ Text.fold (given.getD (Text.lastPiece '\\' full)) ≠ Text.fold short
  := by
  constructor
  · rintro ⟨-, hkeeps⟩ hword
    apply hkeeps _ (binds_bring_iff.2 ⟨hword, rfl⟩)
  · intro hword
    refine ⟨rfl, ?_⟩
    intro target hbinds
    apply hword (binds_bring_iff.1 hbinds).1

/-- What is imported is bound by the last change, or was imported before and is kept. -/
theorem imports_concat_iff :
  Imports (history ++ [change]) short target
    ↔ Binds change short target ∨ Keeps short change ∧ Imports history short target
  := by
  constructor
  · rintro ⟨before, first, later, hhistory, hbinds, hlater⟩
    obtain rfl | ⟨later, last, rfl⟩ := List.eq_nil_or_concat' later
    · obtain ⟨-, rfl⟩ := List.append_singleton_inj.1 hhistory
      exact .inl hbinds
    · rw [← List.cons_append, ← List.append_assoc] at hhistory
      obtain ⟨rfl, rfl⟩ := List.append_singleton_inj.1 hhistory
      have hlast : change ∈ later ++ [change] := by simp
      refine .inr ⟨hlater _ hlast, before, first, later, rfl, hbinds, ?_⟩
      intro c hc
      apply hlater _ (List.mem_append_left _ hc)
  · rintro (hbinds | ⟨hkeeps, before, first, later, rfl, hbinds, hlater⟩)
    · exact ⟨history, change, [], rfl, hbinds, List.forall_mem_nil _⟩
    · refine ⟨before, first, later ++ [change], by simp, hbinds, ?_⟩
      rw [List.forall_mem_append, List.forall_mem_singleton]
      exact ⟨hlater, hkeeps⟩

/-- An import is found by what it goes by, and the others as before. -/
theorem imported?_addImport :
  (s.addImport full given).imported? short
    = if Text.fold (given.getD (Text.lastPiece '\\' full)) = Text.fold short
      then some (Text.trimStart '\\' full) else s.imported? short
  := by
  rw [imported?, addImport, List.lookup_cons, Text.lastPiece_trimStart]
  split
  next h => rw [if_pos (eq_of_beq h).symm]
  next h => rw [if_neg (ne_of_beq_false h).symm, imported?]

/-- What one change does to what is imported under an alias. -/
theorem imported?_apply_iff :
  (change.apply s).imported? short = some target
    ↔ Binds change short target ∨ Keeps short change ∧ s.imported? short = some target
  := by
  cases change with
  | enter space =>
    constructor
    · intro h
      cases h
    · rintro (hbinds | ⟨⟨hentered, -⟩, -⟩)
      · cases hbinds
      · cases hentered
  | bring full given =>
    rw [Change.apply, imported?_addImport, binds_bring_iff, keeps_bring_iff]
    split
    next h => simp [h]
    next h => simp [h]

/-- Nothing has been imported at the beginning. -/
theorem not_imports_nil :
  ¬ Imports [] short target
  := by
  rintro ⟨before, change, later, hhistory, -⟩
  cases List.append_ne_nil_of_right_ne_nil _ (List.cons_ne_nil _ _) hhistory.symm

/-- What changes one after the other do to what is imported under an alias. -/
theorem imported?_foldl_iff :
  (history.foldl Change.apply s).imported? short = some target
    ↔ Imports history short target
      ∨ (∀ c ∈ history, Keeps short c) ∧ s.imported? short = some target
  := by
  induction history using List.reverseRecOn with
  | nil => simp [not_imports_nil]
  | append_singleton history change ih =>
    rw [List.foldl_append, List.foldl_cons, List.foldl_nil, imported?_apply_iff, ih,
      imports_concat_iff, List.forall_mem_append, List.forall_mem_singleton]
    tauto

/-- The scope knows what has been imported. -/
theorem imported?_after_iff :
  (after history).imported? short = some target ↔ Imports history short target
  := by
  have hstart : ({} : Scope).imported? short = none := rfl
  rw [after, imported?_foldl_iff, hstart]
  simp

/-- A name stands for one class. -/
theorem Imports.unique {target' : String} (h : Imports history short target)
    (h' : Imports history short target') :
  target = target'
  := by
  rw [← imported?_after_iff] at h h'
  rw [h] at h'
  exact Option.some_inj.1 h'

/-- As long as no namespace is entered, an alias is left alone or imported. -/
theorem forall_keeps_or_imports (hentered : ∀ c ∈ history, c.entered? = none) (short : String) :
  (∀ c ∈ history, Keeps short c) ∨ ∃ target, Imports history short target
  := by
  induction history using List.reverseRecOn with
  | nil => exact .inl (List.forall_mem_nil _)
  | append_singleton history change ih =>
    rw [List.forall_mem_append, List.forall_mem_singleton] at hentered
    simp only [imports_concat_iff]
    by_cases hkeeps : Keeps short change
    · obtain hall | ⟨target, himports⟩ := ih hentered.1
      · left
        rw [List.forall_mem_append, List.forall_mem_singleton]
        exact ⟨hall, hkeeps⟩
      · exact .inr ⟨target, .inr ⟨hkeeps, himports⟩⟩
    · rw [Keeps, not_and, not_forall_not] at hkeeps
      obtain ⟨target, hbinds⟩ := hkeeps hentered.2
      exact .inr ⟨target, .inl hbinds⟩

/-- A name that is imported has been bound by a change. -/
theorem Imports.not_forall_keeps (h : Imports history short target) :
  ¬ ∀ c ∈ history, Keeps short c
  := by
  obtain ⟨before, change, later, rfl, hbinds, -⟩ := h
  intro hkeeps
  apply (hkeeps change (by simp)).2 target hbinds

/-! ### What is resolved -/

theorem declare_eq_within :
  s.declare name = within s.space name
  := rfl

/-- A leading backslash is there when the first part is empty. -/
theorem afterFront?_backslash (h : '\\' ∉ head.toList) :
  Text.afterFront? "\\" (joined head rest) = if head = "" then rest else none
  := @afterFront?_joined head "" rest (by decide) h

/-- The keyword is known in small letters and in capitals only. -/
theorem afterKeyword?_joined (h : '\\' ∉ head.toList) :
  afterKeyword? (joined head rest)
    = if head = "namespace" ∨ head = "NAMESPACE" then rest else none
  := by
  have hsmall := @afterFront?_joined head "namespace" rest (by decide) h
  have hcapital := @afterFront?_joined head "NAMESPACE" rest (by decide) h
  change (Text.afterFront? ("namespace" ++ "\\") _).or (Text.afterFront? ("NAMESPACE" ++ "\\") _) = _
  rw [hsmall, hcapital]
  by_cases hhead : head = "namespace"
  · simp [hhead]
  · simp [hhead]

/-- A name with a leading backslash is meant as it is. -/
theorem resolve_absolute (s : Scope) (name : String) :
  s.resolve (joined "" (some name)) = name
  := by
  rw [resolve, afterFront?_backslash (by decide), if_pos rfl]

/-- A name behind the keyword is meant in the current namespace. -/
theorem resolve_keyword (s : Scope) {keyword : String} (name : String)
    (h : keyword = "namespace" ∨ keyword = "NAMESPACE") :
  s.resolve (joined keyword (some name)) = within s.space name
  := by
  have hplain : '\\' ∉ keyword.toList := by
    rcases h with rfl | rfl <;> decide
  have hnonempty : keyword ≠ "" := by
    rcases h with rfl | rfl <;> decide
  rw [resolve, afterFront?_backslash hplain, if_neg hnonempty, afterKeyword?_joined hplain,
    if_pos h]
  rfl

/-- Where a reference begins neither with a backslash nor with a known spelling of the keyword, its
first segment is looked up. -/
theorem resolve_joined (s : Scope) (hplain : '\\' ∉ head.toList)
    (h : rest ≠ none → head ≠ "" ∧ head ≠ "namespace" ∧ head ≠ "NAMESPACE") :
  s.resolve (joined head rest)
    = ((s.imported? head).map (joined · rest)).getD (within s.space (joined head rest))
  := by
  have hrelative : s.resolve (joined head rest) = s.resolveRelative (joined head rest) := by
    rw [resolve, afterFront?_backslash hplain, afterKeyword?_joined hplain]
    cases rest with
    | none => simp
    | some name =>
      obtain ⟨hnonempty, hsmall, hcapital⟩ := h (Option.some_ne_none _)
      rw [if_neg hnonempty, if_neg (not_or_intro hsmall hcapital)]
  rw [hrelative, resolveRelative, splitFirst?_joined hplain]
  cases rest with
  | none =>
    cases himported : s.imported? head with
    | none => simp [joined, himported, declare_eq_within]
    | some target => simp [joined, himported]
  | some name =>
    cases himported : s.imported? head with
    | none => simp [himported, declare_eq_within]
    | some target =>
      simp only [Option.map_some, himported, Option.getD_some]
      rfl

/-- Both spellings are spellings of the keyword. -/
theorem fold_of_known (h : head = "namespace" ∨ head = "NAMESPACE") :
  Text.fold head = "namespace"
  := by
  rcases h with rfl | rfl <;> decide +kernel

/-- The keyword is no empty name. -/
theorem ne_empty_of_fold (h : Text.fold head = "namespace") :
  head ≠ ""
  := by
  rintro rfl
  revert h
  decide +kernel

/-! ### What references stand for -/

/-- A name with a leading backslash stands for what follows it. -/
theorem stands_absolute_iff {other : String} :
  Stands history "" (some name) other ↔ other = name
  := by
  constructor
  · intro h
    cases h with
    | absolute => rfl
    | relative hkeyword => cases ne_empty_of_fold hkeyword rfl
    | imported hlooked => cases (hlooked (Option.some_ne_none _)).1 rfl
    | nearby hlooked => cases (hlooked (Option.some_ne_none _)).1 rfl
  · rintro rfl
    exact .absolute _

/-- A name behind the keyword, however this is spelled, stands in the current namespace. -/
theorem stands_relative_iff {keyword other : String} (hkeyword : Text.fold keyword = "namespace") :
  Stands history keyword (some name) other ↔ other = within (current history) name
  := by
  constructor
  · intro h
    cases h with
    | absolute => cases ne_empty_of_fold hkeyword rfl
    | relative => rfl
    | imported hlooked => cases (hlooked (Option.some_ne_none _)).2 hkeyword
    | nearby hlooked => cases (hlooked (Option.some_ne_none _)).2 hkeyword
  · rintro rfl
    exact .relative hkeyword name

/-- What is looked up stands for what is imported under it, or for a name in the current
namespace. -/
theorem stands_lookedUp_iff (hlooked : LookedUp head rest) :
  Stands history head rest name
    ↔ name = (((after history).imported? head).map (joined · rest)).getD
        (within (current history) (joined head rest))
  := by
  constructor
  · intro h
    cases h with
    | absolute => cases (hlooked (Option.some_ne_none _)).1 rfl
    | relative hkeyword => cases (hlooked (Option.some_ne_none _)).2 hkeyword
    | imported _ himports =>
      rw [imported?_after_iff.2 himports]
      rfl
    | nearby _ himports =>
      have hnone : (after history).imported? head = none := by
        rw [Option.eq_none_iff_forall_ne_some]
        intro target htarget
        apply himports target (imported?_after_iff.1 htarget)
      rw [hnone]
      rfl
  · rintro rfl
    cases himported : (after history).imported? head with
    | some target => exact .imported hlooked (imported?_after_iff.1 himported)
    | none =>
      apply Stands.nearby hlooked
      intro target htarget
      rw [imported?_after_iff.2 htarget] at himported
      cases himported

/-- A reference is absolute, begins with the keyword, or its first segment is looked up. -/
theorem absolute_or_relative_or_lookedUp (head : String) (rest : Option String) :
  (∃ name, head = "" ∧ rest = some name) ∨ (∃ name, Text.fold head = "namespace" ∧ rest = some name)
    ∨ LookedUp head rest
  := by
  cases rest with
  | none => exact .inr (.inr fun h => absurd rfl h)
  | some name =>
    by_cases hhead : head = ""
    · exact .inl ⟨name, hhead, rfl⟩
    · by_cases hkeyword : Text.fold head = "namespace"
      · exact .inr (.inl ⟨name, hkeyword, rfl⟩)
      · exact .inr (.inr fun _ => ⟨hhead, hkeyword⟩)

/-- Every reference stands for one name. -/
theorem existsUnique_stands (history : List Change) (head : String) (rest : Option String) :
  ∃! name, Stands history head rest name
  := by
  obtain ⟨name, rfl, rfl⟩ | ⟨name, hkeyword, rfl⟩ | hlooked :=
    absolute_or_relative_or_lookedUp head rest
  · exact ⟨_, stands_absolute_iff.2 rfl, fun _ => stands_absolute_iff.1⟩
  · exact ⟨_, (stands_relative_iff hkeyword).2 rfl, fun _ => (stands_relative_iff hkeyword).1⟩
  · exact ⟨_, (stands_lookedUp_iff hlooked).2 rfl, fun _ => (stands_lookedUp_iff hlooked).1⟩

/-- What a reference means is told by its first part and the others. -/
theorem means_joined_iff (hplain : '\\' ∉ head.toList) :
  Means history (joined head rest) name ↔ Stands history head rest name
  := by
  constructor
  · rintro ⟨head', rest', hplain', heq, h⟩
    obtain ⟨rfl, rfl⟩ := (joined_inj hplain hplain').1 heq
    exact h
  · intro h
    exact ⟨head, rest, hplain, rfl, h⟩

/-! ### References that are understood -/

/-- Where a reference begins with the keyword, that is in small letters or in capitals, or else the
current namespace is itself imported under this alias. -/
def Understood (history : List Change) (reference : String) : Prop :=
  ∀ keyword name, reference = joined keyword (some name) → Text.fold keyword = "namespace" →
    keyword = "namespace" ∨ keyword = "NAMESPACE"
      ∨ current history ≠ "" ∧ Imports history keyword (current history)

/-- A reference is misunderstood when the keyword is spelled in a way that is not known and is no
alias of the current namespace. -/
theorem understood_joined_iff (hplain : '\\' ∉ head.toList) :
  Understood history (joined head rest)
    ↔ (rest ≠ none → Text.fold head = "namespace" → head = "namespace" ∨ head = "NAMESPACE"
        ∨ current history ≠ "" ∧ Imports history head (current history))
  := by
  constructor
  · intro h hrest hkeyword
    obtain ⟨name, rfl⟩ := Option.ne_none_iff_exists'.1 hrest
    apply h head name rfl hkeyword
  · intro h keyword name heq hkeyword
    have hplain' : '\\' ∉ keyword.toList := notMem_of_fold hkeyword (by decide)
    obtain ⟨rfl, rfl⟩ := (joined_inj hplain hplain').1 heq
    apply h (Option.some_ne_none _) hkeyword

/-- A reference that keeps the keyword in it is another name. -/
theorem within_joined_ne (space keyword name : String) :
  within space (joined keyword (some name)) ≠ within space name
  := by
  intro h
  have hlength := congrArg String.length h
  unfold within at hlength
  split at hlength <;> simp [joined] at hlength

/-- An import and the current namespace give one name when they are the same. -/
theorem joined_eq_within_iff :
  joined target (some name) = within space name ↔ space ≠ "" ∧ target = space
  := by
  unfold within
  split
  next hspace => simp [joined, hspace]
  next hspace => simp [joined, hspace]

/-- A keyword in mixed letters is looked up; that leads to the current namespace only if this is
imported under the keyword. -/
theorem resolve_mixedKeyword_iff {keyword : String} (hkeyword : Text.fold keyword = "namespace")
    (hsmall : keyword ≠ "namespace") (hcapital : keyword ≠ "NAMESPACE") :
  (after history).resolve (joined keyword (some name)) = within (current history) name
    ↔ current history ≠ "" ∧ Imports history keyword (current history)
  := by
  have hplain : '\\' ∉ keyword.toList := notMem_of_fold hkeyword (by decide)
  have hnonempty : keyword ≠ "" := ne_empty_of_fold hkeyword
  rw [resolve_joined _ hplain fun _ => ⟨hnonempty, hsmall, hcapital⟩, space_after,
    ← imported?_after_iff]
  cases (after history).imported? keyword with
  | none => simp [within_joined_ne]
  | some target => simp [joined_eq_within_iff]

/-- Every class reference stands for one name, and the reference is resolved to this name exactly
when it is understood. -/
theorem means_resolve_iff (history : List Change) (reference : String) :
  (∃! name, Means history reference name)
    ∧ (Means history reference ((after history).resolve reference) ↔ Understood history reference)
  := by
  obtain ⟨head, rest, hplain, rfl⟩ := exists_joined reference
  simp only [means_joined_iff hplain, understood_joined_iff hplain]
  refine ⟨existsUnique_stands history head rest, ?_⟩
  obtain ⟨name, rfl, rfl⟩ | ⟨name, hkeyword, rfl⟩ | hlooked :=
    absolute_or_relative_or_lookedUp head rest
  · have hkeyword : Text.fold "" ≠ "namespace" := fun h => ne_empty_of_fold h rfl
    rw [stands_absolute_iff, resolve_absolute]
    simp [hkeyword]
  · rw [stands_relative_iff hkeyword]
    by_cases hknown : head = "namespace" ∨ head = "NAMESPACE"
    · rw [resolve_keyword _ _ hknown, space_after]
      simp [← or_assoc, hknown]
    · obtain ⟨hsmall, hcapital⟩ := not_or.1 hknown
      rw [resolve_mixedKeyword_iff hkeyword hsmall hcapital]
      simp [hkeyword, hsmall, hcapital]
  · have hunknown : rest ≠ none → head ≠ "" ∧ head ≠ "namespace" ∧ head ≠ "NAMESPACE" := by
      intro hrest
      obtain ⟨hnonempty, hkeyword⟩ := hlooked hrest
      exact ⟨hnonempty, not_or.1 (mt fold_of_known hkeyword)⟩
    rw [stands_lookedUp_iff hlooked, resolve_joined _ hplain hunknown, space_after]
    constructor
    · intro _ hrest hkeyword
      cases (hlooked hrest).2 hkeyword
    · intro _
      rfl

/-- A reference with the keyword in mixed letters is taken for one to a namespace of this name. -/
theorem resolve_mixedKeyword :
  Means [.enter "App"] "Namespace\\Base\\Model" "App\\Base\\Model"
    ∧ (after [.enter "App"]).resolve "Namespace\\Base\\Model" = "App\\Namespace\\Base\\Model"
  := by
  constructor
  · refine ⟨"Namespace", some "Base\\Model", by decide, by decide, ?_⟩
    apply Stands.relative
    decide +kernel
  · decide +kernel

end Scope

end Amend.Php
