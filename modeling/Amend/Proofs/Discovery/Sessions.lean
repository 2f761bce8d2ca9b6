import Amend.Discovery.Finder
import Mathlib.Data.Finset.Card
import Mathlib.Data.List.Basic

/-!
# What a finder answers over time

A finder is given queries one after the other, while the disk changes as it likes (`Finder.serve`).
What it keeps is, under each signature, what it found the first time that a query with that
signature did not fail (`Remembers`).  So a query is answered as it was that first time, or from
the disk as it is when there was none, and a failure leaves nothing behind
(`Finder.resolve_after`).
-/

namespace Amend.Discovery

/-- A query that a finder was given, the disk as it was at that time, and the answer. -/
structure Exchange where
  disk : Disk
  query : Query
  answer : Except Failure (List String)

/-- Answer queries one after the other, each with the disk as it is at that time. -/
def Finder.serve (f : Finder) : List (Disk × Query) → List Exchange × Finder
  | [] => ([], f)
  | (disk, query) :: calls =>
    let (answer, f) := (f.resolve disk query).value
    let (exchanges, f) := f.serve calls
    (⟨disk, query, answer⟩ :: exchanges, f)

/-- The exchange was about a query with the signature, and these paths were found. -/
def Exchange.Finds (e : Exchange) (signature : String) (paths : List String) : Prop :=
  e.query.signature = signature ∧ e.answer = .ok paths

/-- The first successful exchange about a query with the signature found these paths. -/
def FoundFirst (past : List Exchange) (signature : String) (paths : List String) : Prop :=
  ∃ before e after, past = before ++ e :: after ∧ e.Finds signature paths
    ∧ ∀ e' ∈ before, ∀ paths', ¬ e'.Finds signature paths'

/-- The signatures of the queries of successful exchanges, one for each of these exchanges. -/
def signaturesFound (past : List Exchange) : List String :=
  (past.filter (·.answer.isOk)).map (·.query.signature)

/-- What an exchange found under a signature. -/
def Exchange.foundUnder? (signature : String) (e : Exchange) : Option (List String) :=
  if e.query.signature = signature then e.answer.toOption else none

/-- A finder keeps what was found first under each signature, and each signature once. -/
structure Remembers (past : List Exchange) (f : Finder) : Prop where
  lookup_eq : ∀ signature,
    f.found.lookup signature = past.findSome? (Exchange.foundUnder? signature)
  nodup : (f.found.map Prod.fst).Nodup

variable {f : Finder} {d : Disk} {q : Query} {past : List Exchange} {e : Exchange}
  {signature : String} {paths : List String} {failure : Failure}

/-! ### What was found -/

/-- An exchange has found paths under the signature of its query. -/
theorem Exchange.foundUnder?_eq_some_iff :
  e.foundUnder? signature = some paths ↔ e.Finds signature paths
  := by
  rw [foundUnder?, Finds]
  cases e.answer with
  | error failure => simp [Except.toOption]
  | ok found => simp [Except.toOption]

/-- An exchange has found nothing under any other signature. -/
theorem Exchange.foundUnder?_eq_none_iff :
  e.foundUnder? signature = none ↔ ∀ paths, ¬ e.Finds signature paths
  := by
  rw [Option.eq_none_iff_forall_ne_some]
  simp only [ne_eq, foundUnder?_eq_some_iff]

/-- The first exchange that has found something under a signature. -/
theorem findSome?_foundUnder?_eq_some_iff :
  past.findSome? (Exchange.foundUnder? signature) = some paths ↔ FoundFirst past signature paths
  := by
  rw [List.findSome?_eq_some_iff]
  simp only [Exchange.foundUnder?_eq_some_iff, Exchange.foundUnder?_eq_none_iff, FoundFirst]

/-- No exchange has found anything under a signature. -/
theorem findSome?_foundUnder?_eq_none_iff :
  past.findSome? (Exchange.foundUnder? signature) = none
    ↔ ∀ e ∈ past, ∀ paths, ¬ e.Finds signature paths
  := by
  rw [List.findSome?_eq_none_iff]
  simp only [Exchange.foundUnder?_eq_none_iff]

/-- The signatures under which something has been found. -/
theorem mem_signaturesFound_iff :
  signature ∈ signaturesFound past ↔ ∃ e ∈ past, ∃ paths, e.Finds signature paths
  := by
  have hok (e : Exchange) : e.answer.isOk = true ↔ ∃ paths, e.answer = .ok paths := by
    cases e.answer with
    | error failure => simp [Except.isOk, Except.toBool]
    | ok paths => simp [Except.isOk, Except.toBool]
  simp only [signaturesFound, List.mem_map, List.mem_filter, hok, Exchange.Finds]
  constructor
  · rintro ⟨e, ⟨he, paths, hpaths⟩, hsignature⟩
    exact ⟨e, he, paths, hsignature, hpaths⟩
  · rintro ⟨e, he, paths, hsignature, hpaths⟩
    exact ⟨e, ⟨he, paths, hpaths⟩, hsignature⟩

/-! ### One query -/

namespace Finder

/-- What is kept under the signature is the answer, and nothing changes. -/
theorem value_resolve_of_some (h : f.found.lookup q.signature = some paths) (d : Disk) :
  (f.resolve d q).value = (.ok paths, f)
  := by
  rw [resolve, h]
  rfl

/-- Else the disk is searched, and what is found is kept. -/
theorem value_resolve_of_none (h : f.found.lookup q.signature = none) (d : Disk) :
  (f.resolve d q).value
    = match (discover d q).run.value with
      | .error failure => (.error failure, f)
      | .ok paths => (.ok paths, ⟨f.found ++ [(q.signature, paths)]⟩)
  := by
  rw [resolve, h]
  dsimp only
  rw [Logged.value_bind]
  cases (discover d q).run.value <;> rfl

end Finder

/-! ### What is kept -/

namespace Remembers

/-- A new finder remembers nothing. -/
theorem empty :
  Remembers [] .empty
  := ⟨fun _ => rfl, List.nodup_nil⟩

/-- A finder keeps the signatures under which something has been found. -/
theorem mem_signatures_iff (h : Remembers past f) :
  signature ∈ f.found.map Prod.fst ↔ signature ∈ signaturesFound past
  := by
  have hkept : signature ∈ f.found.map Prod.fst ↔ f.found.lookup signature ≠ none := by
    rw [← Option.isSome_iff_ne_none, List.lookup_isSome_iff, List.mem_map]
    simp only [beq_iff_eq]
    simp only [eq_comm]
  rw [hkept, h.lookup_eq, Ne, findSome?_foundUnder?_eq_none_iff, mem_signaturesFound_iff]
  simp

/-- As many lists are kept as there are signatures for which something was found. -/
theorem size_eq (h : Remembers past f) :
  f.size = (signaturesFound past).toFinset.card
  := by
  have hsame : (f.found.map Prod.fst).toFinset = (signaturesFound past).toFinset := by
    ext signature
    rw [List.mem_toFinset, List.mem_toFinset, h.mem_signatures_iff]
  rw [← hsame, List.toFinset_card_of_nodup h.nodup, List.length_map, Finder.size]

/-- A query with a signature for which something was found is answered as it was the first
time. -/
theorem value_resolve_of_foundFirst (h : Remembers past f)
    (hfound : FoundFirst past q.signature paths) (d : Disk) :
  (f.resolve d q).value = (.ok paths, f)
  := by
  apply Finder.value_resolve_of_some
  rw [h.lookup_eq, findSome?_foundUnder?_eq_some_iff]
  exact hfound

/-- Any other query is answered from the disk, and only a success is kept. -/
theorem value_resolve_of_not_found (h : Remembers past f)
    (hnew : ∀ e ∈ past, ∀ paths, ¬ e.Finds q.signature paths) (d : Disk) :
  (f.resolve d q).value
    = match (discover d q).run.value with
      | .error failure => (.error failure, f)
      | .ok paths => (.ok paths, ⟨f.found ++ [(q.signature, paths)]⟩)
  := by
  apply Finder.value_resolve_of_none
  rw [h.lookup_eq, findSome?_foundUnder?_eq_none_iff]
  exact hnew

/-- What has not been found before is searched for on the disk as it is. -/
theorem fst_value_resolve_of_not_found (h : Remembers past f)
    (hnew : ∀ e ∈ past, ∀ paths, ¬ e.Finds q.signature paths) (d : Disk) :
  (f.resolve d q).value.1 = (discover d q).run.value
  := by
  rw [h.value_resolve_of_not_found hnew]
  cases (discover d q).run.value <;> rfl

/-- A query that fails had not succeeded before, and nothing is kept of it. -/
theorem of_failed {f' : Finder} (h : Remembers past f)
    (hfailed : (f.resolve d q).value = (.error failure, f')) :
  f' = f ∧ ∀ e ∈ past, ∀ paths, ¬ e.Finds q.signature paths
  := by
  cases hfound : past.findSome? (Exchange.foundUnder? q.signature) with
  | some paths =>
    rw [findSome?_foundUnder?_eq_some_iff] at hfound
    rw [h.value_resolve_of_foundFirst hfound] at hfailed
    cases hfailed
  | none =>
    rw [findSome?_foundUnder?_eq_none_iff] at hfound
    rw [h.value_resolve_of_not_found hfound] at hfailed
    cases hdiscover : (discover d q).run.value with
    | error failure' =>
      rw [hdiscover] at hfailed
      cases hfailed
      exact ⟨rfl, hfound⟩
    | ok paths =>
      rw [hdiscover] at hfailed
      cases hfailed

/-- An exchange that adds nothing to what was found first. -/
theorem append_of_keeps (h : Remembers past f)
    (hkeeps : ∀ paths, e.Finds e.query.signature paths →
      ∃ paths', FoundFirst past e.query.signature paths') :
  Remembers (past ++ [e]) f
  := by
  constructor
  · intro signature
    rw [h.lookup_eq, List.findSome?_append, List.findSome?_singleton]
    cases hfound : past.findSome? (Exchange.foundUnder? signature) with
    | some paths => rfl
    | none =>
      rw [Option.none_or, eq_comm, Exchange.foundUnder?_eq_none_iff]
      rintro paths ⟨rfl, hpaths⟩
      obtain ⟨paths', hfirst⟩ := hkeeps paths ⟨rfl, hpaths⟩
      rw [← findSome?_foundUnder?_eq_some_iff, hfound] at hfirst
      cases hfirst
  · exact h.nodup

/-- An exchange that is the first to find something under its signature. -/
theorem append_of_finds (h : Remembers past f) (hfinds : e.Finds signature paths)
    (hnew : ∀ e ∈ past, ∀ paths, ¬ e.Finds signature paths) :
  Remembers (past ++ [e]) ⟨f.found ++ [(signature, paths)]⟩
  := by
  have hlast (other : String) :
      [(signature, paths)].lookup other = e.foundUnder? other := by
    by_cases hother : other = signature
    · rw [hother, Exchange.foundUnder?_eq_some_iff.2 hfinds, List.lookup_cons_self]
    · obtain ⟨hsignature, -⟩ := hfinds
      rw [List.lookup_cons, beq_false_of_ne hother, Exchange.foundUnder?, hsignature,
        if_neg (Ne.symm hother), List.lookup_nil]
  constructor
  · intro other
    rw [List.lookup_append, h.lookup_eq, List.findSome?_append, List.findSome?_singleton, hlast]
  · rw [List.map_append, List.map_singleton, List.nodup_append]
    refine ⟨h.nodup, List.nodup_singleton _, ?_⟩
    rintro kept hkept _ hsignature rfl
    rw [List.mem_singleton.1 hsignature, h.mem_signatures_iff, mem_signaturesFound_iff] at hkept
    obtain ⟨e, he, paths, hfinds⟩ := hkept
    apply hnew e he paths hfinds

/-- Answering a query keeps what is found, and remembers what was found before. -/
theorem resolve (h : Remembers past f) (d : Disk) (q : Query) :
  Remembers (past ++ [⟨d, q, (f.resolve d q).value.1⟩]) (f.resolve d q).value.2
  := by
  cases hfound : past.findSome? (Exchange.foundUnder? q.signature) with
  | some paths =>
    rw [findSome?_foundUnder?_eq_some_iff] at hfound
    rw [h.value_resolve_of_foundFirst hfound]
    apply h.append_of_keeps
    intro _ _
    exact ⟨paths, hfound⟩
  | none =>
    rw [findSome?_foundUnder?_eq_none_iff] at hfound
    rw [h.value_resolve_of_not_found hfound]
    cases (discover d q).run.value with
    | error failure =>
      apply h.append_of_keeps
      rintro paths ⟨-, hpaths⟩
      cases hpaths
    | ok paths =>
      have hfinds : (⟨d, q, .ok paths⟩ : Exchange).Finds q.signature paths := ⟨rfl, rfl⟩
      apply h.append_of_finds hfinds hfound

end Remembers

/-! ### Queries one after the other -/

namespace Finder

/-- Calls are served one after the other. -/
theorem serve_cons (f : Finder) (d : Disk) (q : Query) (calls : List (Disk × Query)) :
  f.serve ((d, q) :: calls)
    = (⟨d, q, (f.resolve d q).value.1⟩ :: ((f.resolve d q).value.2.serve calls).1,
        ((f.resolve d q).value.2.serve calls).2)
  := rfl

/-- One more query after all others. -/
theorem serve_snoc (f : Finder) (calls : List (Disk × Query)) (d : Disk) (q : Query) :
  f.serve (calls ++ [(d, q)])
    = ((f.serve calls).1 ++ [⟨d, q, ((f.serve calls).2.resolve d q).value.1⟩],
        ((f.serve calls).2.resolve d q).value.2)
  := by
  induction calls generalizing f with
  | nil => rfl
  | cons call calls ih =>
    obtain ⟨d', q'⟩ := call
    rw [List.cons_append, serve_cons, serve_cons, ih]
    rfl

/-- Whatever the finder is asked, it remembers what was found first. -/
theorem remembers_serve (calls : List (Disk × Query)) :
  Remembers (empty.serve calls).1 (empty.serve calls).2
  := by
  induction calls using List.reverseRecOn with
  | nil => exact .empty
  | append_singleton calls call ih =>
    obtain ⟨d, q⟩ := call
    rw [serve_snoc]
    apply ih.resolve

/-- After any number of queries, on whatever disks, a query is answered as follows.  When a query
with its signature succeeded before, the answer is what the first of these found.  When none did,
it is what is found on the disk as it is, or why nothing is.  A failure leaves what is kept as it
was, so that the query is answered from the disk as it is the next time.  There are as many lists
kept as there are different signatures among the queries that succeeded. -/
theorem resolve_after (calls : List (Disk × Query)) (d : Disk) (q : Query) :
  ∃ past f answer f', empty.serve calls = (past, f) ∧ (f.resolve d q).value = (answer, f')
    ∧ empty.serve (calls ++ [(d, q)]) = (past ++ [⟨d, q, answer⟩], f')
    ∧ (∀ paths, FoundFirst past q.signature paths → answer = .ok paths)
    ∧ ((∀ e ∈ past, ∀ paths, ¬ e.Finds q.signature paths) → answer = (discover d q).run.value)
    ∧ (∀ failure, answer = .error failure →
        f' = f ∧ ∀ later, (f'.resolve later q).value.1 = (discover later q).run.value)
    ∧ f.size = (signaturesFound past).toFinset.card
  := by
  have h := remembers_serve calls
  have hsnoc := serve_snoc empty calls d q
  obtain ⟨⟨past, f⟩, hserve⟩ : ∃ r, empty.serve calls = r := ⟨_, rfl⟩
  rw [hserve] at h hsnoc
  obtain ⟨⟨answer, f'⟩, hresolve⟩ : ∃ r, (f.resolve d q).value = r := ⟨_, rfl⟩
  rw [hresolve] at hsnoc
  refine ⟨past, f, answer, f', hserve, hresolve, hsnoc, ?_, ?_, ?_, h.size_eq⟩
  · intro paths hfound
    rw [h.value_resolve_of_foundFirst hfound] at hresolve
    rw [← (Prod.mk.inj hresolve).1]
  · intro hnew
    rw [← h.fst_value_resolve_of_not_found hnew, hresolve]
  · rintro failure rfl
    obtain ⟨rfl, hnew⟩ := h.of_failed hresolve
    use rfl
    intro later
    apply h.fst_value_resolve_of_not_found hnew

end Finder

end Amend.Discovery
