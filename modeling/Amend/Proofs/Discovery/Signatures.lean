import Amend.Proofs.Discovery.Sessions

/-!
# Which queries have the same signature

The name of a list and the separator behind it stand in an encoding among the items, and nothing
tells them from an item that begins with the same characters.  The encoding can be cut into
`Query.pieces` at its NUL bytes, and the queries without NUL characters that have the same encoding
are those with the same pieces (`Query.encoding_eq_iff`).

The pieces tell where each list ends unless an item `Query.Imitates` the beginning of a list.  A
query in which no item does so is the only one with its encoding, and a finder answers it only with
what was found for this query (`Query.plain_unmistakable`).
-/

namespace Amend.Discovery

/-! ### Bytes -/

/-- The loop over the bytes puts those from the index on behind the front. -/
theorem toList_loop_eq (bytes : ByteArray) (i : Nat) (front : List UInt8) :
  ByteArray.toList.loop bytes i front = front.reverse ++ bytes.data.toList.drop i
  := by
  fun_induction ByteArray.toList.loop bytes i front with
  | case1 i front hi ih =>
    have hlength : i < bytes.data.toList.length := hi
    have hbyte : bytes.get! i = bytes.data.toList[i] := getElem!_pos bytes.data i hi
    rw [ih, List.drop_eq_getElem_cons hlength, hbyte, List.reverse_cons, List.append_assoc]
    rfl
  | case2 i front hi =>
    rw [List.drop_of_length_le (Nat.le_of_not_lt hi), List.append_nil]

/-- The bytes of an array are those of its data. -/
theorem toList_eq_data (bytes : ByteArray) :
  bytes.toList = bytes.data.toList
  := by
  rw [ByteArray.toList, toList_loop_eq]
  rfl

/-- The bytes of a text. -/
def utf8 (text : List Char) : List UInt8 := (String.ofList text).toUTF8.toList

/-- Texts one after the other have their bytes one after the other. -/
theorem utf8_append (front back : List Char) :
  utf8 (front ++ back) = utf8 front ++ utf8 back
  := by
  simp only [utf8, toList_eq_data, String.toUTF8_eq_toByteArray]
  rw [String.ofList_append, String.toByteArray_append, ByteArray.toList_data_append]

/-- The bytes tell the text. -/
theorem utf8_injective :
  Function.Injective utf8
  := by
  intro text text' h
  simp only [utf8, toList_eq_data, String.toUTF8_eq_toByteArray] at h
  have hbytes := ByteArray.ext (Array.toList_inj.1 h)
  rw [String.toByteArray_inj] at hbytes
  apply String.ofList_injective hbytes

/-- The bytes of a text are those of its characters. -/
theorem utf8_toList (s : String) :
  utf8 s.toList = s.toUTF8.toList
  := by
  rw [utf8, String.ofList_toList]

theorem utf8_nil :
  utf8 [] = []
  := by
  rw [utf8, toList_eq_data]
  rfl

theorem utf8_nul :
  utf8 ['\x00'] = [0]
  := by
  rw [utf8, toList_eq_data]
  rfl

theorem utf8_separator :
  utf8 ['\x1e'] = [0x1e]
  := by
  rw [utf8, toList_eq_data]
  rfl

namespace Query

/-! ### The pieces of an encoding -/

/-- What a list begins with: its name and the separator. -/
def beginning (name : String) : List Char := name.toList ++ ['\x1e']

/-- No item has a NUL character in it. -/
def NulFree (q : Query) : Prop :=
  ∀ item ∈ q.roots ++ q.suffixes ++ q.excludes, '\x00' ∉ item.toList

instance (q : Query) : Decidable q.NulFree :=
  inferInstanceAs (Decidable (∀ item ∈ q.roots ++ q.suffixes ++ q.excludes, '\x00' ∉ item.toList))

/-- Some item begins as the suffixes do, or some item after the roots as the exclude patterns do. -/
def Imitates (q : Query) : Prop :=
  (∃ item ∈ q.roots ++ q.suffixes ++ q.excludes, beginning "suffixes" <+: item.toList)
    ∨ ∃ item ∈ q.suffixes ++ q.excludes, beginning "excludes" <+: item.toList

instance (q : Query) : Decidable q.Imitates :=
  inferInstanceAs (Decidable
    ((∃ item ∈ q.roots ++ q.suffixes ++ q.excludes, beginning "suffixes" <+: item.toList)
      ∨ ∃ item ∈ q.suffixes ++ q.excludes, beginning "excludes" <+: item.toList))

/-- Put the beginning of a list in front of the first of some pieces. -/
def opened (name : String) : List (List Char) → List (List Char)
  | [] => []
  | piece :: pieces => (beginning name ++ piece) :: pieces

/-- The pieces of the exclude patterns: their texts, and what follows the last NUL byte. -/
def excludePieces (q : Query) : List (List Char) := q.excludes.map String.toList ++ [[]]

/-- The pieces of the suffixes and of what comes after them. -/
def suffixPieces (q : Query) : List (List Char) :=
  q.suffixes.map String.toList ++ opened "excludes" q.excludePieces

/-- The texts between the NUL bytes of the encoding. -/
def pieces (q : Query) : List (List Char) :=
  opened "roots" (q.roots.map String.toList ++ opened "suffixes" q.suffixPieces)

variable {q q' : Query} {name : String} {items items' : List (List Char)}
  {rest rest' : List (List Char)}

/-- A list that is opened still has its pieces. -/
theorem opened_ne_nil (name : String) (h : rest ≠ []) :
  opened name rest ≠ []
  := by
  cases rest with
  | nil => contradiction
  | cons piece pieces => exact List.cons_ne_nil _ _

/-- What a list begins with can be taken off again. -/
theorem opened_injective (name : String) :
  Function.Injective (opened name)
  := by
  intro rest rest' h
  cases rest with
  | nil =>
    cases rest' with
    | nil => rfl
    | cons piece' pieces' => cases h
  | cons piece pieces =>
    cases rest' with
    | nil => cases h
    | cons piece' pieces' =>
      obtain ⟨hpiece, hpieces⟩ := List.cons.inj h
      rw [List.append_cancel_left hpiece, hpieces]

/-- A list begins with the bytes of its name and the separator. -/
theorem utf8_beginning (name : String) :
  utf8 (beginning name) = name.toUTF8.toList ++ [0x1e]
  := by
  rw [beginning, utf8_append, utf8_separator, utf8_toList]

/-- Each item has a NUL byte behind it. -/
theorem utf8_intercalate_append (items : List String) (h : rest ≠ []) :
  utf8 (['\x00'].intercalate (items.map String.toList ++ rest))
    = (items.flatMap fun item => item.toUTF8.toList ++ [0]) ++ utf8 (['\x00'].intercalate rest)
  := by
  induction items with
  | nil => rfl
  | cons item items ih =>
    have hrest : items.map String.toList ++ rest ≠ [] := List.append_ne_nil_of_right_ne_nil _ h
    rw [List.map_cons, List.cons_append, List.intercalate_cons_of_ne_nil hrest, utf8_append,
      utf8_append, ih, utf8_toList, utf8_nul, List.flatMap_cons]
    simp only [List.append_assoc]

/-- What a list begins with stands in front of all its pieces. -/
theorem intercalate_opened (name : String) (h : rest ≠ []) :
  ['\x00'].intercalate (opened name rest) = beginning name ++ ['\x00'].intercalate rest
  := by
  cases rest with
  | nil => contradiction
  | cons piece pieces =>
    rw [opened]
    cases pieces with
    | nil => rw [List.intercalate_singleton, List.intercalate_singleton]
    | cons next pieces =>
      rw [List.intercalate_cons_cons, List.intercalate_cons_cons]
      simp only [List.append_assoc]

/-- A named list in front of further pieces. -/
theorem utf8_intercalate_opened_append (name : String) (items : List String) (h : rest ≠ []) :
  utf8 (['\x00'].intercalate (opened name (items.map String.toList ++ rest)))
    = encodeList name items ++ utf8 (['\x00'].intercalate rest)
  := by
  have hrest : items.map String.toList ++ rest ≠ [] := List.append_ne_nil_of_right_ne_nil _ h
  rw [intercalate_opened name hrest, utf8_append, utf8_beginning, utf8_intercalate_append items h,
    encodeList, List.append_assoc]
  simp only [List.append_assoc]

/-- There is always the piece behind the last NUL byte. -/
theorem excludePieces_ne_nil (q : Query) :
  q.excludePieces ≠ []
  := List.append_ne_nil_of_right_ne_nil _ (List.cons_ne_nil _ _)

theorem suffixPieces_ne_nil (q : Query) :
  q.suffixPieces ≠ []
  := List.append_ne_nil_of_right_ne_nil _ (opened_ne_nil "excludes" q.excludePieces_ne_nil)

theorem pieces_ne_nil (q : Query) :
  q.pieces ≠ []
  := by
  apply opened_ne_nil
  apply List.append_ne_nil_of_right_ne_nil _ (opened_ne_nil "suffixes" q.suffixPieces_ne_nil)

/-- The encoding holds the pieces with NUL bytes between them. -/
theorem encoding_eq (q : Query) :
  q.encoding = utf8 (['\x00'].intercalate q.pieces)
  := by
  have hsuffixes := opened_ne_nil "suffixes" q.suffixPieces_ne_nil
  have hexcludes := opened_ne_nil "excludes" q.excludePieces_ne_nil
  rw [pieces, utf8_intercalate_opened_append "roots" q.roots hsuffixes, suffixPieces,
    utf8_intercalate_opened_append "suffixes" q.suffixes hexcludes, excludePieces,
    utf8_intercalate_opened_append "excludes" q.excludes (List.cons_ne_nil _ _),
    List.intercalate_singleton, utf8_nil, List.append_nil, encoding, List.append_assoc]

/-- What a list begins with has no NUL character in it. -/
theorem nul_notMem_of_mem_opened (hname : '\x00' ∉ beginning name)
    (h : ∀ piece ∈ rest, '\x00' ∉ piece) :
  ∀ piece ∈ opened name rest, '\x00' ∉ piece
  := by
  cases rest with
  | nil => exact h
  | cons first others =>
    rw [List.forall_mem_cons] at h
    rw [opened, List.forall_mem_cons, List.mem_append, not_or]
    exact ⟨⟨hname, h.1⟩, h.2⟩

/-- Without NUL characters in the items the pieces have none. -/
theorem NulFree.nul_notMem (h : q.NulFree) :
  ∀ piece ∈ q.pieces, '\x00' ∉ piece
  := by
  simp only [NulFree, List.forall_mem_append] at h
  obtain ⟨⟨hroots, hsuffixes⟩, hexcludes⟩ := h
  have hexcludePieces : ∀ piece ∈ q.excludePieces, '\x00' ∉ piece := by
    rw [excludePieces, List.forall_mem_append, List.forall_mem_map]
    use hexcludes
    simp
  have hsuffixPieces : ∀ piece ∈ q.suffixPieces, '\x00' ∉ piece := by
    rw [suffixPieces, List.forall_mem_append, List.forall_mem_map]
    use hsuffixes
    apply nul_notMem_of_mem_opened (by decide) hexcludePieces
  apply nul_notMem_of_mem_opened (by decide)
  rw [List.forall_mem_append, List.forall_mem_map]
  use hroots
  apply nul_notMem_of_mem_opened (by decide) hsuffixPieces

/-- Queries without NUL characters have the same encoding when they have the same pieces. -/
theorem encoding_eq_iff (hq : q.NulFree) (hq' : q'.NulFree) :
  q.encoding = q'.encoding ↔ q.pieces = q'.pieces
  := by
  rw [encoding_eq, encoding_eq, utf8_injective.eq_iff]
  constructor
  · intro h
    rw [← List.splitOn_intercalate '\x00' hq.nul_notMem q.pieces_ne_nil, h,
      List.splitOn_intercalate '\x00' hq'.nul_notMem q'.pieces_ne_nil]
  · intro h
    rw [h]

/-! ### Where a list ends -/

/-- A list ends where the next one begins, when no piece imitates the beginning of the
next one. -/
theorem append_opened_inj (hplain : ∀ piece ∈ items ++ rest, ¬ beginning name <+: piece)
    (hrest : rest ≠ []) (hrest' : rest' ≠ [])
    (h : items ++ opened name rest = items' ++ opened name rest') :
  items = items' ∧ rest = rest'
  := by
  obtain ⟨first, others, rfl⟩ := List.exists_cons_of_ne_nil hrest
  obtain ⟨first', others', rfl⟩ := List.exists_cons_of_ne_nil hrest'
  have hfirst' : beginning name <+: beginning name ++ first' := List.prefix_append _ _
  rw [List.append_eq_append_iff] at h
  obtain ⟨more, hitems, hmore⟩ | ⟨more, hitems, hmore⟩ := h
  · cases more with
    | nil =>
      rw [List.append_nil] at hitems
      exact ⟨hitems.symm, opened_injective name hmore⟩
    | cons piece more =>
      obtain ⟨-, hothers⟩ := List.cons.inj hmore
      refine absurd hfirst' (hplain _ ?_)
      rw [hothers, opened]
      simp
  · cases more with
    | nil =>
      rw [List.append_nil] at hitems
      exact ⟨hitems, opened_injective name hmore.symm⟩
    | cons piece more =>
      obtain ⟨hpiece, -⟩ := List.cons.inj hmore
      refine absurd hfirst' (hplain _ ?_)
      rw [hitems, hpiece]
      simp

/-- The last list begins otherwise than the list before it. -/
theorem not_suffixes_prefix_of_mem_opened
    (hplain : ∀ piece ∈ rest, ¬ beginning "suffixes" <+: piece) :
  ∀ piece ∈ opened "excludes" rest, ¬ beginning "suffixes" <+: piece
  := by
  cases rest with
  | nil => exact hplain
  | cons first others =>
    rw [List.forall_mem_cons] at hplain
    rw [opened, List.forall_mem_cons]
    refine ⟨?_, hplain.2⟩
    rintro ⟨others, h⟩
    simp [beginning] at h

/-- If no exclude pattern imitates the beginning of a list, no piece of them does. -/
theorem not_beginning_prefix_of_mem_excludePieces
    (hplain : ∀ item ∈ q.excludes, ¬ beginning name <+: item.toList) :
  ∀ piece ∈ q.excludePieces, ¬ beginning name <+: piece
  := by
  rw [excludePieces, List.forall_mem_append, List.forall_mem_map]
  use hplain
  simp [beginning]

/-- A query in which no item imitates the beginning of a list is the only one with its pieces. -/
theorem eq_of_pieces_eq (hplain : ¬ q.Imitates) (h : q.pieces = q'.pieces) :
  q = q'
  := by
  simp only [Imitates, not_or, not_exists, not_and, List.forall_mem_append] at hplain
  obtain ⟨⟨⟨hroots, hsuffixes⟩, hexcludes⟩, hsuffixes', hexcludes'⟩ := hplain
  have hinj : Function.Injective (List.map String.toList) :=
    List.map_injective_iff.2 fun _ _ => String.toList_injective
  have hafterRoots : ∀ piece ∈ q.roots.map String.toList ++ q.suffixPieces,
      ¬ beginning "suffixes" <+: piece := by
    rw [List.forall_mem_append, List.forall_mem_map, suffixPieces, List.forall_mem_append,
      List.forall_mem_map]
    use hroots, hsuffixes
    apply not_suffixes_prefix_of_mem_opened
    apply not_beginning_prefix_of_mem_excludePieces hexcludes
  have hafterSuffixes : ∀ piece ∈ q.suffixes.map String.toList ++ q.excludePieces,
      ¬ beginning "excludes" <+: piece := by
    rw [List.forall_mem_append, List.forall_mem_map]
    use hsuffixes'
    apply not_beginning_prefix_of_mem_excludePieces hexcludes'
  obtain ⟨heq_roots, h⟩ := append_opened_inj hafterRoots q.suffixPieces_ne_nil
    q'.suffixPieces_ne_nil (opened_injective "roots" h)
  obtain ⟨heq_suffixes, h⟩ := append_opened_inj hafterSuffixes q.excludePieces_ne_nil
    q'.excludePieces_ne_nil h
  have heq_excludes := List.append_cancel_right h
  rw [Query.mk.injEq]
  exact ⟨hinj heq_roots, hinj heq_suffixes, hinj heq_excludes⟩

/-- Of the queries without NUL characters, one in which no item imitates the beginning of a list is
the only one with its encoding. -/
theorem eq_of_encoding_eq (hq : q.NulFree) (hplain : ¬ q.Imitates) (hq' : q'.NulFree)
    (h : q'.encoding = q.encoding) :
  q' = q
  := by
  rw [eq_comm, encoding_eq_iff hq hq'] at h
  apply (eq_of_pieces_eq hplain h).symm

end Query

/-! ### What a finder keeps -/

namespace Finder

/-- Every list that is kept was found for the query of one of the calls, on the disk of that call,
and is kept under the signature of that query. -/
def Holds (calls : List (Disk × Query)) (f : Finder) : Prop :=
  ∀ signature paths, f.found.lookup signature = some paths →
    ∃ call ∈ calls, call.2.signature = signature ∧ (discover call.1 call.2).run.value = .ok paths

variable {f : Finder} {calls : List (Disk × Query)}

/-- One query more. -/
theorem Holds.resolve (h : f.Holds calls) (d : Disk) (q : Query) :
  (f.resolve d q).value.2.Holds (calls ++ [(d, q)])
  := by
  have hearlier : f.Holds (calls ++ [(d, q)]) := by
    intro signature paths hfound
    obtain ⟨call, hcall, hpaths⟩ := h signature paths hfound
    exact ⟨call, List.mem_append_left _ hcall, hpaths⟩
  cases hkept : f.found.lookup q.signature with
  | some paths =>
    rw [value_resolve_of_some hkept]
    exact hearlier
  | none =>
    rw [value_resolve_of_none hkept]
    cases hfound : (discover d q).run.value with
    | error failure => exact hearlier
    | ok paths =>
      intro signature paths' hpaths'
      dsimp only at hpaths'
      rw [List.lookup_append, Option.or_eq_some_iff] at hpaths'
      obtain hpaths' | ⟨-, hpaths'⟩ := hpaths'
      · exact hearlier signature paths' hpaths'
      · rw [List.lookup_cons] at hpaths'
        split at hpaths'
        next hsame =>
          use (d, q), List.mem_append_right _ (List.mem_singleton_self _), (eq_of_beq hsame).symm
          rw [hfound, Option.some.inj hpaths']
        next => cases hpaths'

/-- A finder holds what was found for the calls that it has served. -/
theorem holds_serve (calls : List (Disk × Query)) :
  (empty.serve calls).2.Holds calls
  := by
  induction calls using List.reverseRecOn with
  | nil =>
    intro signature paths hfound
    cases hfound
  | append_singleton calls call ih =>
    obtain ⟨d, q⟩ := call
    rw [serve_snoc]
    apply ih.resolve

end Finder

/-- A query without NUL characters in which no item imitates the beginning of a list is mistaken
for no other one.  No other query without NUL characters has its encoding.  After any number of
queries without NUL characters, on whatever disks, and when no other encoding among them has the
same digest, a finder answers the query with what is found for this query, on the disk as it is or
as it was when the finder was given this query before. -/
theorem Query.plain_unmistakable (q : Query) (hq : q.NulFree) (hplain : ¬ q.Imitates) :
  (∀ q' : Query, q'.NulFree → q'.encoding = q.encoding → q' = q)
    ∧ ∀ (calls : List (Disk × Query)) (d : Disk), (∀ call ∈ calls, call.2.NulFree) →
      (∀ call ∈ calls, call.2.signature = q.signature → call.2.encoding = q.encoding) →
      ∃ disk, (disk, q) ∈ calls ++ [(d, q)]
        ∧ ((Finder.empty.serve calls).2.resolve d q).value.1 = (discover disk q).run.value
  := by
  constructor
  · intro q' hq' h
    apply eq_of_encoding_eq hq hplain hq' h
  · intro calls d hcalls hdigest
    cases hkept : (Finder.empty.serve calls).2.found.lookup q.signature with
    | none =>
      use d, List.mem_append_right _ (List.mem_singleton_self _)
      rw [Finder.value_resolve_of_none hkept]
      cases (discover d q).run.value <;> rfl
    | some paths =>
      obtain ⟨⟨disk, q'⟩, hcall, hsignature, hpaths⟩ := Finder.holds_serve calls _ _ hkept
      have hencoding := hdigest _ hcall hsignature
      have hsame := eq_of_encoding_eq hq hplain (hcalls _ hcall) hencoding
      dsimp only at hsame hpaths
      subst hsame
      use disk, List.mem_append_left _ hcall
      rw [Finder.value_resolve_of_some hkept, hpaths]

/-- A query that excludes a file is not answered with what was found for one that does not. -/
theorem Query.plain_unmistakable_excludesOld :
  let d : Disk := { entries := [(["Old.php"], .file (.text ""))] }
  let everything : Query := ⟨["."], ["php"], []⟩
  let excluding : Query := ⟨["."], ["php"], ["Old"]⟩
  (∀ q : Query, q.NulFree → q.encoding = excluding.encoding → q = excluding)
    ∧ ∃ disk, (disk, excluding) ∈ [(d, everything)] ++ [(d, excluding)]
      ∧ ((Finder.empty.serve [(d, everything)]).2.resolve d excluding).value.1
        = (discover disk excluding).run.value
  := by
  intro d everything excluding
  obtain ⟨hencoding, hanswer⟩ :=
    Query.plain_unmistakable excluding (by decide) (by decide)
  use hencoding
  apply hanswer
  · decide
  · decide +kernel

/-- The first of these queries has among its suffixes what the second one has among its exclude
patterns.  They have the same encoding, and so the second one is answered with the file that it
excludes. -/
theorem Query.mistaken_excludesOld :
  let d : Disk := { entries := [(["Old.php"], .file (.text ""))] }
  let listing : Query := ⟨["."], ["php", "excludes\x1eOld"], [""]⟩
  let excluding : Query := ⟨["."], ["php"], ["Old", "excludes\x1e"]⟩
  listing.NulFree ∧ excluding.NulFree ∧ listing ≠ excluding
    ∧ listing.encoding = excluding.encoding
    ∧ (discover d excluding).run.value = .ok []
    ∧ ((Finder.empty.serve [(d, listing)]).2.resolve d excluding).value.1 = .ok ["/Old.php"]
  := by
  decide +kernel

end Amend.Discovery
