import Spinny.Listings

/-!
# Lists in the order of a number

`set_order( "track" )` puts together `upper(track)`, and `upper` is a function on texts: SQLite
passes it the decimal text of the number and compares the texts that it returns.

* `pairwise_iff_of_keys`: when a list that is sorted by keys is sorted by numbers.
* `Env.SortsTexts`: the order that SQLite gives such a list.
* `number_order_iff`: the songs are in the order of the number if and only if the decimal texts of
  the numbers are.
-/

namespace Spinny

open Bytes Boost Sqlite Proc

/-! ## Sorted lists -/

section

variable {α κ : Type} {f : α → Int} {key : α → κ} {le : κ → κ → Prop} {l : List α}

/-- A list that is sorted by keys, of which equal ones stand for equal numbers, is sorted by the
numbers if and only if the keys are in their order. -/
theorem pairwise_iff_of_keys (hanti : ∀ a b, le a b → le b a → a = b)
    (hkey : ∀ a b, key a = key b → f a = f b)
    (hsorted : l.Pairwise fun a b => le (key a) (key b)) :
    l.Pairwise (fun a b => f a ≤ f b) ↔ ∀ a ∈ l, ∀ b ∈ l, f a < f b → ¬le (key b) (key a) := by
  constructor
  · intro h a ha b hb hlt hle
    obtain ⟨i, hi, rfl⟩ := List.getElem_of_mem ha
    obtain ⟨j, hj, rfl⟩ := List.getElem_of_mem hb
    rcases lt_trichotomy i j with hij | rfl | hij
    · have hle' := List.pairwise_iff_getElem.mp hsorted i j hi hj hij
      have := hkey _ _ (hanti _ _ hle' hle)
      omega
    · omega
    · have := List.pairwise_iff_getElem.mp h j i hj hi hij
      omega
  · intro h
    refine hsorted.imp_of_mem fun {a b} ha hb hle => ?_
    by_contra hlt
    exact h b hb a ha (by omega) hle

/-- The same for a list that is sorted the other way. -/
theorem pairwise_iff_of_keys_desc (hanti : ∀ a b, le a b → le b a → a = b)
    (hkey : ∀ a b, key a = key b → f a = f b)
    (hsorted : l.Pairwise fun a b => le (key b) (key a)) :
    l.Pairwise (fun a b => f b ≤ f a) ↔ ∀ a ∈ l, ∀ b ∈ l, f a < f b → ¬le (key b) (key a) := by
  have h := pairwise_iff_of_keys hanti hkey (List.pairwise_reverse.mpr hsorted)
  simpa only [List.pairwise_reverse, List.mem_reverse] using h

end

/-! ## Decimal texts -/

theorem toUpperCopy_decimal (n : Nat) : toUpperCopy (decimal n) = decimal n := by
  refine (List.map_congr_left fun b hb => ?_).trans (List.map_id _)
  have := isDigit_iff.mp (isDigit_of_mem_decimal hb)
  refine if_neg fun h => ?_
  have hle : 97 ≤ b.toNat := UInt8.le_iff_toNat_le.mp h.1
  omega

theorem toUpperCopy_showInt (n : Int) : toUpperCopy (showInt n) = showInt n := by
  have hminus : upperAscii 45 = 45 := by decide
  unfold showInt
  split
  · change upperAscii 45 :: toUpperCopy (decimal _) = _
    rw [hminus, toUpperCopy_decimal]
  · exact toUpperCopy_decimal _

theorem decimal_injective : Function.Injective decimal :=
  Function.LeftInverse.injective foldDigits_decimal

/-- A number is known by its text. -/
theorem showInt_injective : Function.Injective showInt := by
  have hhead : ∀ n : Nat, ∀ rest, decimal n ≠ 45 :: rest := by
    intro n rest h
    have := isDigit_of_mem_decimal (h ▸ List.mem_cons_self : (45 : UInt8) ∈ decimal n)
    exact absurd this (by decide)
  intro a b h
  unfold showInt at h
  split at h <;> split at h
  · have := decimal_injective (List.cons.inj h).2
    omega
  · exact absurd h.symm (hhead _ _)
  · exact absurd h (hhead _ _)
  · have := decimal_injective h
    omega

variable [Affinity]

/-! ## The orders -/

/-- The columns that hold numbers. -/
def numberColumns : List Bytes := [lit "track", lit "length"]

/-- The number of a song that a column holds. -/
def Song.number (column : Bytes) (s : Song) : Int :=
  if column = lit "track" then s.track else s.length

/-- The number of a row that a column holds. -/
def SongRow.number (column : Bytes) (s : SongRow) : Int :=
  if column = lit "track" then s.track else s.length

/-- The number that is read of a row. -/
theorem number_ofNamedRow (db : Database) (c : Bytes) (id : Int) (row : SongRow) :
    (Song.ofNamedRow db id row).number c = toInt32 (row.number c) := by
  unfold Song.number SongRow.number
  split <;> rfl

/-- `order by upper( .. )`: the texts come in their order, or in the reverse one. -/
def Before (descending : Bool) (x y : Bytes) : Prop :=
  if descending then toUpperCopy y ≤ toUpperCopy x else toUpperCopy x ≤ toUpperCopy y

/-- The rows come out in the order of the texts of the column. -/
def SortedBy {ρ : Type} (row : ρ → SongRow) (column : Bytes) (descending : Bool)
    (order : Database → List ρ → Option (List ρ)) : Prop :=
  ∀ db rows, ∃ sorted, order db rows = some sorted ∧ sorted.Perm rows ∧
    sorted.Pairwise fun a b =>
      Before descending (columnText db (row a) column) (columnText db (row b) column)

/-- What SQLite makes of an order by a column of numbers. -/
structure Env.SortsTexts (env : Env) : Prop where
  joined : ∀ c ∈ numberColumns, ∀ descending, ∃ order,
    env.orderJoined (upperOrder c (lit "desc") (lit "asc") descending) = some order ∧
      SortedBy Joined.song c descending order
  complete : ∀ c ∈ numberColumns, ∀ descending, ∃ order,
    env.orderComplete (upperOrder c (lit "DESC") (lit "ASC") descending) = some order ∧
      SortedBy Prod.snd c descending order

/-- The songs are in the order of the number, or in the reverse one. -/
def InOrder (column : Bytes) (descending : Bool) (l : List Song) : Prop :=
  l.Pairwise fun a b =>
    if descending then b.number column ≤ a.number column else a.number column ≤ b.number column

/-- The decimal texts of the numbers of any two songs are in the order of the numbers, as they are
read as `int`s. -/
def TextsAgree (column : Bytes) (rows : List SongRow) : Prop :=
  ∀ a ∈ rows, ∀ b ∈ rows, toInt32 (a.number column) < toInt32 (b.number column) →
    showInt (a.number column) < showInt (b.number column)

theorem columnText_number {c : Bytes} (hc : c ∈ numberColumns) (db : Database) (s : SongRow) :
    toUpperCopy (columnText db s c) = showInt (s.number c) := by
  have htext : columnText db s c = showInt (s.number c) := by
    rcases List.mem_pair.mp hc with rfl | rfl
    · rfl
    · unfold columnText SongRow.number
      rw [if_neg (by decide), if_neg (by decide), if_neg (by decide), if_neg (by decide),
        if_neg (by decide)]
  rw [htext, toUpperCopy_showInt]

/-- The list of the songs behind sorted rows. -/
theorem inOrder_iff {ρ : Type} (row : ρ → SongRow) {song : ρ → Song} {c : Bytes}
    {descending : Bool} {db : Database} {sorted : List ρ} (hc : c ∈ numberColumns)
    (hsong : ∀ r, (song r).number c = toInt32 ((row r).number c))
    (hsorted : sorted.Pairwise fun a b =>
      Before descending (columnText db (row a) c) (columnText db (row b) c)) :
    InOrder c descending (sorted.map song) ↔ TextsAgree c (sorted.map row) := by
  have hanti : ∀ x y : Bytes, x ≤ y → y ≤ x → x = y := fun _ _ => List.le_antisymm
  have hkey : ∀ a b, showInt ((row a).number c) = showInt ((row b).number c) →
      toInt32 ((row a).number c) = toInt32 ((row b).number c) := fun _ _ h =>
    congrArg toInt32 (showInt_injective h)
  simp only [Before, columnText_number hc] at hsorted
  have htexts : TextsAgree c (sorted.map row) ↔ ∀ a ∈ sorted, ∀ b ∈ sorted,
      toInt32 ((row a).number c) < toInt32 ((row b).number c) →
        ¬showInt ((row b).number c) ≤ showInt ((row a).number c) := by
    simp only [TextsAgree, List.forall_mem_map, List.not_le]
  rw [htexts, InOrder, List.pairwise_map]
  simp only [hsong]
  cases descending with
  | true => exact pairwise_iff_of_keys_desc hanti hkey (by simpa using hsorted)
  | false => exact pairwise_iff_of_keys hanti hkey (by simpa using hsorted)

/-- Whether the texts agree is a matter of the rows, in whichever order they come. -/
theorem textsAgree_perm {c : Bytes} {l l' : List SongRow} (h : l.Perm l') :
    TextsAgree c l ↔ TextsAgree c l' := by
  simp only [TextsAgree, h.mem_iff]

/-! ## The source -/

/-- The object of a playlist that is saved. -/
def PlayListFields.IsSaved (p : PlayListFields) (db : Database) : Prop :=
  p.dbId ≠ 0 ∧ ∃ row, db.playlists.lookup p.dbId = some row ∧ p = .ofRow p.dbId row

omit [Affinity] in
theorem nulFree_upperOrder {c : Bytes} (hc : c ∈ numberColumns) (descending : Bool) :
    nulFree (upperOrder c (lit "desc") (lit "asc") descending) = true := by
  revert c descending
  decide +kernel

omit [Affinity] in
theorem quoteOnly_numberColumns : ∀ c ∈ numberColumns, quoteOnly c = c ∧
    ∀ descending, quoteOnly (upperOrder c (lit "desc") (lit "asc") descending) =
      upperOrder c (lit "desc") (lit "asc") descending := by
  decide +kernel

section

variable {env : Env} {p : PlayListFields} {w : World} {c : Bytes}

/-- Setting the order of a saved playlist leaves the songs and the entries as they are. -/
theorem setOrder_returns (hs : w.stale = false) (hp : p.IsSaved w.db) (hc : c ∈ numberColumns)
    (descending : Bool) : ∃ w', w'.stale = false ∧ w'.complete = w.complete ∧
      w'.db.joinedOf p.dbId = w.db.joinedOf p.dbId ∧
      Returns (PlayList.setOrder c descending (.stored p)) w
        (.stored { p with orderBy := upperOrder c (lit "desc") (lit "asc") descending }) w' := by
  obtain ⟨-, row, -, hrow⟩ := hp
  unfold PlayList.setOrder
  dsimp only
  split
  · rename_i hsame
    refine ⟨w, hs, rfl, rfl, ?_, rfl⟩
    rw [hsame]
    rfl
  · have hsome : (PlayListFields.toRow { p with
        orderBy := upperOrder c (lit "desc") (lit "asc") descending }).isSome = true := by
      have hname : nulFree p.name = true := by
        rw [hrow]
        exact row.name.nulFree_val
      have hdescription : nulFree p.description = true := by
        rw [hrow]
        exact row.description.nulFree_val
      unfold PlayListFields.toRow
      rw [dif_pos ⟨hname, hdescription, nulFree_upperOrder hc descending⟩, Option.isSome_some]
    obtain ⟨row', hrow'⟩ := Option.isSome_iff_exists.mp hsome
    have hsave : outcome (PlayList.save (.stored { p with
        orderBy := upperOrder c (lit "desc") (lit "asc") descending })) w = .ok () := by
      rw [PlayList.outcome_save_stored, PlayListFields.outcome_save, if_neg (by simp [hs, hrow'])]
      rfl
    have hafter := (PlayList.after_save_stored { p with
      orderBy := upperOrder c (lit "desc") (lit "asc") descending } w).trans
        (PlayListFields.after_save _ w)
    rw [hs, hrow'] at hafter
    refine ⟨_, ?_, ?_, ?_, Returns.bind ⟨hsave, hafter⟩ (Returns.pure _ _)⟩ <;> rfl

/-- Setting the order of the instance. -/
theorem setOrder_complete (hc : c ∈ numberColumns) (descending : Bool) :
    Returns (PlayList.setOrder c descending .complete) w .complete
      { w with complete := { w.complete with
        order := upperOrder c (lit "DESC") (lit "ASC") descending } } := by
  unfold PlayList.setOrder
  rw [(quoteOnly_numberColumns c hc).1]
  exact ⟨rfl, rfl⟩

/-- The list of a playlist after `set_order` by a column of numbers. -/
theorem stored_inOrder_iff (descending : Bool) (hsql : env.SortsTexts) (hs : w.stale = false)
    (hp : p.IsSaved w.db) (hc : c ∈ numberColumns) :
    ∃ pl w' l, Returns (PlayList.setOrder c descending (.stored p)) w pl w' ∧
      ListsSongs env pl w' 0 0 l ∧
        (InOrder c descending l ↔ TextsAgree c ((w.db.joinedOf p.dbId).map Joined.song)) := by
  obtain ⟨w', hs', -, hjoined, hset⟩ := setOrder_returns hs hp hc descending
  obtain ⟨order, horder, hsorts⟩ := hsql.joined c hc descending
  obtain ⟨sorted, hrows, hperm, hsorted⟩ := hsorts w'.db (w'.db.joinedOf p.dbId)
  refine ⟨_, w', _, hset, listsSongs_stored hs' ((quoteOnly_numberColumns c hc).2 descending)
    ?_ hrows, ?_⟩
  · rw [PlayList.limitText, if_pos rfl, List.append_nil, horder]
  · rw [inOrder_iff Joined.song hc (fun _ => number_ofNamedRow _ c _ _) hsorted, ← hjoined]
    exact textsAgree_perm (hperm.map _)

/-- The list of the library after `set_order` by a column of numbers. -/
theorem complete_inOrder_iff (descending : Bool) (hsql : env.SortsTexts) (hs : w.stale = false)
    (hc : c ∈ numberColumns) :
    ∃ pl w' l, Returns (PlayList.setOrder c descending .complete) w pl w' ∧
      ListsSongs env pl w' 0 0 l ∧
        (InOrder c descending l ↔ TextsAgree c (w.db.songs.rows.map Prod.snd)) := by
  obtain ⟨order, horder, hsorts⟩ := hsql.complete c hc descending
  obtain ⟨sorted, hrows, hperm, hsorted⟩ := hsorts w.db w.db.songs.rows
  have hne : upperOrder c (lit "DESC") (lit "ASC") descending ≠ [] := by
    intro h
    simpa [upperOrder, lit] using congrArg List.head? h
  refine ⟨_, _, _, setOrder_complete hc descending,
    listsSongs_complete hs (if_neg hne) ?_ hrows, ?_⟩
  · rw [PlayList.limitText, if_pos rfl, List.append_nil, horder]
  · rw [inOrder_iff Prod.snd hc (fun _ => number_ofNamedRow _ c _ _) hsorted]
    exact textsAgree_perm (hperm.map _)

/-- After `set_order` by a column of numbers `songs` lists a playlist, or the library, in the order of
the numbers if and only if their decimal texts are in that order. -/
theorem number_order_iff (descending : Bool) (hsql : env.SortsTexts) (hs : w.stale = false)
    (hp : p.IsSaved w.db) (hc : c ∈ numberColumns) :
    (∃ pl w' l, Returns (PlayList.setOrder c descending (.stored p)) w pl w' ∧
      ListsSongs env pl w' 0 0 l ∧
        (InOrder c descending l ↔ TextsAgree c ((w.db.joinedOf p.dbId).map Joined.song))) ∧
    ∃ pl w' l, Returns (PlayList.setOrder c descending .complete) w pl w' ∧
      ListsSongs env pl w' 0 0 l ∧
        (InOrder c descending l ↔ TextsAgree c (w.db.songs.rows.map Prod.snd)) :=
  ⟨stored_inOrder_iff descending hsql hs hp hc, complete_inOrder_iff descending hsql hs hc⟩

end

/-! ## Surroundings -/

omit [Affinity] in
theorem sortUpper_before {ρ : Type} (key : ρ → Bytes) (descending : Bool) (rows : List ρ) :
    (sortUpper key descending rows).Pairwise fun a b => Before descending (key a) (key b) := by
  have htrans : ∀ x y z : Bytes, x ≤ y → y ≤ z → x ≤ z := fun _ _ _ => List.le_trans
  have h := @List.pairwise_mergeSort ρ (fun a b =>
    if descending then decide (toUpperCopy (key b) ≤ toUpperCopy (key a))
    else decide (toUpperCopy (key a) ≤ toUpperCopy (key b))) ?_ ?_ rows
  · refine h.imp fun {a b} hab => ?_
    unfold Before
    cases descending <;> simpa using hab
  · intro a b c hab hbc
    cases descending with
    | true =>
      simp only [if_true, decide_eq_true_eq] at hab hbc ⊢
      exact htrans _ _ _ hbc hab
    | false =>
      simp only [Bool.false_eq_true, if_false, decide_eq_true_eq] at hab hbc ⊢
      exact htrans _ _ _ hab hbc
  · intro a b
    cases descending with
    | true => simpa using List.le_total (toUpperCopy (key b)) (toUpperCopy (key a))
    | false => simpa using List.le_total (toUpperCopy (key a)) (toUpperCopy (key b))

theorem Env.sorting_sortsTexts : Env.sorting.SortsTexts where
  joined c hc descending := by
    have hcolumn : namedColumn (lit "desc") (lit "asc")
        (upperOrder c (lit "desc") (lit "asc") descending) = some (c, descending) := by
      revert c descending
      decide +kernel
    have hne : upperOrder c (lit "desc") (lit "asc") descending ≠ lit "present_order desc" := by
      revert c descending
      decide +kernel
    refine ⟨fun db rows => some (sortUpper (fun j => columnText db j.song c) descending rows), ?_,
      fun db rows => ⟨_, rfl, sortUpper_perm _ _ _, sortUpper_before _ _ _⟩⟩
    simp only [Env.sorting, if_neg hne, hcolumn, Option.map_some]
  complete c hc descending := by
    have hcolumn : namedColumn (lit "DESC") (lit "ASC")
        (upperOrder c (lit "DESC") (lit "ASC") descending) = some (c, descending) := by
      revert c descending
      decide +kernel
    have hne : upperOrder c (lit "DESC") (lit "ASC") descending ≠ lit "songs.title" := by
      revert c descending
      decide +kernel
    refine ⟨sortComplete (c, descending), ?_,
      fun db rows => ⟨_, rfl, sortUpper_perm _ _ _, sortUpper_before _ _ _⟩⟩
    simp only [Env.sorting, if_neg hne, hcolumn, Option.map_some]

/-- A database with two songs of the numbers `a` and `b`, which stand in the playlist 2. -/
def twoNumbers (a b : Int) : Database :=
  { Database.empty with
    songs := (Table.single 1 ⟨1, 1, 1, .empty, .empty, a, a, 0, 0⟩).insert
      ⟨1, 1, 1, .empty, .empty, b, b, 0, 0⟩
    playlists := .single 2 ⟨.ofLiteral (lit "a") nulFree_a, .empty,
      .ofLiteral (lit "present_order desc") nulFree_newOrder, 0⟩
    playlistSongs := (Table.single 1 ⟨1, 1, 2⟩).insert ⟨2, 2, 2⟩ }

omit [Affinity] in
/-- The tracks 1 and 2. -/
theorem one_two_ordered : ∃ _ : Affinity, ∃ pl w' l,
    Returns (PlayList.setOrder (lit "track") false (.stored newPlayList)) (.start (twoNumbers 1 2))
        pl w' ∧
      ListsSongs .sorting pl w' 0 0 l ∧ InOrder (lit "track") false l := by
  let _ := integerAffinity
  obtain ⟨⟨pl, w', l, hset, hlist, hiff⟩, -⟩ := number_order_iff (w := .start (twoNumbers 1 2))
    (p := newPlayList) (c := lit "track") false Env.sorting_sortsTexts rfl
    ⟨by decide, _, rfl, by decide +kernel⟩ List.mem_cons_self
  exact ⟨integerAffinity, pl, w', l, hset, hlist, hiff.mpr (by unfold TextsAgree; decide +kernel)⟩

omit [Affinity] in
/-- The tracks 9 and 10: the text of 10 comes first. -/
theorem nine_ten_unordered : ∃ _ : Affinity, ∃ pl w' l,
    Returns (PlayList.setOrder (lit "track") false (.stored newPlayList)) (.start (twoNumbers 9 10))
        pl w' ∧
      ListsSongs .sorting pl w' 0 0 l ∧ ¬InOrder (lit "track") false l := by
  let _ := integerAffinity
  obtain ⟨pl, w', l, hset, hlist, hiff⟩ := stored_inOrder_iff (w := .start (twoNumbers 9 10))
    (p := newPlayList) (c := lit "track") false Env.sorting_sortsTexts rfl
    ⟨by decide, _, rfl, by decide +kernel⟩ List.mem_cons_self
  refine ⟨integerAffinity, pl, w', l, hset, hlist, fun h => ?_⟩
  exact absurd (hiff.mp h) (by unfold TextsAgree; decide +kernel)

end Spinny
