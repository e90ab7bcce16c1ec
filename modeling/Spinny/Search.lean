import Spinny.Library
import Spinny.Lib.Pages
import Spinny.Sqlite.Like

/-!
# The search for songs

`Song::num_matching` and `Song::find` put the query text between two `%` of a pattern.

* `Song.Finds`: what a search is to show: the number of the songs whose title contains the query,
  and these songs page by page in the order of their titles.
* `Song.finds_iff`: it does where pattern and text agree on the titles in the table.
* `Song.find_iff`: for which queries it does for every table.
-/

namespace Spinny

open Bytes Sqlite Proc Pages

variable [Affinity]

namespace Song

omit [Affinity] in
/-- The title contains the query; the case of letters does not count. -/
def contains (query title : Bytes) : Bool := decide (lower query <:+: lower title)

/-- The songs whose title contains the query. -/
def containing (query : Bytes) (db : Database) : List Song :=
  (db.songs.select fun _ s => contains query s.title.val).map fun r => ofRow r.1 r.2

/-- The songs whose title the pattern matches. -/
def matching (query : Bytes) (db : Database) : List Song :=
  (db.songs.select fun _ s => likeAround query s.title.val).map fun r => ofRow r.1 r.2

/-- The page `k`, counted from 0, of `n` songs. -/
def findPage (query : Bytes) (n k : Nat) : Act (List Song) := do
  (← find query (k * n : Nat) n).begin

/-- The search shows the songs whose title contains the query: `num_matching` is their number, and
the pages that an `int` can ask for are, one after the other, these songs by their titles. -/
structure Finds (query : Bytes) (w : World) : Prop where
  counts : Returns (numMatching query) w (containing query w.db).length w
  pages : ∃ l : List Song, l.Perm (containing query w.db) ∧
    l.Pairwise (fun a b => lower a.title ≤ lower b.title) ∧
    ∀ n, 1 ≤ n → n < 2 ^ 31 → ∃ shown : Nat → List Song,
      (∀ k, k * n < 2 ^ 31 → Returns (findPage query n k) w (shown k) w) ∧
      ∀ m, (List.range m).flatMap shown = l.take (m * n)

variable {query : Bytes} {w : World}

/-- `order by lower( title )`. -/
def byTitle (rows : List Song) : List Song :=
  rows.mergeSort fun a b => decide (lower a.title ≤ lower b.title)

omit [Affinity] in
theorem byTitle_perm (rows : List Song) : (byTitle rows).Perm rows := List.mergeSort_perm _ _

omit [Affinity] in
theorem pairwise_byTitle (rows : List Song) :
    (byTitle rows).Pairwise fun a b => lower a.title ≤ lower b.title := by
  have htrans : ∀ x y z : Bytes, x ≤ y → y ≤ z → x ≤ z := fun _ _ _ => List.le_trans
  have h := @List.pairwise_mergeSort Song (fun a b => decide (lower a.title ≤ lower b.title))
    ?_ ?_ rows
  · exact h.imp fun {a b} hab => of_decide_eq_true hab
  · intro a b c hab hbc
    simp only [decide_eq_true_eq] at hab hbc ⊢
    exact htrans _ _ _ hab hbc
  · intro a b
    simpa using List.le_total (lower a.title) (lower b.title)

theorem length_matching_le (query : Bytes) (db : Database) :
    (matching query db).length ≤ db.songs.rows.length := by
  rw [matching, List.length_map]
  exact List.length_filter_le _ _

/-! ## What the two queries come to -/

theorem outcome_numMatching (query : Bytes) (w : World) :
    outcome (numMatching query) w =
      if w.stale = true ∨ nulFree query = false then .error .databaseError
      else if (matching query w.db).length < 2 ^ 32 then .ok (matching query w.db).length
      else .error .badLexicalCast := by
  rw [numMatching, outcome_bind, outcome_execSelect, Table.count]
  by_cases hc : w.stale = true ∨ nulFree query = false
  · simp only [if_pos hc]
  · have hlength : (w.db.songs.select fun _ s => likeAround query s.title.val).length =
        (matching query w.db).length := (List.length_map _).symm
    simp only [if_neg hc, hlength, countUnsigned]
    split <;> rfl

theorem numMatching_returns (hs : w.stale = false) (hq : nulFree query = true)
    (hsmall : (matching query w.db).length < 2 ^ 32) :
    Returns (numMatching query) w (matching query w.db).length w := by
  constructor
  · rw [outcome_numMatching, if_neg (by simp [hs, hq]), if_pos hsmall]
  · have hafter : after (countUnsigned
        (w.db.songs.select fun _ s => likeAround query s.title.val).length) w = w := by
      rw [countUnsigned]
      split <;> rfl
    have hclean : { w with stale := false } = w := by rw [← hs]
    rw [numMatching, after_bind, outcome_execSelect, if_neg (by simp [hs, hq]),
      after_execSelect, hclean]
    exact hafter

theorem findPage_returns (hs : w.stale = false) (hq : nulFree query = true) (n k : Nat) :
    Returns (findPage query n k) w (page n (byTitle (matching query w.db)) k) w := by
  have hfind : Returns (find query (k * n : Nat) n) w
      ⟨fun db => some (limitRows (k * n : Nat) n (byTitle (matching query db)))⟩ w := by
    rw [find, if_pos hq]
    constructor
    · rw [outcome_loadStored]
      simp only [hs, Bool.false_eq_true, if_false]
      rfl
    · rw [after_loadStored, Option.isNone_some, Bool.or_false]
  refine hfind.bind ⟨?_, after_begin _ _⟩
  rw [outcome_begin]
  simp only [limitRows, Int.toNat_natCast, if_neg (Int.natCast_nonneg n).not_gt]
  rfl

/-! ## When a search shows what it should -/

theorem matching_eq_containing
    (h : ∀ r ∈ w.db.songs.rows, likeAround query r.2.title.val = contains query r.2.title.val) :
    matching query w.db = containing query w.db :=
  congrArg (List.map _) (List.filter_congr h)

/-- Where pattern and text agree on the titles, the search shows the songs. -/
theorem finds_of_agree (hs : w.stale = false) (hq : nulFree query = true)
    (hsmall : (matching query w.db).length < 2 ^ 32)
    (h : ∀ r ∈ w.db.songs.rows, likeAround query r.2.title.val = contains query r.2.title.val) :
    Finds query w where
  counts := matching_eq_containing h ▸ numMatching_returns hs hq hsmall
  pages := by
    refine ⟨byTitle (matching query w.db), ?_, pairwise_byTitle _, fun n _ _ => ?_⟩
    · rw [← matching_eq_containing h]
      exact byTitle_perm _
    · exact ⟨fun k => page n (byTitle (matching query w.db)) k,
        fun k _ => findPage_returns hs hq n k, fun m => flatMap_page n _ m⟩

/-- A search that counts has a clean connection and a query without a NUL. -/
theorem Finds.clean (h : Finds query w) : w.stale = false ∧ nulFree query = true ∧
    (matching query w.db).length = (containing query w.db).length := by
  have hout := h.counts.outcome
  rw [outcome_numMatching] at hout
  split at hout
  · cases hout
  · rename_i hno
    rw [not_or, Bool.not_eq_true, Bool.not_eq_false] at hno
    split at hout
    · exact ⟨hno.1, hno.2, Except.ok.inj hout⟩
    · cases hout

/-- Two pages as large as an `int` can ask for show every song of such a table. -/
theorem Finds.perm (h : Finds query w) (hsmall : w.db.songs.rows.length + 1 < 2 ^ 32) :
    (matching query w.db).Perm (containing query w.db) := by
  obtain ⟨hs, hq, hlength⟩ := h.clean
  obtain ⟨l, hl, -, hpages⟩ := h.pages
  obtain ⟨shown, hshown, hflat⟩ := hpages (2 ^ 31 - 1) (by norm_num) (by norm_num)
  have hpage : ∀ k ∈ List.range 2,
      shown k = page (2 ^ 31 - 1) (byTitle (matching query w.db)) k := by
    intro k hk
    have hk2 := List.mem_range.mp hk
    have hret := hshown k (by omega)
    exact Except.ok.inj (hret.outcome.symm.trans (findPage_returns hs hq _ k).outcome)
  have htake := flatMap_page (2 ^ 31 - 1) (byTitle (matching query w.db)) 2
  rw [← List.flatMap_congr hpage, hflat 2] at htake
  have hle := length_matching_le query w.db
  rw [List.take_of_length_le (by rw [hl.length_eq]; omega),
    List.take_of_length_le (by rw [(byTitle_perm _).length_eq]; omega)] at htake
  exact (htake ▸ byTitle_perm (matching query w.db)).symm.trans hl

/-- On a table that its pages can show, a search shows what it should if and only if pattern and
text agree on the titles. -/
theorem finds_iff (hsmall : w.db.songs.rows.length + 1 < 2 ^ 32) :
    Finds query w ↔ w.stale = false ∧ nulFree query = true ∧
      ∀ r ∈ w.db.songs.rows, likeAround query r.2.title.val = contains query r.2.title.val := by
  constructor
  · intro h
    obtain ⟨hs, hq, -⟩ := h.clean
    refine ⟨hs, hq, fun r hr => Bool.eq_iff_iff.mpr ?_⟩
    have hperm := h.perm hsmall
    constructor
    · intro hlike
      have hmem : ofRow r.1 r.2 ∈ matching query w.db :=
        List.mem_map.mpr ⟨r, List.mem_filter.mpr ⟨hr, hlike⟩, rfl⟩
      obtain ⟨r', hr', heq⟩ := List.mem_map.mp (hperm.mem_iff.mp hmem)
      have htitle : r'.2.title.val = r.2.title.val := congrArg Song.title heq
      rw [← htitle]
      exact (List.mem_filter.mp hr').2
    · intro hcontains
      have hmem : ofRow r.1 r.2 ∈ containing query w.db :=
        List.mem_map.mpr ⟨r, List.mem_filter.mpr ⟨hr, hcontains⟩, rfl⟩
      obtain ⟨r', hr', heq⟩ := List.mem_map.mp (hperm.mem_iff.mpr hmem)
      have htitle : r'.2.title.val = r.2.title.val := congrArg Song.title heq
      rw [← htitle]
      exact (List.mem_filter.mp hr').2
  · rintro ⟨hs, hq, h⟩
    refine finds_of_agree hs hq ?_ h
    have := length_matching_le query w.db
    omega

/-- The database with one song of a title. -/
def oneTitle (title : Text) : Database :=
  { Database.empty with songs := .single 1 ⟨1, 1, 1, .empty, title, 0, 0, 0, 0⟩ }

/-- A search shows the songs whose title contains the query, whatever the table, if and only if the
query holds no NUL, no `%` and no `_`, and is one byte or does not begin inside a UTF-8 character;
and for one table, if and only if pattern and text agree on its titles. -/
theorem find_iff (query : Bytes) :
    ((∀ w : World, w.stale = false → w.db.songs.rows.length < 2 ^ 32 → Finds query w) ↔
      nulFree query = true ∧ Searchable query) ∧
    ∀ w : World, w.db.songs.rows.length + 1 < 2 ^ 32 →
      (Finds query w ↔ w.stale = false ∧ nulFree query = true ∧
        ∀ r ∈ w.db.songs.rows,
          likeAround query r.2.title.val = contains query r.2.title.val) := by
  refine ⟨⟨fun h => ?_, ?_⟩, fun w hsmall => finds_iff hsmall⟩
  · have hq : nulFree query = true :=
      (h (.start .empty) rfl (by simp [World.start, Database.empty])).clean.2.1
    refine ⟨hq, ?_⟩
    by_contra hno
    obtain ⟨t, hzero, hunlike⟩ := exists_unlike hno
    have hfree : nulFree (97 :: t) = true := by
      rw [nulFree_iff, List.mem_cons, not_or]
      exact ⟨by decide, hzero (nulFree_iff.mp hq)⟩
    have hfinds := h (.start (oneTitle (.ofLiteral (97 :: t) hfree))) rfl
      (by simp [World.start, oneTitle])
    have hagree := ((finds_iff (by simp [World.start, oneTitle])).mp hfinds).2.2 _
      (List.mem_singleton.mpr rfl)
    have hval : (Text.ofLiteral (97 :: t) hfree).val = 97 :: t := coerce_alpha 97 t rfl
    refine hunlike ?_
    rw [← hval, hagree, contains, decide_eq_true_eq]
  · rintro ⟨hq, hsearch⟩ w hs hsmall
    refine finds_of_agree hs hq ((length_matching_le query w.db).trans_lt hsmall) fun r _ => ?_
    rw [Bool.eq_iff_iff, likeAround_iff hsearch, contains, decide_eq_true_eq]

/-- The database with two songs of these titles. -/
def twoTitles (first second : Text) : Database :=
  { oneTitle first with
    songs := (oneTitle first).songs.insert ⟨1, 1, 1, .empty, second, 0, 0, 0, 0⟩ }

omit [Affinity] in
/-- A search for a word shows the one of two songs that has it. -/
theorem find_love : ∃ _ : Affinity, ∃ db : Database,
    Finds (lit "Love") (.start db) ∧ db.songs.rows.length = 2 ∧
      (containing (lit "Love") db).map title = [lit "All Of Me Loves"] := by
  let _ := integerAffinity
  refine ⟨integerAffinity,
    twoTitles (.ofLiteral (lit "Blue") rfl) (.ofLiteral (lit "All Of Me Loves") rfl), ?_, rfl, ?_⟩
  · exact (find_iff (lit "Love")).1.mpr ⟨rfl, by decide +kernel⟩ _ rfl
      (by simp [World.start, twoTitles, oneTitle])
  · decide +kernel

omit [Affinity] in
/-- A search for `_` counts a song without this character. -/
theorem find_underscore : ∃ _ : Affinity,
    ¬Finds (lit "_") (.start (oneTitle (.ofLiteral (lit "a") rfl))) := by
  let _ := integerAffinity
  refine ⟨integerAffinity, fun h => ?_⟩
  have hlength := h.clean.2.2
  exact absurd hlength (by decide +kernel)

end Song

end Spinny
