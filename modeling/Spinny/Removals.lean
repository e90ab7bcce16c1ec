import Spinny.Inserts

/-!
# Songs taken out of a playlist

`PlayList::remove` moves the entries behind one entry of the song down by one and deletes every
entry of the song.

* `Consecutive`, `consecutive_iff`: the numbers from a start on, each once.
* `Removes`: what taking a song out leaves.
* `remove_iff`: when `remove` does this; a second entry of the song in front of another song leaves
  a gap.
-/

namespace Spinny

open Bytes Sqlite Proc

/-! ## Consecutive numbers -/

/-- The numbers from `start` on, each once, in any order. -/
def Consecutive (start : Int) (l : List Int) : Prop :=
  l.Perm ((List.range l.length).map fun i : Nat => start + i)

theorem countP_range_lt (n q : Nat) (h : q ≤ n) : (List.range n).countP (fun i => decide (i < q)) = q := by
  induction n generalizing q with
  | zero =>
    obtain rfl := Nat.le_zero.mp h
    rfl
  | succ n ih =>
    rw [List.range_succ, List.countP_append, List.countP_singleton]
    by_cases hq : q ≤ n
    · rw [ih q hq, if_neg (by simpa using hq), Nat.add_zero]
    · obtain rfl : q = n + 1 := by omega
      have hall : (List.range n).countP (fun i => decide (i < n + 1)) = n := by
        rw [List.countP_eq_length.mpr fun i hi => by simpa using Nat.lt_succ_of_lt (List.mem_range.mp hi),
          List.length_range]
      rw [hall, if_pos (by simp)]

/-- Numbers are consecutive from `start` on if each is as far behind it as there are smaller
ones. -/
theorem consecutive_iff {start : Int} {l : List Int} :
    Consecutive start l ↔ l.Nodup ∧ ∀ q ∈ l, q = start + (l.countP fun p => decide (p < q) : Nat) := by
  have hnodup : ((List.range l.length).map fun i : Nat => start + i).Nodup :=
    List.nodup_range.map fun a b h => by simpa using h
  constructor
  · intro h
    refine ⟨h.nodup_iff.mpr hnodup, fun q hq => ?_⟩
    obtain ⟨i, hi, rfl⟩ := List.mem_map.mp (h.mem_iff.mp hq)
    rw [h.countP_eq, List.countP_map]
    have heq : ((fun p => decide (p < start + (i : Int))) ∘ fun i : Nat => start + (i : Int)) =
        fun j => decide (j < i) := by
      funext j
      simp
    rw [heq, countP_range_lt _ _ (List.mem_range.mp hi).le]
  · rintro ⟨hl, hrank⟩
    refine (List.subperm_of_subset hl fun q hq => ?_).perm_of_length_le (by simp)
    refine List.mem_map.mpr ⟨_, ?_, (hrank q hq).symm⟩
    rw [List.mem_range]
    refine lt_of_le_of_ne List.countP_le_length fun hlen => ?_
    have := List.countP_eq_length.mp hlen q hq
    simp at this

/-! ## The entries -/

/-- The `present_order` of the entries of a playlist. -/
def positions (id : Int) (t : Table EntryRow) : List Int :=
  (t.select fun _ e => e.playlistId == id).map fun r => r.2.presentOrder

/-- The entries of a song in a playlist, by rowid. -/
def occurrences (id songId : Int) (t : Table EntryRow) : List (Int × EntryRow) :=
  t.select fun _ e => e.playlistId == id && e.songId == songId

/-- The song is taken out of the playlist, whose entries are at the positions from `start` on. -/
structure Removes (id songId start : Int) (t t' : Table EntryRow) : Prop where
  /-- The entries of the song are gone, and the others are there but for their positions. -/
  rows : t'.rows.map (fun r => (r.1, r.2.songId, r.2.playlistId)) =
    (t.rows.filter fun r => !(r.2.playlistId == id && r.2.songId == songId)).map fun r =>
      (r.1, r.2.songId, r.2.playlistId)
  /-- The other entries of the playlist stay in their order. -/
  order : ∀ r ∈ t.rows, ∀ s ∈ t.rows, ∀ r' ∈ t'.rows, ∀ s' ∈ t'.rows, r'.1 = r.1 → s'.1 = s.1 →
    r.2.playlistId = id → s.2.playlistId = id →
    (r'.2.presentOrder < s'.2.presentOrder ↔ r.2.presentOrder < s.2.presentOrder)
  consecutive : Consecutive start (positions id t')
  /-- The other playlists keep their entries. -/
  others : t'.select (fun _ e => e.playlistId != id) = t.select fun _ e => e.playlistId != id

/-- No entry of the song but the one with the lowest rowid stands in front of another song. -/
def OthersFirst (id songId : Int) (t : Table EntryRow) : Prop :=
  ∀ o ∈ (occurrences id songId t).tail, ∀ r ∈ t.rows, r.2.playlistId = id → r.2.songId ≠ songId →
    r.2.presentOrder ≤ o.2.presentOrder

/-- The entries after both statements of `remove`. -/
def removed (id songId : Int) (t : Table EntryRow) : Table EntryRow :=
  (PlayList.closedGap id songId t).deleteWhere fun _ e => e.playlistId == id && e.songId == songId

section

variable {id songId start : Int} {t : Table EntryRow}

/-- Consecutive entries are at different places. -/
theorem Consecutive.distinct (h : Consecutive start (positions id t)) : Distinct id t := by
  intro r hr s hs hrid hsid heq
  refine List.inj_on_of_nodup_map (consecutive_iff.mp h).1 ?_ ?_ heq
  · exact Table.mem_select.mpr ⟨hr, by simpa using hrid⟩
  · exact Table.mem_select.mpr ⟨hs, by simpa using hsid⟩

theorem rows_removed {f : Int × EntryRow} (hf : (occurrences id songId t).head? = some f) :
    (removed id songId t).rows =
      (t.rows.filter fun r => !(r.2.playlistId == id && r.2.songId == songId)).map fun r =>
        (r.1, raise id f.2.presentOrder (-1) r.2) := by
  have hgap : PlayList.closedGap id songId t = PlayList.shifted id f.2.presentOrder (-1) t := by
    unfold occurrences at hf
    rw [PlayList.closedGap, hf]
  rw [removed, hgap, Table.deleteWhere]
  dsimp only
  rw [rows_shifted, List.filter_map]
  congr 1
  refine List.filter_congr fun r _ => ?_
  simp

/-- Without the song nothing is done. -/
theorem removed_eq_self (h : occurrences id songId t = []) : removed id songId t = t := by
  have hgap : PlayList.closedGap id songId t = t := by
    unfold occurrences at h
    rw [PlayList.closedGap, h]
    rfl
  rw [removed, hgap]
  refine Table.deleteWhere_eq_self fun r hr => ?_
  by_contra hne
  have : r ∈ occurrences id songId t := Table.mem_select.mpr ⟨hr, by simpa using hne⟩
  rw [h] at this
  cases this

/-- The entries of the other songs in a playlist. -/
def otherEntries (id songId : Int) (t : Table EntryRow) : List (Int × EntryRow) :=
  t.select fun _ e => e.playlistId == id && !(e.songId == songId)

theorem mem_otherEntries {r : Int × EntryRow} : r ∈ otherEntries id songId t ↔
    r ∈ t.rows ∧ r.2.playlistId = id ∧ r.2.songId ≠ songId := by
  simp [otherEntries, Table.mem_select]

theorem mem_occurrences {r : Int × EntryRow} : r ∈ occurrences id songId t ↔
    r ∈ t.rows ∧ r.2.playlistId = id ∧ r.2.songId = songId := by
  simp [occurrences, Table.mem_select]

/-- An entry is as far behind the start as there are entries in front of it. -/
theorem rank_eq (h : Consecutive start (positions id t)) {r : Int × EntryRow} (hr : r ∈ t.rows)
    (hid : r.2.playlistId = id) (songId : Int) :
    r.2.presentOrder = start +
      ((otherEntries id songId t).countP fun s =>
        decide (s.2.presentOrder < r.2.presentOrder) : Nat) +
      ((occurrences id songId t).countP fun o =>
        decide (o.2.presentOrder < r.2.presentOrder) : Nat) := by
  have hmem : r.2.presentOrder ∈ positions id t :=
    List.mem_map.mpr ⟨r, Table.mem_select.mpr ⟨hr, by simpa using hid⟩, rfl⟩
  have hrank := (consecutive_iff.mp h).2 _ hmem
  have hsplit := List.countP_eq_countP_filter_add (t.select fun _ e => e.playlistId == id)
    (fun s => decide (s.2.presentOrder < r.2.presentOrder)) fun s => !(s.2.songId == songId)
  have hothers : (t.select fun _ e => e.playlistId == id).filter
      (fun s => !(s.2.songId == songId)) = otherEntries id songId t := by
    rw [Table.select, List.filter_filter]
    exact List.filter_congr fun s _ => Bool.and_comm _ _
  have hsong : (t.select fun _ e => e.playlistId == id).filter
      (fun s => !!(s.2.songId == songId)) = occurrences id songId t := by
    rw [Table.select, List.filter_filter]
    refine List.filter_congr fun s _ => ?_
    rw [Bool.not_not]
    exact Bool.and_comm _ _
  rw [hothers, hsong] at hsplit
  rw [positions, List.countP_map] at hrank
  have hcomp : ((fun p => decide (p < r.2.presentOrder)) ∘ fun s : Int × EntryRow =>
      s.2.presentOrder) = fun s => decide (s.2.presentOrder < r.2.presentOrder) := rfl
  rw [hcomp, hsplit] at hrank
  push_cast at hrank
  omega

/-- Two entries that are not at the gap stay in their order when it is closed. -/
theorem lower_lt_iff {a b : EntryRow} {gap : Int} (ha : a.playlistId = id)
    (hb : b.playlistId = id) (hgap : b.presentOrder ≠ gap) :
    ((raise id gap (-1) a).presentOrder < (raise id gap (-1) b).presentOrder ↔
      a.presentOrder < b.presentOrder) := by
  rw [raise_presentOrder _ _ _ _ ha, raise_presentOrder _ _ _ _ hb]
  split <;> split <;> omega

/-- The positions that are left. -/
theorem positions_removed {f : Int × EntryRow} (hf : (occurrences id songId t).head? = some f) :
    positions id (removed id songId t) =
      (otherEntries id songId t).map fun r => (raise id f.2.presentOrder (-1) r.2).presentOrder := by
  rw [positions, Table.select, rows_removed hf, List.filter_map, List.map_map, List.filter_filter]
  have hfilter : (t.rows.filter fun r =>
      (((fun r : Int × EntryRow => r.2.playlistId == id) ∘ fun r : Int × EntryRow =>
        (r.1, raise id f.2.presentOrder (-1) r.2)) r) &&
          !(r.2.playlistId == id && r.2.songId == songId)) = otherEntries id songId t := by
    refine List.filter_congr fun r _ => ?_
    simp only [Function.comp_apply, raise_playlistId]
    cases r.2.playlistId == id <;> rfl
  rw [hfilter]
  rfl

/-- When no gap is left. -/
theorem consecutive_removed (h : Consecutive start (positions id t)) :
    Consecutive start (positions id (removed id songId t)) ↔ OthersFirst id songId t := by
  cases hocc : occurrences id songId t with
  | nil => simp [removed_eq_self hocc, h, OthersFirst, hocc]
  | cons f rest =>
    have hhead : (occurrences id songId t).head? = some f := by rw [hocc]; rfl
    have hf := mem_occurrences.mp (show f ∈ occurrences id songId t by simp [hocc])
    have hne : ∀ r ∈ otherEntries id songId t, r.2.presentOrder ≠ f.2.presentOrder := by
      intro r hr heq
      obtain ⟨hrt, hrid, hrsong⟩ := mem_otherEntries.mp hr
      exact hrsong (h.distinct r hrt f hf.1 hrid hf.2.1 heq ▸ hf.2.2)
    have hlt : ∀ r ∈ otherEntries id songId t, ∀ s ∈ otherEntries id songId t,
        ((raise id f.2.presentOrder (-1) r.2).presentOrder <
            (raise id f.2.presentOrder (-1) s.2).presentOrder ↔
          r.2.presentOrder < s.2.presentOrder) := fun r hr s hs =>
      lower_lt_iff (mem_otherEntries.mp hr).2.1 (mem_otherEntries.mp hs).2.1 (hne s hs)
    have hnodup : ((otherEntries id songId t).map fun r =>
        (raise id f.2.presentOrder (-1) r.2).presentOrder).Nodup := by
      refine List.Nodup.map_on (fun r hr s hs heq => ?_) ?_
      · obtain ⟨hrt, hrid, -⟩ := mem_otherEntries.mp hr
        obtain ⟨hst, hsid, -⟩ := mem_otherEntries.mp hs
        have hrs := hlt r hr s hs
        have hsr := hlt s hs r hr
        exact h.distinct r hrt s hst hrid hsid (by omega)
      · exact t.nodup_rowids.of_map.filter _
    -- An entry is right if no further entry of the song was in front of it.
    have hrank : ∀ r ∈ otherEntries id songId t,
        ((raise id f.2.presentOrder (-1) r.2).presentOrder = start +
            (((otherEntries id songId t).map fun r =>
              (raise id f.2.presentOrder (-1) r.2).presentOrder).countP fun p =>
                decide (p < (raise id f.2.presentOrder (-1) r.2).presentOrder) : Nat) ↔
          ∀ o ∈ rest, r.2.presentOrder ≤ o.2.presentOrder) := by
      intro r hr
      obtain ⟨hrt, hrid, -⟩ := mem_otherEntries.mp hr
      have heq := rank_eq h hrt hrid songId
      have hothers : ((otherEntries id songId t).map fun r =>
          (raise id f.2.presentOrder (-1) r.2).presentOrder).countP (fun p =>
            decide (p < (raise id f.2.presentOrder (-1) r.2).presentOrder)) =
          (otherEntries id songId t).countP fun s =>
            decide (s.2.presentOrder < r.2.presentOrder) := by
        rw [List.countP_map]
        refine List.countP_congr fun s hs => ?_
        simpa using hlt s hs r hr
      have hrest : (rest.countP fun o => decide (o.2.presentOrder < r.2.presentOrder)) = 0 ↔
          ∀ o ∈ rest, r.2.presentOrder ≤ o.2.presentOrder := by
        simp [List.countP_eq_zero]
      rw [hocc, List.countP_cons] at heq
      rw [← hrest, hothers, raise_presentOrder _ _ _ _ hrid]
      have hrf := hne r hr
      by_cases hle : f.2.presentOrder < r.2.presentOrder
      · rw [if_pos hle.le]
        simp only [hle, decide_true, if_true] at heq
        omega
      · rw [if_neg (by omega)]
        simp only [hle, decide_false, Bool.false_eq_true, if_false] at heq
        omega
    rw [positions_removed hhead, consecutive_iff, and_iff_right hnodup, List.forall_mem_map]
    rw [forall₂_congr hrank, OthersFirst, hocc, List.tail_cons]
    constructor
    · intro hall o ho r hr hrid hrsong
      exact hall r (mem_otherEntries.mpr ⟨hr, hrid, hrsong⟩) o ho
    · intro hall r hr o ho
      obtain ⟨hrt, hrid, hrsong⟩ := mem_otherEntries.mp hr
      exact hall o ho r hrt hrid hrsong

/-- When the song is taken out and nothing else happens. -/
theorem removes_iff (h : Consecutive start (positions id t)) :
    Removes id songId start t (removed id songId t) ↔ OthersFirst id songId t := by
  refine ⟨fun hr => (consecutive_removed h).mp hr.consecutive, fun hfirst => ?_⟩
  have hcons := (consecutive_removed h).mpr hfirst
  cases hocc : occurrences id songId t with
  | nil =>
    have hnone : ∀ r ∈ t.rows, (!(r.2.playlistId == id && r.2.songId == songId)) = true := by
      intro r hr
      by_contra hne
      have : r ∈ occurrences id songId t := Table.mem_select.mpr ⟨hr, by simpa using hne⟩
      rw [hocc] at this
      cases this
    rw [removed_eq_self hocc] at hcons ⊢
    refine ⟨by rw [List.filter_eq_self.mpr hnone], ?_, hcons, rfl⟩
    intro r hr s hs r' hr' s' hs' hrr hss _ _
    rw [List.inj_on_of_nodup_map t.nodup_rowids hr' hr hrr,
      List.inj_on_of_nodup_map t.nodup_rowids hs' hs hss]
  | cons f rest =>
    have hhead : (occurrences id songId t).head? = some f := by rw [hocc]; rfl
    have hf := mem_occurrences.mp (show f ∈ occurrences id songId t by simp [hocc])
    have hrows := rows_removed hhead
    refine ⟨?_, ?_, hcons, ?_⟩
    · rw [hrows, List.map_map]
      refine List.map_congr_left fun r _ => ?_
      simp
    · -- A row that is left comes from the row with its rowid, which is not the song's.
      have hback : ∀ r ∈ t.rows, ∀ r' ∈ (removed id songId t).rows, r'.1 = r.1 →
          r.2.playlistId = id →
            r'.2 = raise id f.2.presentOrder (-1) r.2 ∧ r.2.presentOrder ≠ f.2.presentOrder := by
        intro r hr r' hr' hrr hrid
        rw [hrows, List.mem_map] at hr'
        obtain ⟨a, ha, rfl⟩ := hr'
        obtain ⟨hat, hasong⟩ := List.mem_filter.mp ha
        obtain rfl := List.inj_on_of_nodup_map t.nodup_rowids hat hr hrr
        refine ⟨rfl, fun heq => ?_⟩
        obtain rfl := h.distinct a hat f hf.1 hrid hf.2.1 heq
        simp [hf.2] at hasong
      intro r hr s hs r' hr' s' hs' hrr hss hrid hsid
      obtain ⟨hreq, -⟩ := hback r hr r' hr' hrr hrid
      obtain ⟨hseq, hne⟩ := hback s hs s' hs' hss hsid
      rw [hreq, hseq]
      exact lower_lt_iff hrid hsid hne
    · rw [Table.select, hrows, List.filter_map, Table.select, List.filter_filter]
      have hfilter : (t.rows.filter fun r =>
          (((fun r : Int × EntryRow => r.2.playlistId != id) ∘ fun r : Int × EntryRow =>
            (r.1, raise id f.2.presentOrder (-1) r.2)) r) &&
              !(r.2.playlistId == id && r.2.songId == songId)) =
          t.rows.filter fun r => r.2.playlistId != id := by
        refine List.filter_congr fun r _ => ?_
        simp only [Function.comp_apply, raise_playlistId, bne]
        cases r.2.playlistId == id <;> rfl
      rw [hfilter]
      refine (List.map_congr_left fun r hr => ?_).trans (List.map_id _)
      have hne := (List.mem_filter.mp hr).2
      rw [raise_other _ _ _ _ (by simpa using hne)]
      rfl

end

/-! ## The source -/

variable [Affinity]

/-- What a call of `remove` comes to. -/
theorem remove_returns {p : PlayListFields} {w : World} (hs : w.stale = false) (songId : Int) :
    Returns ((PlayList.stored p).remove songId) w ()
      (w.withEntries (removed p.dbId songId w.db.playlistSongs)) := by
  have hdbId : Returns (PlayList.stored p).dbId w p.dbId w := ⟨rfl, rfl⟩
  exact hdbId.bind ((mapEntries_returns hs _).bind
    (mapEntries_returns (w := w.withEntries (PlayList.closedGap p.dbId songId
      w.db.playlistSongs)) hs fun t =>
        t.deleteWhere fun _ e => e.playlistId == p.dbId && e.songId == songId))

/-- `remove` takes the song out of a playlist whose entries are at consecutive positions if and
only if no entry of the song but the one with the lowest rowid stands in front of another song. -/
theorem remove_iff {p : PlayListFields} {w : World} {songId start : Int} (hs : w.stale = false)
    (h : Consecutive start (positions p.dbId w.db.playlistSongs)) :
    (∃ t, Returns ((PlayList.stored p).remove songId) w () (w.withEntries t) ∧
        Removes p.dbId songId start w.db.playlistSongs t) ↔
      OthersFirst p.dbId songId w.db.playlistSongs := by
  rw [← removes_iff h]
  constructor
  · rintro ⟨t, hret, hrem⟩
    have heq : w.withEntries t = w.withEntries (removed p.dbId songId w.db.playlistSongs) :=
      hret.after.symm.trans (remove_returns hs songId).after
    have ht : t = removed p.dbId songId w.db.playlistSongs :=
      congrArg (fun v : World => v.db.playlistSongs) heq
    rwa [← ht]
  · exact fun hrem => ⟨_, remove_returns hs songId, hrem⟩

/-- The entries of a playlist with the songs `songIds` at the positions from 1 on. -/
def entriesOf (songIds : List Int) : Table EntryRow :=
  inserted 1 1 songIds .empty

omit [Affinity] in
/-- Song 1 in front of songs 2 and 3 leaves them at positions 1 and 2. -/
theorem remove_first : ∃ _ : Affinity,
    let w := World.start { Database.empty with playlistSongs := entriesOf [1, 2, 3] }
    ∃ t, Returns ((PlayList.stored ⟨1, [], [], [], 0⟩).remove 1) w () (w.withEntries t) ∧
      Removes 1 1 1 (entriesOf [1, 2, 3]) t := by
  let _ := integerAffinity
  exact ⟨integerAffinity, (remove_iff (p := ⟨1, [], [], [], 0⟩) (w := .start { Database.empty with
    playlistSongs := entriesOf [1, 2, 3] }) rfl
      (show List.Perm _ _ by decide +kernel)).mpr (by unfold OthersFirst; decide +kernel)⟩

omit [Affinity] in
/-- Song 1 at the positions 1 and 3 leaves songs 2 and 3 at positions 1 and 3. -/
theorem remove_gap : ∃ _ : Affinity,
    let w := World.start { Database.empty with playlistSongs := entriesOf [1, 2, 1, 3] }
    Consecutive 1 (positions 1 w.db.playlistSongs) ∧
      ¬∃ t, Returns ((PlayList.stored ⟨1, [], [], [], 0⟩).remove 1) w () (w.withEntries t) ∧
        Removes 1 1 1 w.db.playlistSongs t := by
  let _ := integerAffinity
  refine ⟨integerAffinity, show List.Perm _ _ by decide +kernel, ?_⟩
  rintro ⟨t, hret, hrem⟩
  have heq := hret.after.symm.trans (remove_returns rfl 1).after
  have ht : t = removed 1 1 (entriesOf [1, 2, 1, 3]) :=
    congrArg (fun v : World => v.db.playlistSongs) heq
  have hcons := hrem.consecutive
  rw [ht] at hcons
  revert hcons
  unfold Consecutive
  decide +kernel

end Spinny
