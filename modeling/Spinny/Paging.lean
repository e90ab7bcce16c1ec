import Spinny.Accounts
import Spinny.Lib.Pages

/-!
# The pages of the users

The users handler asks `User::list` for `( page - 1 ) * pageSize` users to pass over and `pageSize`
users to show. The limit is left out where the first number is zero, and both are read as an `int`.

* `User.list_first`, `User.list_later`, `User.list_wrapped`: what the three kinds of pages show.
* `User.list_pages_iff`: a page shows its users exactly where that does no harm.
-/

namespace Spinny

open Bytes Sqlite Proc Pages

variable [Affinity] {w : World} {n p : Nat} {byLastVisit descending : Bool}

namespace User

/-- The page `p`, counted from 1, as the handler asks for it. -/
def listPage (n p : Nat) (byLastVisit descending : Bool) : Act (List User) :=
  list (toInt32 ((p - 1) * n : Nat)) (toInt32 n) byLastVisit descending

/-- All users in the order of the list. -/
def sorted (db : Database) (byLastVisit descending : Bool) : List User :=
  (sortRows byLastVisit descending db.users.rows).map fun r => ofRow r.1 r.2

/-- The page is what stands at its place in the list of all users. -/
def ShowsPage (w : World) (n p : Nat) (byLastVisit descending : Bool) : Prop :=
  Returns (listPage n p byLastVisit descending) w
    (page n (sorted w.db byLastVisit descending) (p - 1)) w

theorem sorted_perm (db : Database) (byLastVisit descending : Bool) :
    (sorted db byLastVisit descending).Perm (db.users.rows.map fun r => ofRow r.1 r.2) :=
  (List.mergeSort_perm _ _).map _

theorem length_sorted (db : Database) (byLastVisit descending : Bool) :
    (sorted db byLastVisit descending).length = db.users.rows.length :=
  (sorted_perm db byLastVisit descending).length_eq.trans (List.length_map _)

theorem nodup_sorted (db : Database) (byLastVisit descending : Bool) :
    (sorted db byLastVisit descending).Nodup := by
  refine (sorted_perm db byLastVisit descending).nodup_iff.mpr (List.Nodup.of_map dbId ?_)
  rw [List.map_map]
  exact db.users.nodup_rowids

theorem sorted_eq_nil {db : Database} :
    sorted db byLastVisit descending = [] ↔ db.users.rows = [] := by
  rw [← List.length_eq_zero_iff, length_sorted, List.length_eq_zero_iff]

/-- A page is right where the connection is clean and the limit takes its users. -/
theorem showsPage_iff :
    ShowsPage w n p byLastVisit descending ↔
      w.stale = false ∧
        (if toInt32 ((p - 1) * n : Nat) = 0 then sorted w.db byLastVisit descending
          else limitRows (toInt32 ((p - 1) * n : Nat)) (toInt32 n)
            (sorted w.db byLastVisit descending)) =
          page n (sorted w.db byLastVisit descending) (p - 1) := by
  have hout := outcome_loadRows true (fun db =>
    if toInt32 ((p - 1) * n : Nat) = 0 then sorted db byLastVisit descending
    else limitRows (toInt32 ((p - 1) * n : Nat)) (toInt32 n)
      (sorted db byLastVisit descending)) w
  have hafter : after (listPage n p byLastVisit descending) w = w := by
    rw [listPage, list, after_loadRows, Bool.not_true, Bool.or_false]
  constructor
  · rintro ⟨hret, -⟩
    cases hs : w.stale with
    | true =>
      rw [hs, if_pos (.inl rfl)] at hout
      cases hout.symm.trans hret
    | false =>
      rw [hs, if_neg (by simp)] at hout
      exact ⟨rfl, Except.ok.inj (hout.symm.trans hret)⟩
  · rintro ⟨hs, hrows⟩
    rw [hs, if_neg (by simp), hrows] at hout
    exact ⟨hout, hafter⟩

/-- The first page shows all users. -/
theorem list_first :
    ShowsPage w n 1 byLastVisit descending ↔ w.stale = false ∧ w.db.users.rows.length ≤ n := by
  have hzero : toInt32 ((1 - 1) * n : Nat) = 0 := by
    rw [Nat.sub_self, Nat.zero_mul]
    rfl
  rw [showsPage_iff, if_pos hzero, Nat.sub_self, eq_comm (b := page _ _ _), page_zero_eq_self,
    length_sorted]

/-- A later page shows its users where an `int` holds the number of those before it. -/
theorem list_later (hn : 1 ≤ n) (hp : 1 < p) (hsmall : (p - 1) * n < 2 ^ 31) :
    ShowsPage w n p byLastVisit descending ↔ w.stale = false := by
  have hle : n ≤ (p - 1) * n := Nat.le_mul_of_pos_left n (by omega)
  have hfirst : toInt32 ((p - 1) * n : Nat) = ((p - 1) * n : Nat) :=
    toInt32_of_small (by omega) (by omega)
  have hcount : toInt32 n = n := toInt32_of_small (by omega) (by omega)
  rw [showsPage_iff, hfirst, hcount, if_neg (by omega), limitRows, if_neg (by omega),
    Int.toNat_natCast, Int.toNat_natCast]
  exact and_iff_left rfl

/-- Where it does not, the page begins with the first user. -/
theorem list_wrapped (hn : 1 ≤ n) (hbig : 2 ^ 31 ≤ (p - 1) * n) (hover : (p - 1) * n < 2 ^ 32) :
    ShowsPage w n p byLastVisit descending ↔ w.stale = false ∧ w.db.users.rows = [] := by
  have hpos : 0 < p - 1 := Nat.pos_of_mul_pos_right (by omega : 0 < (p - 1) * n)
  have hle : n ≤ (p - 1) * n := Nat.le_mul_of_pos_left n hpos
  have hneg : toInt32 ((p - 1) * n : Nat) < 0 := by
    rw [toInt32]
    omega
  obtain ⟨c, hc, htake⟩ : ∃ c, 0 < c ∧
      limitRows (toInt32 ((p - 1) * n : Nat)) (toInt32 n) (sorted w.db byLastVisit descending) =
        (sorted w.db byLastVisit descending).take c := by
    by_cases hcount : toInt32 n < 0
    · refine ⟨w.db.users.rows.length + 1, Nat.succ_pos _, ?_⟩
      rw [limitRows, if_pos hcount, Int.toNat_of_nonpos hneg.le, List.drop_zero,
        List.take_of_length_le (by rw [length_sorted]; omega)]
    · refine ⟨(toInt32 n).toNat, ?_, ?_⟩
      · rw [toInt32] at hcount ⊢
        omega
      · rw [limitRows, if_neg hcount, Int.toNat_of_nonpos hneg.le, List.drop_zero]
  rw [showsPage_iff, if_neg hneg.ne, htake, and_congr_right_iff]
  intro _
  rw [← @sorted_eq_nil _ byLastVisit descending]
  constructor
  · intro heq
    by_contra hne
    exact take_ne_page (nodup_sorted _ _ _) hne hc hpos hn heq
  · intro hnil
    rw [hnil, List.take_nil, page_nil]

/-- When a page shows its users: the users of the first page are all there are, and the number of
those before a later page is below 2^31. -/
def Fits (db : Database) (n p : Nat) : Prop :=
  db.users.rows = [] ∨ (p = 1 ∧ db.users.rows.length ≤ n) ∨ (1 < p ∧ (p - 1) * n < 2 ^ 31)

/-- A page of the users shows what stands at its place in the sorted list if and only if it is the
first and there are no more users, or a later one before which are less than 2^31. Such pages hold
no more than `n` users, and one after the other they are the list of all users. -/
theorem list_pages_iff (hn : 1 ≤ n) (byLastVisit descending : Bool) :
    (∀ p, 1 ≤ p → (p - 1) * n < 2 ^ 32 →
      (ShowsPage w n p byLastVisit descending ↔ w.stale = false ∧ Fits w.db n p)) ∧
    ∀ m, w.stale = false → (∀ p, 1 ≤ p → p ≤ m → (p - 1) * n < 2 ^ 32 ∧ Fits w.db n p) →
      w.db.users.rows.length ≤ m * n →
      ∃ pages : Nat → List User,
        (∀ k < m, Returns (listPage n (k + 1) byLastVisit descending) w (pages k) w ∧
          (pages k).length ≤ n) ∧
        (List.range m).flatMap pages = sorted w.db byLastVisit descending ∧
        ((List.range m).flatMap pages).Nodup ∧
        ((List.range m).flatMap pages).Perm (w.db.users.rows.map fun r => ofRow r.1 r.2) := by
  have hiff : ∀ p, 1 ≤ p → (p - 1) * n < 2 ^ 32 →
      (ShowsPage w n p byLastVisit descending ↔ w.stale = false ∧ Fits w.db n p) := by
    intro p hp hover
    rcases Nat.eq_or_lt_of_le hp with rfl | hp
    · rw [list_first, Fits]
      refine and_congr_right fun _ => ?_
      constructor
      · exact fun h => .inr (.inl ⟨rfl, h⟩)
      · rintro (h | ⟨-, h⟩ | ⟨h, -⟩)
        · simp [h]
        · exact h
        · exact absurd h (lt_irrefl _)
    · by_cases hsmall : (p - 1) * n < 2 ^ 31
      · rw [list_later hn hp hsmall, and_iff_left]
        exact .inr (.inr ⟨hp, hsmall⟩)
      · rw [list_wrapped hn (not_lt.mp hsmall) hover, Fits]
        refine and_congr_right fun _ => ?_
        constructor
        · exact .inl
        · rintro (h | ⟨rfl, -⟩ | ⟨-, h⟩)
          · exact h
          · exact absurd hp (lt_irrefl _)
          · exact absurd h hsmall
  refine ⟨hiff, fun m hs hfits hall => ?_⟩
  have hflat : ((List.range m).flatMap fun k => page n (sorted w.db byLastVisit descending) k) =
      sorted w.db byLastVisit descending :=
    flatMap_page_all (by rwa [length_sorted])
  refine ⟨fun k => page n (sorted w.db byLastVisit descending) k, fun k hk => ?_, hflat, ?_, ?_⟩
  · obtain ⟨hover, hfit⟩ := hfits (k + 1) (by omega) (by omega)
    exact ⟨(hiff (k + 1) (by omega) hover).mpr ⟨hs, hfit⟩, length_page_le _ _ _⟩
  · rw [hflat]
    exact nodup_sorted _ _ _
  · rw [hflat]
    exact sorted_perm _ _ _

/-- A database with two users. -/
def twoUsers : Database :=
  { Database.empty with
    users :=
      (Table.single 1 ⟨.empty, .empty, .empty, 0, 0⟩).insert ⟨.empty, .empty, .empty, 1, 0⟩ }

omit [Affinity] in
/-- The second of two pages with one user each. -/
theorem list_second_page : ∃ _ : Affinity,
    ShowsPage (.start twoUsers) 1 2 true false := by
  let _ := integerAffinity
  exact ⟨integerAffinity,
    ((list_pages_iff (w := .start twoUsers) (by decide) true false).1 2 (by decide)
      (by decide)).mpr ⟨rfl, .inr (.inr ⟨by decide, by decide⟩)⟩⟩

omit [Affinity] in
/-- With one user a page, the first page shows both. -/
theorem list_first_page_whole : ∃ _ : Affinity, ¬ShowsPage (.start twoUsers) 1 1 true false := by
  let _ := integerAffinity
  refine ⟨integerAffinity, fun h => ?_⟩
  exact absurd (list_first.mp h).2 (by decide)

end User

end Spinny
