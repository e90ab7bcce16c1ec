import Spinny.Lib.Sql
import Spinny.PlayList
import Spinny.Sqlite.Statements

/-!
# Quoted values in statements

* `q_tokens`: a value that `q` quotes is one literal of the statement it is streamed into, or an
  unclosed one where the value holds a NUL.
* `loadMany_splits`: the statement of `load_many` around its value is such a statement.
-/

namespace Sqlite

open Bytes Spinny

/-- The texts that `q( s )` and, between quotes, `q( s, false )` are streamed into. -/
def quotedTexts (pre s suf : Bytes) : List Bytes :=
  [pre ++ q s ++ suf, pre ++ [39] ++ quoteOnly s ++ [39] ++ suf]

/-- A quoted value is one literal: no part of it is a token of its own. -/
theorem q_tokens {pre suf : Bytes} (hpre : nulFree pre = true)
    (hout : Sql.endsOutside pre = true) (hsuf : nulFree suf = true) (hquote : suf.head? ≠ some 39)
    (s : Bytes) :
    ∃ ts us, Sql.tokens pre = some ts ∧ Sql.tokens suf = some us ∧
      ∀ text ∈ quotedTexts pre s suf,
        Sql.tokens text = some (ts ++
          if nulFree s = true then .string s :: us else [.illegal (39 :: Sql.seen s)]) := by
  obtain ⟨ts, hts⟩ := Sql.exists_tokens pre
  obtain ⟨us, hus⟩ := Sql.exists_tokens suf
  refine ⟨ts, us, hts, hus, fun text htext => ?_⟩
  have heq : text = pre ++ 39 :: (Sql.doubled s ++ 39 :: suf) := by
    rcases List.mem_pair.mp htext with rfl | rfl
    · simp [q, Sql.doubled]
    · simp [quoteOnly, Sql.doubled]
  rw [heq]
  by_cases hs : nulFree s = true
  · rw [Sql.tokens_string hpre hout hsuf hquote hs, hts, hus, if_pos hs]
    rfl
  · rw [Sql.tokens_unclosed hpre hout (by simpa using hs), hts, if_neg hs]
    rfl

/-- Quotes at both ends of a value, and two together in it. -/
theorem q_tokens_select :
    ∃ ts us, Sql.tokens (lit "select name from artists where name=") = some ts ∧
      Sql.tokens (lit " limit 1") = some us ∧
      ∀ text ∈ quotedTexts (lit "select name from artists where name=") (lit "'a'' or 1=1 --'")
          (lit " limit 1"),
        Sql.tokens text = some (ts ++
          if nulFree (lit "'a'' or 1=1 --'") = true then .string (lit "'a'' or 1=1 --'") :: us
          else [.illegal (39 :: Sql.seen (lit "'a'' or 1=1 --'"))]) :=
  q_tokens (by decide) (by decide +kernel) (by decide) (by decide) _

theorem opens_of_isField {w : Bytes} (h : isField w = true) : ∀ b ∈ w, Sql.opens b = false := by
  have hbyte : ∀ b : UInt8, isIdChar b = true → Sql.opens b = false := by decide +kernel
  have halpha : ∀ b : UInt8, isAlpha b = true → isIdChar b = true := fun b hb =>
    (alpha_cases hb).2.2.2.2.2.2.2.2.1
  cases w with
  | nil => simp
  | cons b w =>
    simp only [isField, isWord, Bool.and_eq_true, List.all_eq_true] at h
    obtain ⟨⟨⟨⟨hb, -⟩, -⟩, hw⟩, -⟩ := h
    exact List.forall_mem_cons.mpr ⟨hbyte b (halpha b hb), fun c hc => hbyte c (hw c hc)⟩

theorem opens_selectText {td : Description} (htd : td.Named) :
    ∀ b ∈ selectText td, Sql.opens b = false := by
  have hfields : ∀ b ∈ td.insertFields, Sql.opens b = false := by
    unfold Description.insertFields
    split
    · simp
    · rename_i f fs hfs
      have hall : ∀ g ∈ f :: fs, ∀ b ∈ g, Sql.opens b = false := fun g hg =>
        opens_of_isField (htd.fields g (hfs ▸ hg))
      intro b hb
      simp only [List.mem_append, List.mem_singleton, List.mem_flatMap] at hb
      rcases hb with (rfl | hb) | ⟨g, hg, rfl | hb⟩
      · rfl
      · exact hall f (by simp) b hb
      · rfl
      · exact hall g (by simp [hg]) b hb
  have hlit : ∀ b ∈ lit "select " ++ lit ",rowid from ", Sql.opens b = false := by decide +kernel
  intro b hb
  simp only [selectText, List.mem_append] at hb
  rcases hb with (hb | hb) | hb | hb
  · exact hlit b (List.mem_append_left _ hb)
  · exact hfields b hb
  · exact hlit b (List.mem_append_right _ hb)
  · exact opens_of_isField htd.tableName b hb

/-- `load_many` streams its value where nothing is open, and no quote behind it. -/
theorem loadMany_splits {td : Description} (htd : td.Named) {field : Bytes}
    (hfield : isField field = true) (value sortBy : Bytes) (limit : Int) :
    ∃ pre suf, loadManyText td field (q value) sortBy limit = pre ++ q value ++ suf ∧
      Sql.endsOutside pre = true ∧ suf.head? ≠ some 39 := by
  have hne : field ≠ [] := by
    rintro rfl
    cases hfield
  refine ⟨selectText td ++ lit " where " ++ field ++ lit "=",
    orderText sortBy ++ if limit ≠ 0 then lit " limit " ++ showInt limit else [], ?_, ?_, ?_⟩
  · simp [loadManyText, hne]
  · refine Sql.endsOutside_plain fun b hb => ?_
    have hlit : ∀ b ∈ lit " where ", Sql.opens b = false := by decide +kernel
    simp only [List.mem_append] at hb
    rcases hb with (hb | hb) | hb
    · exact opens_selectText htd b hb
    · exact hlit b hb
    · exact opens_of_isField hfield b hb
  · unfold orderText
    split
    · simp [lit]
    · split <;> simp [lit]

end Sqlite
