import Spinny.Lib.Bytes

/-!
# Readers of texts, byte by byte

A `Reader` turns a text into tokens: each byte completes some tokens and leaves the reading in a
mode, and the end of the text completes the last ones.

* `scan`, `tokensFrom`: the tokens of a part and of the rest of a text.
* `scan_append`, `tokensFrom_append`: how a text is read piece by piece.
-/

/-- A reader of tokens `τ` with modes `μ`. -/
structure Reader (τ μ : Type) where
  /-- One byte: the tokens that it completes, and how the reading goes on. -/
  step : μ → UInt8 → Option (List τ × μ)
  /-- The tokens that the end of the text completes. -/
  finish : μ → Option (List τ)

namespace Reader

variable {τ μ : Type} {R : Reader τ μ}

/-- The tokens that a text completes, and how the reading stands behind it. -/
def scan (R : Reader τ μ) (m : μ) : Bytes → Option (List τ × μ)
  | [] => some ([], m)
  | b :: s => (R.step m b).bind fun r => (R.scan r.2 s).map fun r' => (r.1 ++ r'.1, r'.2)

/-- The tokens of what is left of a text. -/
def tokensFrom (R : Reader τ μ) (m : μ) (s : Bytes) : Option (List τ) :=
  (R.scan m s).bind fun r => (R.finish r.2).map (r.1 ++ ·)

@[simp] theorem scan_nil (m : μ) : R.scan m [] = some ([], m) := rfl

theorem scan_cons (m : μ) (b : UInt8) (s : Bytes) :
    R.scan m (b :: s) =
      (R.step m b).bind fun r => (R.scan r.2 s).map fun r' => (r.1 ++ r'.1, r'.2) := rfl

/-- A step that completes no token. -/
theorem scan_cons_of_step {m m' : μ} {b : UInt8} (h : R.step m b = some ([], m')) (s : Bytes) :
    R.scan m (b :: s) = R.scan m' s := by
  rw [scan_cons, h, Option.bind_some]
  cases R.scan m' s <;> rfl

theorem scan_append {m : μ} {s t : Bytes} :
    R.scan m (s ++ t) =
      (R.scan m s).bind fun r => (R.scan r.2 t).map fun r' => (r.1 ++ r'.1, r'.2) := by
  induction s generalizing m with
  | nil =>
    rw [List.nil_append, scan_nil, Option.bind_some]
    cases R.scan m t <;> rfl
  | cons b s ih =>
    rw [List.cons_append, scan_cons, scan_cons]
    cases R.step m b with
    | none => rfl
    | some r =>
      simp only [Option.bind_some, ih]
      cases R.scan r.2 s with
      | none => rfl
      | some r' =>
        simp only [Option.bind_some, Option.map_some]
        cases R.scan r'.2 t <;> simp

/-- A text that is read up to the end of a token. -/
theorem tokensFrom_append {m m' : μ} {s : Bytes} {ts : List τ}
    (h : R.scan m s = some (ts, m')) (t : Bytes) :
    R.tokensFrom m (s ++ t) = (R.tokensFrom m' t).map (ts ++ ·) := by
  unfold tokensFrom
  rw [scan_append, h, Option.bind_some]
  cases R.scan m' t with
  | none => rfl
  | some r =>
    simp only [Option.bind_some, Option.map_some]
    cases R.finish r.2 <;> simp

/-- Where the tokens of a text begin with some that are known. -/
theorem map_append_eq_some {ts us : List τ} {o : Option (List τ)} :
    o.map (ts ++ ·) = some (ts ++ us) ↔ o = some us := by
  cases o <;> simp

end Reader
