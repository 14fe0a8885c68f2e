import RailRoute.Text.Basic

/-!
# Runs of digits

A run of digits is the number that comes of writing the digits one behind the other. For a long run
that takes as many steps on large numbers as there are digits, so the value is put together from
those of the halves of the run, and of their halves, until the parts are short. Main statement:
`digitsValue_eq_appendDigits`, it is the same number.
-/

namespace RailRoute.Source

/-- Whether a character is one of the ten ASCII digits. -/
def isDigit (c : Char) : Bool := '0' ≤ c && c ≤ '9'

/-- The digits a text begins with. -/
def leadingDigits (cs : List Char) : List Char := cs.takeWhile isDigit

/-- What follows the digits a text begins with. -/
def afterDigits (cs : List Char) : List Char := cs.dropWhile isDigit

/-- What a digit stands for. -/
def digitValue (d : Char) : Nat := d.toNat - '0'.toNat

/-- The number that comes of writing digits behind a number. -/
def appendDigits (n : Nat) (ds : List Char) : Nat :=
  ds.foldl (fun n d => 10 * n + digitValue d) n

/-- The value of a run of digits, from the values of its halves as often as the depth allows. -/
def valueByHalves : Nat → List Char → Nat
  | 0, ds => appendDigits 0 ds
  | depth + 1, ds =>
    let back := ds.length / 2
    let front := ds.length - back
    valueByHalves depth (ds.take front) * Nat.pow 10 back + valueByHalves depth (ds.drop front)

/-- The value of a run of digits. Parts of it with fewer than 32 digits are not halved. -/
def digitsValue (ds : List Char) : Nat := valueByHalves (Nat.log2 (ds.length / 16)) ds

/-- Writing digits behind a number moves it by as many places. -/
theorem appendDigits_eq_add (n : Nat) (ds : List Char) :
    appendDigits n ds = n * Nat.pow 10 ds.length + appendDigits 0 ds := by
  induction ds generalizing n with
  | nil => simp [appendDigits]
  | cons d ds ih =>
    have step : ∀ k, appendDigits k (d :: ds) = appendDigits (10 * k + digitValue d) ds :=
      fun _ => rfl
    have power : Nat.pow 10 (ds.length + 1) = Nat.pow 10 ds.length * 10 := rfl
    rw [step, step, ih, ih (10 * 0 + digitValue d), List.length_cons, power]
    grind

/-- A run may be written in two goes. -/
theorem appendDigits_append (n : Nat) (ds es : List Char) :
    appendDigits n (ds ++ es) = appendDigits (appendDigits n ds) es := by
  simp [appendDigits, List.foldl_append]

/-- The depth has no part in the value. -/
theorem valueByHalves_eq_appendDigits (depth : Nat) (ds : List Char) :
    valueByHalves depth ds = appendDigits 0 ds := by
  induction depth generalizing ds with
  | zero => rfl
  | succ depth ih =>
    let front := ds.length - ds.length / 2
    have back : (ds.drop front).length = ds.length / 2 := by
      rw [List.length_drop]
      omega
    calc valueByHalves (depth + 1) ds
        = appendDigits 0 (ds.take front) * Nat.pow 10 (ds.length / 2)
            + appendDigits 0 (ds.drop front) := by rw [valueByHalves, ih, ih]
      _ = appendDigits (appendDigits 0 (ds.take front)) (ds.drop front) := by
          rw [appendDigits_eq_add (appendDigits 0 (ds.take front)), back]
      _ = appendDigits 0 ds := by rw [← appendDigits_append, List.take_append_drop]

/-- The value of a run is the number that comes of writing its digits. -/
theorem digitsValue_eq_appendDigits (ds : List Char) : digitsValue ds = appendDigits 0 ds :=
  valueByHalves_eq_appendDigits _ ds

end RailRoute.Source
