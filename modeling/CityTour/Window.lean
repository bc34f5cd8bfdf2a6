import CityTour.Scalar

/-! Windows of a closed walk.  A window goes from one position to another and pays for the edges
between them; `scan` lists the candidate windows with two pointers that only move forward: the
right one while the budget lasts, the left one while it is overdrawn.  The walk enters through two
functions of the position, the value of the city there and the length of the edge that leaves it,
which may fail. -/

namespace CityTour

/-- The stretch from position `left` to position `right`, with the value of its cities and the
budget that its edges leave. -/
structure Window (α : Type) where
  left : Nat
  right : Nat
  value : α
  saved : α
  deriving BEq, DecidableEq, Repr

namespace Window

variable {α : Type} [Scalar α]

/-- Whether a window replaces another as the best: more value, or the same with more budget left. -/
def beats (w best : Window α) : Bool :=
  decide (best.value < w.value) || (w.value == best.value && decide (best.saved < w.saved))

/-- The best of some windows, the first of equally good ones. -/
def best (first : Window α) (later : List (Window α)) : Window α :=
  later.foldl (fun best w => if w.beats best then w else best) first

/-- What the scan does next: move the right pointer, or the left one. -/
inductive Phase
  | growing
  | shrinking

section Scan

variable {m : Type → Type} [Monad m] (n : Nat) (value length : Nat → m α)

/-- The windows after the one from `l` over `k` edges, of which `total` is the value and `saved`
the budget left.  Growing ends when the budget is overdrawn or the window would close around the
walk; shrinking ends as soon as some budget is left.  The scan ends when the pointers meet on the
cycle, or when the left one has passed every position. -/
def scanFrom (l k : Nat) (hl : l < n) (hk : k < n) (total saved : α) (phase : Phase) :
    m (List (Window α)) :=
  match phase with
  | .growing => do
    let saved := saved - (← length (l + k))
    let total := total + (← value (l + k + 1))
    if h : k + 1 = n then return []
    else if saved < 0 then scanFrom l (k + 1) hl (by omega) total saved .shrinking
    else
      return ⟨l, l + (k + 1), total, saved⟩ ::
        (← scanFrom l (k + 1) hl (by omega) total saved .growing)
  | .shrinking =>
    if hk0 : k = 0 then return []
    else do
      let saved := saved + (← length l)
      let total := total - (← value l)
      if 0 < saved then
        let w : Window α := ⟨l + 1, l + k, total, saved⟩
        if h : l + 1 = n then return [w]
        else return w :: (← scanFrom (l + 1) (k - 1) (by omega) (by omega) total saved .growing)
      else if h : l + 1 = n then return []
      else scanFrom (l + 1) (k - 1) (by omega) (by omega) total saved .shrinking
termination_by 2 * (n - l) + (n - k)

/-- The first window, which is the first city with the whole budget, and those after it. -/
def scan (budget : α) (h : 0 < n) : m (Window α × List (Window α)) := do
  let start ← value 0
  return (⟨0, 0, start, budget⟩, ← scanFrom n value length 0 0 h h start budget .growing)

end Scan

end Window

end CityTour
