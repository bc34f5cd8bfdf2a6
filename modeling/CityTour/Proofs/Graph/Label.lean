import Mathlib
import CityTour.Graph.Label
import CityTour.Proofs.Sequence

/-! The order of labels.  Every label has a place of its own in one linear order, so the same labels
are sorted alike in whatever order they come (`sort_congr`), and sorting fails only where numbers
and texts are mixed. -/

namespace CityTour.Label

open Text

/-- The place of a label in the order: the infinities around the numbers, then the texts. -/
def rank : Label → (ℕ ×ₗ ℚ) ⊕ₗ List ℕ
  | .below => Sum.inlₗ (toLex (0, 0))
  | .number q => Sum.inlₗ (toLex (1, q))
  | .above => Sum.inlₗ (toLex (2, 0))
  | .text s => Sum.inrₗ (s.map Symbol.code)

theorem rank_injective : Function.Injective rank := by
  have hcodes : Function.Injective (List.map Symbol.code) :=
    List.map_injective_iff.mpr fun _ _ => Symbol.code_injective
  intro a b h
  cases a <;> cases b <;> simp_all [rank, hcodes.eq_iff]

theorem symbol_before_iff (s t : List Symbol) :
    Symbol.before s t = true ↔ s.map Symbol.code ≤ t.map Symbol.code := by
  have hlex : List.lex (t.map Symbol.code) (s.map Symbol.code) = true ↔
      t.map Symbol.code < s.map Symbol.code := List.lex_eq_true_iff_lt
  rw [Symbol.before, Bool.not_eq_true', ← Bool.not_eq_true, hlex, not_lt]

theorem before_iff (a b : Label) : before a b = true ↔ rank a ≤ rank b := by
  cases a <;> cases b <;> simp [before, rank, symbol_before_iff, Prod.Lex.toLex_le_toLex]

theorem before_trans (a b c : Label) :
    before a b = true → before b c = true → before a c = true := by
  simpa only [before_iff] using le_trans

theorem before_total (a b : Label) : (before a b || before b a) = true := by
  simpa only [Bool.or_eq_true, before_iff] using le_total (rank a) (rank b)

theorem before_antisymm {a b : Label} (hab : before a b = true) (hba : before b a = true) :
    a = b := by
  rw [before_iff] at hab hba
  exact rank_injective (le_antisymm hab hba)

/-! ### Sorting -/

/-- Labels that have an order in common: all of them are texts, or none is. -/
def Comparable (labels : List Label) : Prop :=
  (∀ l ∈ labels, l.isText = true) ∨ ∀ l ∈ labels, l.isText = false

variable {labels others : List Label}

theorem sort_eq (h : Comparable labels) : sort labels = .ok (labels.mergeSort before) := by
  have hmixed : (labels.any isText && labels.any fun l => !l.isText) = false := by
    rcases h with h | h
    · simp +contextual [h]
    · simp +contextual [h]
  rw [sort, hmixed]
  rfl

theorem sort_of_pairwise (h : Comparable labels)
    (hsorted : labels.Pairwise fun a b => before a b = true) : sort labels = .ok labels := by
  rw [sort_eq h, List.mergeSort_of_pairwise hsorted]

theorem sorted_mergeSort (labels : List Label) :
    (labels.mergeSort before).Pairwise fun a b => before a b = true :=
  List.pairwise_mergeSort before_trans before_total labels

/-- What is sorted are the labels in order. -/
theorem sorted_of_sort {order : List Label} (h : sort labels = .ok order) :
    order.Perm labels ∧ order.Pairwise fun a b => before a b = true := by
  rw [sort] at h
  split_ifs at h
  cases h
  exact ⟨labels.mergeSort_perm before, sorted_mergeSort labels⟩

theorem sort_congr (h : labels.Perm others) : sort labels = sort others := by
  have hsorted : labels.mergeSort before = others.mergeSort before :=
    mergeSort_eq_of_perm before_trans before_total (fun _ _ _ _ => before_antisymm)
      (sorted_mergeSort others) (h.trans (others.mergeSort_perm before).symm)
  rw [sort, sort, hsorted, h.any_eq, h.any_eq]

end CityTour.Label
