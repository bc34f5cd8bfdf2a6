import Mathlib
import CityTour.Document
import CityTour.Number.Written
import CityTour.Proofs.Number.Arithmetic
import CityTour.Proofs.Number.Decimal

/-! Numbers in documents.  A row of digits has the same value with a point, with zeros filled in
and with a power of ten, so what is laid out for a decimal is read as the double nearest to it
(`spells_layDecimal`), and what is written for a double is read as that double
(`readPlain_document`). -/

namespace CityTour.Document

open Text Numeral Written Double

variable {s : Bool} {cs digits whole places rest : List Char} {c : Char}

/-- A text that does not go on with digits. -/
def EndsDigits (rest : List Char) : Prop := ∀ c ∈ rest.head?, isPlainDigit c = false

/-- A text that does not go on with a number. -/
def Ends (rest : List Char) : Prop :=
  ∀ c ∈ rest.head?, isPlainDigit c = false ∧ c ≠ '.' ∧ c ≠ 'e' ∧ c ≠ 'E'

theorem Ends.endsDigits (h : Ends rest) : EndsDigits rest := fun c hc => (h c hc).1

theorem endsDigits_cons (h : isPlainDigit c = false) : EndsDigits (c :: rest) := by
  rintro d hd
  cases hd
  exact h

/-! ### Rows of digits -/

/-- A row of digits. -/
def IsDigits (cs : List Char) : Prop := ∀ c ∈ cs, isPlainDigit c = true

theorem IsDigits.append (h : IsDigits cs) (h' : IsDigits places) : IsDigits (cs ++ places) :=
  List.forall_mem_append.mpr ⟨h, h'⟩

theorem isDigits_zeros (k : ℕ) : IsDigits (List.replicate k '0') := by
  intro c hc
  rw [List.eq_of_mem_replicate hc]
  decide

theorem isDigits_toDigits (n : ℕ) : IsDigits (Nat.toDigits 10 n) := by
  intro c hc
  have hdigit := Nat.isDigit_of_mem_toDigits (by norm_num) le_rfl hc
  simpa [isPlainDigit, Char.isDigit, Char.le_def] using hdigit

/-- There is no line end among digits. -/
theorem IsDigits.unbroken (h : IsDigits cs) : '\r' ∉ cs := fun hmem => by
  cases h _ hmem

theorem takeWhile_digits (h : IsDigits cs) (hrest : EndsDigits rest) :
    (cs ++ rest).takeWhile isPlainDigit = cs := by
  rw [List.takeWhile_append_of_pos h]
  cases rest with
  | nil => simp
  | cons c rest => simp [hrest c rfl]

theorem dropWhile_digits (h : IsDigits cs) (hrest : EndsDigits rest) :
    (cs ++ rest).dropWhile isPlainDigit = rest := by
  rw [List.dropWhile_append_of_pos h]
  cases rest with
  | nil => rfl
  | cons c rest => simp [hrest c rfl]

theorem digitsValue_eq (cs : List Char) : digitsValue cs = Nat.ofDigitChars 10 cs 0 := rfl

theorem digitsValue_append (cs ds : List Char) :
    digitsValue (cs ++ ds) = digitsValue cs * 10 ^ ds.length + digitsValue ds := by
  rw [digitsValue_eq, Nat.ofDigitChars_append, Nat.ofDigitChars_eq_ofDigitChars_zero, Nat.mul_comm]
  rfl

@[simp] theorem digitsValue_zeros (k : ℕ) : digitsValue (List.replicate k '0') = 0 := by
  rw [digitsValue_eq, Nat.ofDigitChars_replicate_zero, Nat.mul_zero]

@[simp] theorem digitsValue_toDigits (n : ℕ) : digitsValue (Nat.toDigits 10 n) = n :=
  Nat.ofDigitChars_ten_toDigits

/-- Zeros before a row of digits do not count. -/
theorem digitsValue_zeros_append (k : ℕ) (cs : List Char) :
    digitsValue (List.replicate k '0' ++ cs) = digitsValue cs := by
  rw [digitsValue_append, digitsValue_zeros, Nat.zero_mul, Nat.zero_add]

/-- Every zero after a row of digits counts ten times. -/
theorem digitsValue_append_zeros (cs : List Char) (k : ℕ) :
    digitsValue (cs ++ List.replicate k '0') = digitsValue cs * 10 ^ k := by
  rw [digitsValue_append, digitsValue_zeros, Nat.add_zero, List.length_replicate]

theorem head?_toDigits {n : ℕ} (hn : 0 < n) : (Nat.toDigits 10 n).head? ≠ some '0' := by
  induction n using Nat.strongRecOn with
  | ind n ih =>
    rw [Nat.toDigits_eq_if (by norm_num)]
    split
    · simp [hn.ne']
    · rw [List.head?_append_of_ne_nil _ Nat.toDigits_ne_nil]
      exact ih (n / 10) (by omega) (by omega)

/-- A row of digits is what is left without the zeros at its end, and those zeros. -/
theorem exists_trimZeros (digits : List Char) :
    ∃ k, digits = trimZeros digits ++ List.replicate k '0' := by
  have hzeros : ∀ c ∈ digits.reverse.takeWhile (· = '0'), c = '0' := fun c hc => by
    simpa using List.mem_takeWhile_imp hc
  refine ⟨(digits.reverse.takeWhile (· = '0')).length, ?_⟩
  have hsplit := congrArg List.reverse
    (List.takeWhile_append_dropWhile (p := fun c => decide (c = '0')) (l := digits.reverse))
  rw [List.reverse_append, List.reverse_reverse] at hsplit
  rw [← List.reverse_replicate, ← List.eq_replicate_of_mem hzeros, trimZeros, hsplit]

/-! ### Parts of numbers -/

/-- What may stand before the point: a zero alone, or digits that start with another one. -/
def IsWhole (cs : List Char) : Prop :=
  cs = ['0'] ∨ IsDigits cs ∧ cs ≠ [] ∧ cs.head? ≠ some '0'

theorem readWhole_append (h : IsWhole whole) (hrest : EndsDigits rest) :
    readWhole (whole ++ rest) = some (whole, rest) := by
  rcases h with rfl | ⟨hdigits, hne, hhead⟩
  · rfl
  · obtain ⟨c, tail, rfl⟩ := List.exists_cons_of_ne_nil hne
    have hc : c ≠ '0' := fun h => hhead (congrArg some h)
    obtain ⟨hdigit, htail⟩ := List.forall_mem_cons.mp hdigits
    rw [List.cons_append, readWhole, if_pos hdigit, takeWhile_digits htail hrest,
      dropWhile_digits htail hrest]
    exact hc

theorem readPlaces_append (h : IsDigits places) (hne : places ≠ []) (hrest : EndsDigits rest) :
    readPlaces ('.' :: (places ++ rest)) = (places, rest) := by
  obtain ⟨c, tail, rfl⟩ := List.exists_cons_of_ne_nil hne
  obtain ⟨hdigit, htail⟩ := List.forall_mem_cons.mp h
  rw [List.cons_append, readPlaces, if_pos hdigit, takeWhile_digits htail hrest,
    dropWhile_digits htail hrest]

theorem readPlaces_of_head (h : rest.head? ≠ some '.') : readPlaces rest = ([], rest) := by
  unfold readPlaces
  split
  · simp at h
  · rfl

theorem readPower_of_ends (h : Ends rest) : readPower rest = none := by
  cases rest with
  | nil => rfl
  | cons c rest =>
    obtain ⟨-, -, hlower, hupper⟩ := h c rfl
    rw [readPower, if_neg]
    rintro (rfl | rfl)
    · exact hlower rfl
    · exact hupper rfl

/-- The digits of an exponent, filled up to two. -/
theorem exists_exponentText (e : ℤ) : ∃ digits, IsDigits digits ∧ digits ≠ [] ∧
    digitsValue digits = e.natAbs ∧ exponentText e = (if e < 0 then '-' else '+') :: digits := by
  refine ⟨_, ?_, ?_, ?_, rfl⟩
  · split
    · exact (isDigits_zeros 1).append (isDigits_toDigits _)
    · exact isDigits_toDigits _
  · split
    · exact List.cons_ne_nil _ _
    · exact Nat.toDigits_ne_nil
  · split
    · exact (digitsValue_zeros_append 1 _).trans (digitsValue_toDigits _)
    · exact digitsValue_toDigits _

theorem IsWhole.unbroken (h : IsWhole whole) : '\r' ∉ whole := by
  rcases h with rfl | ⟨hdigits, -, -⟩
  · decide
  · exact hdigits.unbroken

theorem unbroken_exponentText (e : ℤ) : '\r' ∉ exponentText e := by
  obtain ⟨digits, hdigits, -, -, htext⟩ := exists_exponentText e
  rw [htext, List.mem_cons, not_or]
  refine ⟨?_, hdigits.unbroken⟩
  split <;> decide

theorem readPower_exponentText (e : ℤ) (hrest : EndsDigits rest) :
    readPower ('e' :: (exponentText e ++ rest)) = some (e, rest) := by
  obtain ⟨digits, hdigits, hne, hvalue, htext⟩ := exists_exponentText e
  have hsign : splitSign (exponentText e ++ rest) = (decide (e < 0), digits ++ rest) := by
    rw [htext]
    by_cases he : e < 0
    · simp [he, splitSign]
    · simp [he, splitSign]
  rw [readPower, if_pos (.inl rfl), hsign, readPowerDigits, takeWhile_digits hdigits hrest,
    dropWhile_digits hdigits hrest, if_neg (by simpa using hne), hvalue]
  by_cases he : e < 0
  · simp only [he, decide_true, if_true, Option.some.injEq, Prod.mk.injEq, and_true]
    omega
  · simp only [he, decide_false, Bool.false_eq_true, if_false, Option.some.injEq, Prod.mk.injEq,
      and_true]
    omega

/-! ### Numbers without a sign -/

/-- A text on one line that is read as the double nearest to a number, whatever sign stands before
it. -/
structure Spells (cs : List Char) (q : ℚ) : Prop where
  reads : ∀ (s : Bool) (rest : List Char), Ends rest →
    readMagnitude s (cs ++ rest) = .ok (.real (ofMagnitude s (bitsOf q)), rest)
  unbroken : '\r' ∉ cs

theorem spells_places (hwhole : IsWhole whole) (hplaces : IsDigits places) (hne : places ≠ []) :
    Spells (whole ++ '.' :: places)
      (digitsValue (whole ++ places) * 10 ^ (-places.length : ℤ)) := by
  refine ⟨fun s rest hrest => ?_, by simp [hwhole.unbroken, hplaces.unbroken]⟩
  rw [List.append_assoc, List.cons_append, readMagnitude,
    readWhole_append hwhole (endsDigits_cons rfl)]
  simp only [readPlaces_append hplaces hne hrest.endsDigits,
    readPower_of_ends hrest, List.isEmpty_eq_false_iff.mpr hne, Bool.false_eq_true, if_false,
    Decimal.toDouble_eq]
  rfl

theorem spells_power (hwhole : IsWhole whole) (e : ℤ) :
    Spells (whole ++ 'e' :: exponentText e) (digitsValue whole * 10 ^ e) := by
  refine ⟨fun s rest hrest => ?_, by simp [hwhole.unbroken, unbroken_exponentText]⟩
  have hplaces : readPlaces ('e' :: (exponentText e ++ rest)) =
      ([], 'e' :: (exponentText e ++ rest)) := readPlaces_of_head (by simp)
  rw [List.append_assoc, List.cons_append, readMagnitude,
    readWhole_append hwhole (endsDigits_cons rfl)]
  simp only [hplaces, readPower_exponentText e hrest.endsDigits, Decimal.toDouble_eq,
    Decimal.value]
  simp

theorem spells_places_power (hwhole : IsWhole whole) (hplaces : IsDigits places)
    (hne : places ≠ []) (e : ℤ) : Spells (whole ++ '.' :: (places ++ 'e' :: exponentText e))
      (digitsValue (whole ++ places) * 10 ^ (e - places.length)) := by
  refine ⟨fun s rest hrest => ?_, by
    simp [hwhole.unbroken, hplaces.unbroken, unbroken_exponentText]⟩
  rw [List.append_assoc, List.cons_append, readMagnitude,
    readWhole_append hwhole (endsDigits_cons rfl)]
  simp only [List.cons_append, List.append_assoc,
    readPlaces_append hplaces hne (endsDigits_cons (c := 'e') rfl),
    readPower_exponentText e hrest.endsDigits, Decimal.toDouble_eq]
  rfl

/-- A number starts with a digit. -/
theorem Spells.head {q : ℚ} (h : Spells cs q) :
    ∃ c tail, cs = c :: tail ∧ isPlainDigit c = true := by
  have hread := h.reads false [] nofun
  rw [List.append_nil, readMagnitude] at hread
  match cs with
  | [] => cases hread
  | c :: tail =>
    refine ⟨c, tail, rfl, ?_⟩
    by_contra hdigit
    have hc : c ≠ '0' := by
      rintro rfl
      exact hdigit rfl
    rw [readWhole, if_neg hdigit] at hread
    · cases hread
    · exact hc

/-! ### Laid-out decimals -/

/-- The styles that end a whole number with a point and a zero. -/
def Pointed (style : Style) : Prop := style.wholeMark.toList = ['.', '0']

theorem pointed_documentStyle : Pointed documentStyle := by
  unfold Pointed
  decide +kernel

variable {style : Style} {top : ℤ}

theorem mul_pow_mul_zpow (v k : ℕ) (e : ℤ) :
    ((v * 10 ^ k : ℕ) : ℚ) * 10 ^ e = v * 10 ^ (k + e) := by
  rw [zpow_add₀ (by norm_num), zpow_natCast, ← mul_assoc]
  push_cast
  rfl

section Digits

variable (hdigits : IsDigits digits) (hne : digits ≠ []) (hhead : digits.head? ≠ some '0')

include hdigits hne

/-- Below one, zeros fill up the places before the first digit. -/
theorem spells_fraction (htop : top < 0) :
    Spells ('0' :: '.' :: (List.replicate (-top - 1).toNat '0' ++ digits))
      (digitsValue digits * 10 ^ (top + 1 - digits.length)) := by
  have hspells := spells_places (.inl rfl) ((isDigits_zeros (-top - 1).toNat).append hdigits)
    (by simp [hne])
  have hplaces : (-((List.replicate (-top - 1).toNat '0' ++ digits).length : ℤ)) =
      top + 1 - digits.length := by
    rw [List.length_append, List.length_replicate]
    omega
  rwa [hplaces, ← List.append_assoc, show ['0'] = List.replicate 1 '0' from rfl,
    ← List.replicate_add, digitsValue_zeros_append] at hspells

include hhead

/-- If all digits stand before the point, zeros fill up the places up to it. -/
theorem spells_padded (htop : 0 ≤ top) (hlen : digits.length ≤ top.toNat + 1) :
    Spells (digits ++ List.replicate (top.toNat + 1 - digits.length) '0' ++ ['.', '0'])
      (digitsValue digits * 10 ^ (top + 1 - digits.length)) := by
  have hwhole : IsWhole (digits ++ List.replicate (top.toNat + 1 - digits.length) '0') :=
    .inr ⟨hdigits.append (isDigits_zeros _), by simp [hne],
      by rwa [List.head?_append_of_ne_nil _ hne]⟩
  have hspells := spells_places hwhole (isDigits_zeros 1) (by simp)
  rw [List.append_assoc _ _ (List.replicate 1 '0'), ← List.replicate_add,
    digitsValue_append_zeros, mul_pow_mul_zpow, List.length_replicate] at hspells
  have hplaces : ((top.toNat + 1 - digits.length + 1 : ℕ) : ℤ) + -((1 : ℕ) : ℤ) =
      top + 1 - digits.length := by omega
  rwa [hplaces] at hspells

/-- The point among the digits. -/
theorem spells_split (htop : 0 ≤ top) (hlen : top.toNat + 1 < digits.length) :
    Spells (digits.take (top.toNat + 1) ++ '.' :: digits.drop (top.toNat + 1))
      (digitsValue digits * 10 ^ (top + 1 - digits.length)) := by
  obtain ⟨c, tail, rfl⟩ := List.exists_cons_of_ne_nil hne
  have hwhole : IsWhole ((c :: tail).take (top.toNat + 1)) :=
    .inr ⟨fun d hd => hdigits d (List.mem_of_mem_take hd), by simp, by simpa using hhead⟩
  have hrest : (c :: tail).drop (top.toNat + 1) ≠ [] := by
    rw [Ne, List.drop_eq_nil_iff]
    omega
  have hspells := spells_places hwhole (fun d hd => hdigits d (List.mem_of_mem_drop hd)) hrest
  have hplaces : (-((List.drop (top.toNat + 1) (c :: tail)).length : ℤ)) =
      top + 1 - (c :: tail).length := by
    rw [List.length_drop]
    omega
  rwa [hplaces, List.take_append_drop] at hspells

/-- One digit before the point, and a power of ten. -/
theorem spells_scientific (hout : ¬ (style.least ≤ top ∧ top < style.bound)) :
    Spells (layDigits style digits top) (digitsValue digits * 10 ^ (top + 1 - digits.length)) := by
  unfold layDigits
  rw [if_neg hout]
  cases digits with
  | nil => exact absurd rfl hne
  | cons d tail =>
    have hwhole : IsWhole [d] :=
      .inr ⟨fun c hc => hdigits c (by simp_all), by simp, by simpa using hhead⟩
    cases tail with
    | nil =>
      have hspells := spells_power hwhole top
      rwa [show [d].length = 1 from rfl, Nat.cast_one, add_sub_cancel_right]
    | cons e tail =>
      have hspells := spells_places_power hwhole (List.forall_mem_cons.mp hdigits).2 (by simp) top
      have hplaces : top - ((e :: tail).length : ℤ) = top + 1 - (d :: e :: tail).length := by
        simp only [List.length_cons]
        omega
      rwa [hplaces] at hspells

/-- Digits with the first at a place value are laid out so that they are read with that place
value. -/
theorem spells_layDigits (hstyle : Pointed style) : Spells (layDigits style digits top)
    (digitsValue digits * 10 ^ (top + 1 - digits.length)) := by
  by_cases hin : style.least ≤ top ∧ top < style.bound
  · unfold layDigits
    rw [if_pos hin]
    by_cases htop : top < 0
    · rw [if_pos htop]
      exact spells_fraction hdigits hne htop
    · rw [if_neg htop]
      dsimp only
      by_cases hlen : digits.length ≤ top.toNat + 1
      · rw [if_pos hlen, hstyle]
        exact spells_padded hdigits hne hhead (not_lt.mp htop) hlen
      · rw [if_neg hlen]
        exact spells_split hdigits hne hhead (not_lt.mp htop) (not_le.mp hlen)
  · exact spells_scientific hdigits hne hhead hin

end Digits

theorem spells_layDecimal (hstyle : Pointed style) (d : Decimal) :
    Spells (layDecimal style d) d.value := by
  unfold layDecimal
  split
  · rename_i hzero
    have hspells := spells_places (.inl rfl) (isDigits_zeros 1) (by simp)
    rw [hstyle, Decimal.value, hzero, Nat.cast_zero, zero_mul]
    rwa [show ['0'] ++ List.replicate 1 '0' = List.replicate 2 '0' from rfl, digitsValue_zeros,
      Nat.cast_zero, zero_mul] at hspells
  · rename_i hnonzero
    obtain ⟨k, hk⟩ := exists_trimZeros (Nat.toDigits 10 d.digits)
    have hhead := head?_toDigits (Nat.pos_of_ne_zero hnonzero)
    generalize trimZeros (Nat.toDigits 10 d.digits) = kept at hk ⊢
    have hne : kept ≠ [] := by
      rintro rfl
      rw [hk] at hhead
      cases k with
      | zero => exact Nat.toDigits_ne_nil hk
      | succ k => exact hhead rfl
    rw [hk, List.head?_append_of_ne_nil _ hne] at hhead
    have hdigits : IsDigits kept := fun c hc =>
      isDigits_toDigits d.digits c (hk ▸ List.mem_append_left _ hc)
    have hvalue : d.digits = digitsValue kept * 10 ^ k := by
      rw [← digitsValue_append_zeros, ← hk, digitsValue_toDigits]
    have hplaces : d.order - 1 + 1 - kept.length = k + d.exponent := by
      rw [Decimal.order, hk, List.length_append, List.length_replicate]
      omega
    have hspells : Spells (layDigits style kept (d.order - 1)) _ :=
      spells_layDigits hdigits hne hhead hstyle
    rwa [hplaces, ← mul_pow_mul_zpow, ← hvalue] at hspells

/-! ### Numbers and literals -/

theorem readMagnitude_toDigits {n : ℕ} (hn : (Nat.toDigits 10 n).length ≤ digitLimit)
    (hrest : Ends rest) : readMagnitude s (Nat.toDigits 10 n ++ rest) =
      .ok (.int (if s then -n else n), rest) := by
  have hwhole : IsWhole (Nat.toDigits 10 n) := by
    rcases Nat.eq_zero_or_pos n with rfl | hpos
    · exact .inl (Nat.toDigits_zero 10)
    · exact .inr ⟨isDigits_toDigits n, Nat.toDigits_ne_nil, head?_toDigits hpos⟩
  have hplaces : readPlaces rest = ([], rest) :=
    readPlaces_of_head fun hhead => (hrest '.' hhead).2.1 rfl
  rw [readMagnitude, readWhole_append hwhole hrest.endsDigits]
  simp only [hplaces, readPower_of_ends hrest, List.isEmpty_nil, if_true, if_neg (not_lt.mpr hn),
    digitsValue_toDigits]

theorem readPlain_literal {word : String} {v : Value} (h : (word, v) ∈ literals) :
    readPlain (word.toList ++ rest) = .ok (v, rest) := by
  simp only [literals, List.mem_cons, Prod.mk.injEq, List.not_mem_nil, or_false] at h
  rcases h with ⟨rfl, rfl⟩ | ⟨rfl, rfl⟩ | ⟨rfl, rfl⟩ | ⟨rfl, rfl⟩ | ⟨rfl, rfl⟩ | ⟨rfl, rfl⟩ <;>
    simp [readPlain, literals, afterWord?]

/-- No literal starts with a digit, also after a minus. -/
theorem readPlain_digit (h : isPlainDigit c = true) :
    readPlain (c :: cs) = readMagnitude false (c :: cs) ∧
      readPlain ('-' :: c :: cs) = readMagnitude true (c :: cs) := by
  have hne : ∀ d, isPlainDigit d = false → d ≠ c := by
    rintro d hd rfl
    rw [h] at hd
    cases hd
  have hword : ∀ l ∈ literals, afterWord? l.1.toList (c :: cs) = none ∧
      afterWord? l.1.toList ('-' :: c :: cs) = none := by
    simp [literals, afterWord?, hne, isPlainDigit]
  constructor
  · rw [readPlain, List.findSome?_eq_none_iff.mpr fun l hl => by rw [(hword l hl).1]; rfl]
    intro tail heq
    exact hne '-' rfl (List.cons.inj heq).1.symm
  · rw [readPlain, List.findSome?_eq_none_iff.mpr fun l hl => by rw [(hword l hl).2]; rfl]

/-- The characters with which no number and no literal starts. -/
def marks : List Char := [' ', '\t', '\n', '\r', '[', ']', '{', '}', '"']

theorem not_mem_marks (h : isPlainDigit c = true) : c ∉ marks := by
  have hmarks : ∀ d ∈ marks, isPlainDigit d = false := by simp [marks, isPlainDigit]
  intro hmem
  rw [hmarks c hmem] at h
  cases h

/-- A text on one line that is read as a value and does not start like anything else. -/
structure ReadsPlain (cs : List Char) (v : Value) : Prop where
  starts : ∃ c tail, cs = c :: tail ∧ c ∉ marks
  reads : ∀ rest, Ends rest → readPlain (cs ++ rest) = .ok (v, rest)
  unbroken : '\r' ∉ cs

theorem readsPlain_literal {word : String} {v : Value} (h : (word, v) ∈ literals) :
    ReadsPlain word.toList v := by
  have hreads : ∀ rest, Ends rest → readPlain (word.toList ++ rest) = .ok (v, rest) :=
    fun rest _ => readPlain_literal h
  simp only [literals, List.mem_cons, Prod.mk.injEq, List.not_mem_nil, or_false] at h
  rcases h with ⟨rfl, -⟩ | ⟨rfl, -⟩ | ⟨rfl, -⟩ | ⟨rfl, -⟩ | ⟨rfl, -⟩ | ⟨rfl, -⟩ <;>
    exact ⟨by simp [marks], hreads, by simp⟩

/-- A sign and a text that starts with a digit are read as what the text is read as with the
sign. -/
theorem readsPlain_signed {v : Value} (h : isPlainDigit c = true)
    (hreads : ∀ rest, Ends rest → readMagnitude s (c :: cs ++ rest) = .ok (v, rest))
    (hunbroken : '\r' ∉ c :: cs) : ReadsPlain ((if s then ['-'] else []) ++ c :: cs) v := by
  cases s with
  | false =>
    refine ⟨⟨c, cs, rfl, not_mem_marks h⟩, fun rest hrest => ?_, hunbroken⟩
    exact (readPlain_digit h).1.trans (hreads rest hrest)
  | true =>
    refine ⟨⟨'-', c :: cs, rfl, by decide⟩, fun rest hrest => ?_, by simpa using hunbroken⟩
    exact (readPlain_digit h).2.trans (hreads rest hrest)

/-- What is written for an integer that is not too long is read as that integer. -/
theorem readsPlain_int (i : ℤ) (h : (Nat.toDigits 10 i.natAbs).length ≤ digitLimit) :
    ReadsPlain (toString i).toList (.int i) := by
  have htext : (toString i).toList =
      (if decide (i < 0) then ['-'] else []) ++ Nat.toDigits 10 i.natAbs := by
    rw [Int.toString_eq_repr, Int.repr_eq_if]
    by_cases hi : 0 ≤ i
    · have habs : i.toNat = i.natAbs := by omega
      simp [hi, not_lt.mpr hi, habs]
    · have habs : (-i).toNat = i.natAbs := by omega
      simp [hi, not_le.mp hi, habs]
  obtain ⟨c, tail, hcs⟩ := List.exists_cons_of_ne_nil (Nat.toDigits_ne_nil (n := i.natAbs))
  have hdigit := isDigits_toDigits i.natAbs c (hcs ▸ List.mem_cons_self)
  rw [htext, hcs]
  refine readsPlain_signed hdigit (fun rest hrest => ?_) (hcs ▸ (isDigits_toDigits _).unbroken)
  rw [← hcs, readMagnitude_toDigits h hrest]
  have hsigned : (if decide (i < 0) then -(i.natAbs : ℤ) else i.natAbs) = i := by
    simp only [decide_eq_true_eq]
    omega
  rw [hsigned]

/-- What is written for a double is read as that double. -/
theorem readsPlain_document (x : Float) : ReadsPlain (document x) (.real x) := by
  unfold document withStyle
  cases hx : reading x with
  | undefined =>
    have hundefined : reading Double.undefined = .undefined := by decide +kernel
    rw [reading_injective (hx.trans hundefined.symm)]
    exact readsPlain_literal (by simp [literals, documentStyle])
  | infinite s =>
    have hinfinite : reading (Double.infinity s) = .infinite s := by
      cases s <;> decide +kernel
    rw [reading_injective (hx.trans hinfinite.symm)]
    cases s with
    | false => exact readsPlain_literal (by simp [literals, documentStyle])
    | true =>
      have hword : ['-'] ++ documentStyle.infinite.toList = "-Infinity".toList := by
        decide +kernel
      show ReadsPlain (['-'] ++ documentStyle.infinite.toList) _
      rw [hword]
      exact readsPlain_literal (by simp [literals])
  | finite s m e =>
    have hspells := spells_layDecimal pointed_documentStyle
      (if m = 0 then ⟨0, 0⟩ else Decimal.shortest m e)
    have hbits : bitsOf (if m = 0 then ⟨0, 0⟩ else Decimal.shortest m e : Decimal).value =
        bitsOf (m * 2 ^ e) := by
      split
      · rename_i hm
        simp [hm, Decimal.value]
      · exact Decimal.bitsOf_shortest m e
    obtain ⟨c, tail, hcs, hdigit⟩ := hspells.head
    show ReadsPlain ((if s then ['-'] else []) ++ layDecimal documentStyle _) _
    rw [hcs] at hspells ⊢
    refine readsPlain_signed hdigit (fun rest hrest => ?_) hspells.unbroken
    rw [hspells.reads s rest hrest, hbits, ← bitsOf_of_reading hx]

end CityTour.Document
