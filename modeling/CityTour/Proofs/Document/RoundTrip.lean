import Mathlib
import CityTour.Document
import CityTour.Proofs.Document.Number
import CityTour.Proofs.Entries
import CityTour.Text

/-! Documents written and read back.  What is written for a value is read as that value at any
depth, whatever follows it, as long as that does not go on with a number; so a whole text is read as
the value it was written for (`read_write`). -/

namespace CityTour

namespace Document

open Text Numeral

variable {v : Value} {s : List Symbol} {cs rest : List Char} {c : Char} {depth fuel : ℕ}

/-! ### Texts -/

/-- The characters that are written as they are. -/
def isPlainChar (c : Char) : Bool := ' ' ≤ c && c ≤ '~' && c != '"' && c != '\\'

/-- A text that is written as it is, between quotes. -/
def IsPlainText (s : List Symbol) : Prop := ∀ y ∈ s, ∃ c, y = .char c ∧ isPlainChar c = true

theorem isPlainText_ofString {s : String} (h : s.toList.all isPlainChar = true) :
    IsPlainText (Symbol.ofString s) := by
  intro y hy
  obtain ⟨c, hc, rfl⟩ := List.mem_map.mp hy
  exact ⟨c, rfl, List.all_eq_true.mp h c hc⟩

theorem writeChar_of_plain (h : isPlainChar c = true) : writeChar c = [c] := by
  simp only [isPlainChar, Bool.and_eq_true, decide_eq_true_eq, bne_iff_ne] at h
  obtain ⟨⟨⟨hlow, hhigh⟩, hquote⟩, hslash⟩ := h
  have hcontrol : ∀ d, d < ' ' → c ≠ d := by
    rintro d hd rfl
    exact absurd hlow (not_le.mpr hd)
  rw [writeChar, if_neg (by simp [hquote, hslash]), if_neg (hcontrol _ (by decide)),
    if_neg (hcontrol _ (by decide)), if_neg (hcontrol _ (by decide)),
    if_neg (hcontrol _ (by decide)), if_neg (hcontrol _ (by decide)), if_pos ⟨hlow, hhigh⟩]

theorem readChars_cons (h : isPlainChar c = true) :
    readChars (c :: rest) = (readChars rest).map fun r => (.char c :: r.1, r.2) := by
  simp only [isPlainChar, Bool.and_eq_true, decide_eq_true_eq, bne_iff_ne] at h
  obtain ⟨⟨⟨hlow, -⟩, hquote⟩, hslash⟩ := h
  have hcode : ¬ (c.toNat < 32 ∨ c = '\\') := by
    rintro (hlt | hc)
    · exact absurd hlt (not_lt.mpr (UInt32.le_iff_toNat_le.mp hlow))
    · exact hslash hc
  rw [readChars, if_neg hcode]
  all_goals simp_all

theorem readChars_writeText (h : IsPlainText s) (rest : List Char) :
    readChars (s.flatMap writeSymbol ++ '"' :: rest) = some (s, rest) := by
  induction s with
  | nil => rfl
  | cons y s ih =>
    obtain ⟨⟨c, rfl, hplain⟩, hs⟩ := List.forall_mem_cons.mp h
    rw [List.flatMap_cons, writeSymbol, writeChar_of_plain hplain, List.append_assoc,
      List.singleton_append, readChars_cons hplain, ih hs]
    rfl

theorem unbroken_writeText (h : IsPlainText s) : '\r' ∉ writeText s := by
  have hchars : '\r' ∉ s.flatMap writeSymbol := by
    intro hmem
    obtain ⟨y, hy, hin⟩ := List.mem_flatMap.mp hmem
    obtain ⟨c, rfl, hplain⟩ := h y hy
    rw [writeSymbol, writeChar_of_plain hplain, List.mem_singleton] at hin
    rw [← hin] at hplain
    cases hplain
  simp [writeText, hchars]

/-! ### Lines -/

theorem skipGap_cons (h : isGap c = false) : skipGap (c :: rest) = c :: rest := by
  simp [skipGap, h]

theorem skipGap_newLine (depth : ℕ) (h : isGap c = false) :
    skipGap (newLine depth ++ c :: rest) = c :: rest := by
  have hgap : ∀ d ∈ newLine depth, isGap d = true := by
    intro d hd
    rcases List.mem_cons.mp hd with rfl | hblank
    · rfl
    · rw [List.eq_of_mem_replicate hblank]
      rfl
  rw [skipGap, List.dropWhile_append_of_pos hgap]
  exact skipGap_cons h

theorem unbroken_newLine (depth : ℕ) : '\r' ∉ newLine depth := by
  simp [newLine]

theorem ends_newLine (depth : ℕ) : Ends (newLine depth ++ rest) := by
  rintro c hc
  cases hc
  decide

theorem ends_comma : Ends (',' :: rest) := by
  rintro c hc
  cases hc
  decide

/-! ### Values -/

/-- Values that are read back: texts are plain, integers not too long, and the names of the fields
of an object differ. -/
inductive Storable : Value → Prop
  | null : Storable .null
  | bool (b : Bool) : Storable (.bool b)
  | int {i : ℤ} (h : (Nat.toDigits 10 i.natAbs).length ≤ digitLimit) : Storable (.int i)
  | real (x : Float) : Storable (.real x)
  | text {s : List Symbol} (h : IsPlainText s) : Storable (.text s)
  | list {items : List Value} (h : ∀ v ∈ items, Storable v) : Storable (.list items)
  | object {fields : List (List Symbol × Value)} (hnames : ∀ f ∈ fields, IsPlainText f.1)
      (hdistinct : (fields.map Prod.fst).Nodup) (h : ∀ f ∈ fields, Storable f.2) :
      Storable (.object fields)

/-- A value whose text is on lines of its own ending with line feeds, starts it at once, and is read
back whatever follows. -/
structure ReadsBack (v : Value) : Prop where
  starts : ∀ depth, ∃ c tail, writeValue depth v = c :: tail ∧ isGap c = false ∧ c ≠ ']'
  reads : ∀ depth fuel rest, Ends rest → (writeValue depth v).length ≤ fuel →
    readValue fuel (writeValue depth v ++ rest) = .ok (v, rest)
  unbroken : ∀ depth, '\r' ∉ writeValue depth v

theorem readValue_of_not_mem_marks (h : c ∉ marks) :
    readValue (fuel + 1) (c :: rest) = readPlain (c :: rest) := by
  simp only [marks, List.mem_cons, List.not_mem_nil, or_false, not_or] at h
  rw [readValue]
  all_goals simp_all

/-- Literals and numbers are read back. -/
theorem ReadsPlain.readsBack (hwrite : ∀ depth, writeValue depth v = cs) (h : ReadsPlain cs v) :
    ReadsBack v := by
  obtain ⟨⟨c, tail, rfl, hc⟩, hreads, hunbroken⟩ := h
  refine ⟨fun depth => ⟨c, tail, hwrite depth, ?_⟩, fun depth fuel rest hrest hfuel => ?_,
    fun depth => by rwa [hwrite]⟩
  · simp only [marks, List.mem_cons, List.not_mem_nil, or_false, not_or] at hc
    simp [isGap, hc]
  · rw [hwrite] at hfuel ⊢
    obtain ⟨fuel, rfl⟩ := Nat.exists_eq_succ_of_ne_zero (Nat.ne_zero_of_lt hfuel)
    rw [List.cons_append, readValue_of_not_mem_marks hc]
    exact hreads rest hrest

theorem ReadsBack.skipGap_newLine (h : ReadsBack v) (depth rank : ℕ) (rest : List Char) :
    skipGap (newLine rank ++ (writeValue depth v ++ rest)) = writeValue depth v ++ rest := by
  obtain ⟨c, tail, hcs, hgap, -⟩ := h.starts depth
  rw [hcs, List.cons_append]
  exact Document.skipGap_newLine rank hgap

/-- The items of a list are read back, if each of them is. -/
theorem readItems_writeItems {items : List Value} (h : ∀ w ∈ v :: items, ReadsBack w) (rank : ℕ)
    (hfuel : (writeValue depth v).length + (writeItems depth items).length < fuel) :
    readItems fuel (writeValue depth v ++ (writeItems depth items ++
      (newLine rank ++ ']' :: rest))) = .ok (v :: items, rest) := by
  induction items generalizing v fuel with
  | nil =>
    obtain ⟨fuel, rfl⟩ := Nat.exists_eq_succ_of_ne_zero (Nat.ne_zero_of_lt hfuel)
    have hv := (h v List.mem_cons_self).reads depth fuel (newLine rank ++ ']' :: rest)
      (ends_newLine rank) (by omega)
    rw [writeItems, List.nil_append, readItems, hv]
    dsimp only
    rw [Document.skipGap_newLine rank rfl]
    rfl
  | cons w items ih =>
    obtain ⟨hv, hitems⟩ := List.forall_mem_cons.mp h
    obtain ⟨fuel, rfl⟩ := Nat.exists_eq_succ_of_ne_zero (Nat.ne_zero_of_lt hfuel)
    have hw := hitems w List.mem_cons_self
    rw [writeItems] at hfuel ⊢
    simp only [List.length_cons, List.length_append] at hfuel
    have hread := @ih w fuel hitems (by omega)
    rw [List.cons_append, readItems, hv.reads depth fuel _ ends_comma (by omega)]
    dsimp only
    rw [skipGap_cons rfl]
    simp only [List.append_assoc]
    rw [hw.skipGap_newLine, hread]

theorem unbroken_writeItems {items : List Value} (h : ∀ w ∈ items, ReadsBack w) :
    '\r' ∉ writeItems depth items := by
  induction items with
  | nil => simp [writeItems]
  | cons w items ih =>
    obtain ⟨hw, hitems⟩ := List.forall_mem_cons.mp h
    simp [writeItems, unbroken_newLine, hw.unbroken, ih hitems]

theorem readsBack_list {items : List Value} (h : ∀ w ∈ items, ReadsBack w) :
    ReadsBack (.list items) := by
  cases items with
  | nil =>
    refine ⟨fun depth => ⟨'[', [']'], by rw [writeValue], rfl, by decide⟩,
      fun depth fuel rest _ hfuel => ?_, fun depth => by simp [writeValue]⟩
    rw [writeValue] at hfuel ⊢
    obtain ⟨fuel, rfl⟩ := Nat.exists_eq_succ_of_ne_zero (Nat.ne_zero_of_lt hfuel)
    rfl
  | cons v items =>
    obtain ⟨hv, hitems⟩ := List.forall_mem_cons.mp h
    refine ⟨fun depth => ⟨'[', _, by rw [writeValue], rfl, by decide⟩,
      fun depth fuel rest _ hfuel => ?_, fun depth => ?_⟩
    · rw [writeValue] at hfuel ⊢
      simp only [List.length_cons, List.length_append, newLine] at hfuel
      obtain ⟨fuel, rfl⟩ := Nat.exists_eq_succ_of_ne_zero (Nat.ne_zero_of_lt hfuel)
      have hread := @readItems_writeItems v rest (depth + 1) fuel items h depth (by omega)
      obtain ⟨c, tail, hcs, -, hc⟩ := hv.starts (depth + 1)
      rw [List.cons_append, readValue]
      simp only [List.append_assoc, List.singleton_append]
      rw [hv.skipGap_newLine]
      rw [hcs] at hread ⊢
      split
      · rename_i heq
        exact absurd (List.cons.inj heq).1 hc
      · rw [hread]
    · simp [writeValue, unbroken_newLine, hv.unbroken, unbroken_writeItems hitems]

theorem skipGap_writeText (rank : ℕ) (name : List Symbol) (rest : List Char) :
    skipGap (newLine rank ++ (writeText name ++ rest)) = writeText name ++ rest := by
  rw [writeText, List.cons_append]
  exact skipGap_newLine rank rfl

theorem ReadsBack.skipGap_blank (h : ReadsBack v) (depth : ℕ) (rest : List Char) :
    skipGap (' ' :: (writeValue depth v ++ rest)) = writeValue depth v ++ rest := by
  obtain ⟨c, tail, hcs, hgap, -⟩ := h.starts depth
  rw [hcs]
  exact skipGap_cons hgap

variable {name : List Symbol} {fields : List (List Symbol × Value)} {left : List Char}

theorem readFields_last (hname : IsPlainText name) (hv : ReadsBack v) (hrest : Ends rest)
    (hfuel : (writeValue depth v).length ≤ fuel) (hclose : skipGap rest = '}' :: left) :
    readFields (fuel + 1) (writeText name ++ ':' :: ' ' :: (writeValue depth v ++ rest)) =
      .ok ([(name, v)], left) := by
  simp only [writeText, List.cons_append, List.append_assoc, List.nil_append]
  rw [readFields, readChars_writeText hname]
  simp only [skipGap_cons (c := ':') rfl, hv.skipGap_blank, hv.reads depth fuel rest hrest hfuel,
    hclose]

theorem readFields_next (hname : IsPlainText name) (hv : ReadsBack v)
    (hfuel : (writeValue depth v).length ≤ fuel)
    (hnext : readFields fuel (skipGap rest) = .ok (fields, left)) :
    readFields (fuel + 1) (writeText name ++ ':' :: ' ' :: (writeValue depth v ++ ',' :: rest)) =
      .ok ((name, v) :: fields, left) := by
  simp only [writeText, List.cons_append, List.append_assoc, List.nil_append]
  rw [readFields, readChars_writeText hname]
  simp only [skipGap_cons (c := ':') rfl, hv.skipGap_blank, hv.reads depth fuel _ ends_comma hfuel,
    skipGap_cons (c := ',') rfl, hnext]

/-- The fields of an object are read back, if their names are plain and their values are read
back. -/
theorem readFields_writeFields (hnames : ∀ f ∈ (name, v) :: fields, IsPlainText f.1)
    (h : ∀ f ∈ (name, v) :: fields, ReadsBack f.2) (rank : ℕ)
    (hfuel : (writeValue depth v).length + (writeFields depth fields).length < fuel) :
    readFields fuel (writeText name ++ ':' :: ' ' :: (writeValue depth v ++
      (writeFields depth fields ++ (newLine rank ++ '}' :: rest)))) =
        .ok ((name, v) :: fields, rest) := by
  induction fields generalizing name v fuel with
  | nil =>
    obtain ⟨fuel, rfl⟩ := Nat.exists_eq_succ_of_ne_zero (Nat.ne_zero_of_lt hfuel)
    obtain ⟨hname, -⟩ := List.forall_mem_cons.mp hnames
    obtain ⟨(hv : ReadsBack v), -⟩ := List.forall_mem_cons.mp h
    rw [writeFields, List.nil_append]
    exact readFields_last hname hv (ends_newLine rank) (by omega)
      (Document.skipGap_newLine rank rfl)
  | cons f fields ih =>
    obtain ⟨fuel, rfl⟩ := Nat.exists_eq_succ_of_ne_zero (Nat.ne_zero_of_lt hfuel)
    obtain ⟨hname, hnames⟩ := List.forall_mem_cons.mp hnames
    obtain ⟨(hv : ReadsBack v), hfields⟩ := List.forall_mem_cons.mp h
    obtain ⟨next, w⟩ := f
    rw [writeFields] at hfuel ⊢
    simp only [List.length_cons, List.length_append] at hfuel
    simp only [List.append_assoc, List.cons_append]
    refine readFields_next hname hv (by omega) ?_
    rw [skipGap_writeText]
    exact ih hnames hfields (by omega)

theorem unbroken_writeFields (hnames : ∀ f ∈ fields, IsPlainText f.1)
    (h : ∀ f ∈ fields, ReadsBack f.2) : '\r' ∉ writeFields depth fields := by
  induction fields with
  | nil => simp [writeFields]
  | cons f fields ih =>
    obtain ⟨hname, hnames⟩ := List.forall_mem_cons.mp hnames
    obtain ⟨hv, hfields⟩ := List.forall_mem_cons.mp h
    simp [writeFields, unbroken_newLine, unbroken_writeText hname, hv.unbroken, ih hnames hfields]

theorem readsBack_object (hnames : ∀ f ∈ fields, IsPlainText f.1)
    (hdistinct : (fields.map Prod.fst).Nodup) (h : ∀ f ∈ fields, ReadsBack f.2) :
    ReadsBack (.object fields) := by
  cases fields with
  | nil =>
    refine ⟨fun depth => ⟨'{', ['}'], by rw [writeValue], rfl, by decide⟩,
      fun depth fuel rest _ hfuel => ?_, fun depth => by simp [writeValue]⟩
    rw [writeValue] at hfuel ⊢
    obtain ⟨fuel, rfl⟩ := Nat.exists_eq_succ_of_ne_zero (Nat.ne_zero_of_lt hfuel)
    rfl
  | cons f fields =>
    obtain ⟨name, v⟩ := f
    obtain ⟨hname, hnames'⟩ := List.forall_mem_cons.mp hnames
    obtain ⟨hv, hfields⟩ := List.forall_mem_cons.mp h
    refine ⟨fun depth => ⟨'{', _, by rw [writeValue], rfl, by decide⟩,
      fun depth fuel rest _ hfuel => ?_, fun depth => ?_⟩
    · rw [writeValue] at hfuel ⊢
      simp only [List.length_cons, List.length_append, newLine] at hfuel
      obtain ⟨fuel, rfl⟩ := Nat.exists_eq_succ_of_ne_zero (Nat.ne_zero_of_lt hfuel)
      have hread := @readFields_writeFields v rest (depth + 1) fuel name fields hnames h depth
        (by omega)
      rw [List.cons_append, readValue]
      simp only [List.append_assoc, List.cons_append, List.nil_append]
      rw [skipGap_writeText]
      rw [writeText, List.cons_append] at hread ⊢
      split
      · rename_i heq
        exact absurd (List.cons.inj heq).1 (by decide)
      · rw [hread]
        dsimp only
        rw [Entries.settle_of_nodup hdistinct]
    · simp [writeValue, unbroken_newLine, unbroken_writeText hname, hv.unbroken,
        unbroken_writeFields hnames' hfields]

theorem readsBack_text (h : IsPlainText s) : ReadsBack (.text s) := by
  refine ⟨fun depth => ⟨'"', _, by rw [writeValue, writeText], rfl, by decide⟩,
    fun depth fuel rest _ hfuel => ?_, fun depth => ?_⟩
  · rw [writeValue] at hfuel ⊢
    obtain ⟨fuel, rfl⟩ := Nat.exists_eq_succ_of_ne_zero (Nat.ne_zero_of_lt hfuel)
    simp only [writeText, List.cons_append, List.append_assoc, List.nil_append]
    rw [readValue, readChars_writeText h]
  · rw [writeValue]
    exact unbroken_writeText h

/-- Every storable value is read back. -/
theorem Storable.readsBack (h : Storable v) : ReadsBack v := by
  induction h with
  | null =>
    have hword : ("null", Value.null) ∈ literals := by simp [literals]
    exact (readsPlain_literal hword).readsBack fun _ => by rw [writeValue]
  | bool b =>
    cases b with
    | false =>
      have hword : ("false", Value.bool false) ∈ literals := by simp [literals]
      exact (readsPlain_literal hword).readsBack fun _ => by rw [writeValue]
    | true =>
      have hword : ("true", Value.bool true) ∈ literals := by simp [literals]
      exact (readsPlain_literal hword).readsBack fun _ => by rw [writeValue]
  | int h => exact (readsPlain_int _ h).readsBack fun _ => by rw [writeValue]
  | real x => exact (readsPlain_document x).readsBack fun _ => by rw [writeValue]
  | text h => exact readsBack_text h
  | list h ih => exact readsBack_list ih
  | object hnames hdistinct h ih => exact readsBack_object hnames hdistinct ih

/-- The text of a storable value is read as that value. -/
theorem read_write (h : Storable v) : read (write v).toList = .ok v := by
  obtain ⟨c, tail, hcs, hgap, -⟩ := h.readsBack.starts 0
  have hreads := h.readsBack.reads 0 (2 * (writeValue 0 v).length + 2) [] nofun (by omega)
  have hskip : skipGap (writeValue 0 v) = writeValue 0 v := by
    rw [hcs]
    exact skipGap_cons hgap
  rw [List.append_nil] at hreads
  rw [write, String.toList_ofList, read, hskip, hreads]
  rfl

theorem unifyLines_of_not_mem (h : '\r' ∉ cs) : unifyLines cs = cs := by
  induction cs with
  | nil => rfl
  | cons c cs ih =>
    obtain ⟨hc, hcs⟩ := not_or.mp (mt List.mem_cons.mpr h)
    have hne : c ≠ '\r' := Ne.symm hc
    rw [unifyLines, ih hcs]
    all_goals simp [hne]

/-- The text of a storable value has only line feeds as line ends. -/
theorem unifyLines_write (h : Storable v) : unifyLines (write v).toList = (write v).toList := by
  rw [write, String.toList_ofList]
  exact unifyLines_of_not_mem (h.readsBack.unbroken 0)

end Document

end CityTour
