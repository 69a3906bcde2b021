import Longhand.Problem.Expression
import Longhand.Proofs.ColumnPass
import Longhand.Proofs.LongDivision
import Longhand.Proofs.LongMultiplication
import Longhand.Proofs.Outcomes
/-!
# Pages are well formed

Whatever is worked, the steps are numbered from one, the rows of a page have one width, a highlight
points at a cell that exists, and a carry or a borrow leads between two columns of the page, a carry
to the left and a borrow from the left. All of it is settled by the drafts (`Layout.Fits`): bringing
the rows to one width moves no cell. A column that is left of another one has not been cut off at
zero, so no carry leads out of the page.
-/

namespace Longhand

/-! ## What is well formed -/

/-- A page whose rows have one width, with all that points at it inside. -/
structure Layout.WellFormed (l : Layout) (width : Nat) : Prop where
  rows : ∀ r ∈ l.rows, r.length = width
  highlights : ∀ hs ∈ l.highlights, ∀ h ∈ hs, ∃ c, l.cell? h.row h.column = some c
  carries : ∀ ts ∈ l.carries, ∀ t ∈ ts, t.toColumn < t.fromColumn ∧ t.fromColumn < width
  borrows : ∀ ts ∈ l.borrows, ∀ t ∈ ts, t.fromColumn < t.toColumn ∧ t.toColumn < width

/-- Steps that are numbered from one and whose pages are well formed. -/
structure Step.WellFormed (steps : List Step) : Prop where
  numbers : steps.map (·.number) = List.range' 1 steps.length
  pages : ∀ s ∈ steps, ∃ width, s.layout.WellFormed width

/-- A page, before its rows are brought to one width, on which everything points at what is
there. -/
structure Layout.Fits (l : Layout) : Prop where
  highlights : ∀ hs ∈ l.highlights, ∀ h ∈ hs, ∃ r, l.rows[h.row]? = some r ∧ h.column < r.length
  carries : ∀ ts ∈ l.carries, ∀ t ∈ ts,
    t.toColumn < t.fromColumn ∧ ∃ r ∈ l.rows, t.fromColumn < r.length
  borrows : ∀ ts ∈ l.borrows, ∀ t ∈ ts,
    t.fromColumn < t.toColumn ∧ ∃ r ∈ l.rows, t.toColumn < r.length

/-- On a page of rows alone nothing points anywhere. -/
theorem Layout.fits_rows (rows : List Row) : Layout.Fits { rows } := by
  constructor <;> simp

theorem Layout.Fits.wellFormed_squared {l : Layout} (h : l.Fits) :
    l.squared.WellFormed (Row.maxWidth l.rows) := by
  refine ⟨fun r hr => Layout.length_of_mem_squared hr, ?_, ?_, ?_⟩
  · intro hs hhs x hx
    obtain ⟨r, hr, hlt⟩ := h.highlights hs hhs x hx
    refine ⟨r[x.column], Layout.cell?_squared ?_⟩
    rw [Layout.cell?, hr, Option.bind_some, List.getElem?_eq_getElem hlt]
  · intro ts hts t ht
    obtain ⟨hleft, r, hr, hlt⟩ := h.carries ts hts t ht
    exact ⟨hleft, hlt.trans_le (Row.length_le_maxWidth hr)⟩
  · intro ts hts t ht
    obtain ⟨hleft, r, hr, hlt⟩ := h.borrows ts hts t ht
    exact ⟨hleft, hlt.trans_le (Row.length_le_maxWidth hr)⟩

/-- The steps of drafts that fit are well formed. -/
theorem Step.wellFormed_ofDrafts (operation : Operation) (operands : Operands) (result : Number)
    {drafts : List Draft} (h : ∀ d ∈ drafts, d.layout.Fits) :
    Step.WellFormed (Step.ofDrafts operation operands result drafts) := by
  constructor
  · refine List.ext_getElem (by simp [ofDrafts]) fun i hi _ => ?_
    simp [ofDrafts, Nat.add_comm]
  · intro s hs
    obtain ⟨d, hd, hshows⟩ :=
      Step.exists_draft (Step.ofDrafts_shows operation operands result drafts) hs
    rw [hshows.layout]
    exact ⟨_, (h d hd).wellFormed_squared⟩

/-! ## Columns -/

namespace Column

variable {m : Method} {a : Alignment}

/-- What goes out of a column goes to one further left. -/
theorem next_lt_of_mem_passAll {e : Entry} (he : e ∈ passAll m.rule a) : e.next < e.column := by
  have hrun := run_pass m (.inl rfl) a.columns.reverse
  rcases hrun.last_or_next he with hend | ⟨-, hplace⟩
  · rw [hrun.next_getLast hend]
    exact Nat.pos_of_ne_zero (hrun.column_bounds he).1
  · unfold Alignment.exponent at hplace
    split at hplace <;> split at hplace <;> omega

theorem column_lt_of_mem_passAll {e : Entry} (he : e ∈ passAll m.rule a) : e.column < a.width :=
  ((run_pass m (.inl rfl) a.columns.reverse).column_bounds he).2

/-- The transfers of some columns fit on a page whose rows have all columns. -/
theorem fits_page {rows : List Row} {highlights : Option (List Highlight)} {es : List Entry}
    (hes : ∀ e ∈ es, e ∈ passAll m.rule a) (hrow : ∃ r ∈ rows, r.length = a.width)
    (hhighlights : ∀ hs ∈ highlights, ∀ h ∈ hs,
      ∃ r, rows[h.row]? = some r ∧ h.column < r.length) :
    (page m rows highlights
      (es.foldl (Progress.write m a) (Progress.start a)).transfers).Fits := by
  obtain ⟨r, hr, hwidth⟩ := hrow
  have htransfers : ∀ t ∈ (es.foldl (Progress.write m a) (Progress.start a)).transfers,
      ∃ e ∈ passAll m.rule a, t = transfer m a e := by
    intro t ht
    rw [Progress.transfers_foldl] at ht
    simp only [Progress.start, List.nil_append, List.mem_map, List.mem_filter] at ht
    obtain ⟨e, ⟨he, -⟩, rfl⟩ := ht
    exact ⟨e, hes e he, rfl⟩
  generalize (es.foldl (Progress.write m a) (Progress.start a)).transfers = ts at htransfers
  have hinside : ∀ e ∈ passAll m.rule a, e.next < e.column ∧ ∃ r ∈ rows, e.column < r.length := by
    intro e he
    exact ⟨next_lt_of_mem_passAll he, r, hr, hwidth ▸ column_lt_of_mem_passAll he⟩
  cases m with
  | addition =>
    refine ⟨hhighlights, ?_, by simp [page]⟩
    intro us hus t ht
    obtain rfl := Option.some.inj hus
    obtain ⟨e, he, rfl⟩ := htransfers t ht
    exact hinside e he
  | subtraction =>
    refine ⟨hhighlights, by simp [page], ?_⟩
    intro us hus t ht
    obtain rfl := Option.some.inj hus
    obtain ⟨e, he, rfl⟩ := htransfers t ht
    exact hinside e he

/-- The page of a column: the cells of both digits and of the one written are there. -/
theorem fits_columnDraft {es : List Entry} (hes : ∀ e ∈ es, e ∈ passAll m.rule a) {e : Entry}
    (he : e ∈ passAll m.rule a) :
    (columnDraft m a (es.foldl (Progress.write m a) (Progress.start a)) e).layout.Fits := by
  have hlt := column_lt_of_mem_passAll he
  have hcells := Progress.length_cells_foldl m a (Progress.start a) es
  rw [Progress.length_cells_start] at hcells
  have htop : (' ' :: a.row a.top).length = a.width := a.holds_top.length_row
  have hbottom : (m.symbol :: a.row a.bottom).length = a.width := a.holds_bottom.length_row
  refine fits_page hes ⟨' ' :: a.row a.top, by simp [header], htop⟩ ?_
  intro hs hhs h hh
  obtain rfl := Option.some.inj hhs
  simp only [List.mem_cons, List.not_mem_nil, or_false] at hh
  rcases hh with rfl | rfl | rfl
  · exact ⟨_, rfl, htop ▸ hlt⟩
  · exact ⟨_, rfl, hbottom ▸ hlt⟩
  · exact ⟨_, rfl, hcells ▸ hlt⟩

theorem fits_of_mem_drafts {exchanged : Option (String × String)} {answer : String} {d : Draft}
    (hd : d ∈ drafts m a exchanged answer) : d.layout.Fits := by
  obtain ⟨first, final, hpages, hfirst, hfinal⟩ := drafts_eq m a exchanged answer
  rw [hpages, List.mem_cons, List.mem_append, List.mem_singleton] at hd
  rcases hd with rfl | hd | rfl
  · rw [hfirst]
    exact Layout.fits_rows _
  · obtain ⟨i, hi, rfl⟩ := List.getElem_of_mem hd
    have hentry : i < (passAll m.rule a).length := by rwa [length_columnDrafts] at hi
    have hdraft := getElem_columnDrafts m a (Progress.start a) (passAll m.rule a) i hentry
    rw [Option.some.inj ((List.getElem?_eq_getElem hi).symm.trans hdraft)]
    exact fits_columnDraft (fun e he => List.mem_of_mem_take he) (List.getElem_mem hentry)
  · rw [hfinal]
    exact fits_page (fun e he => he) ⟨' ' :: a.row a.top, by simp [header], a.holds_top.length_row⟩
      (by simp)

end Column

/-! ## Partial products -/

namespace Row

/-- A character that `digitColumns` counts as a digit. -/
def isDigitCell (c : Char) : Bool :=
  '0' ≤ c && c ≤ '9'

theorem digitColumns_eq (r : Row) :
    r.digitColumns = (((List.range r.length).zip r).filter fun x => isDigitCell x.2).map (·.1) := by
  rw [digitColumns]
  generalize (List.range r.length).zip r = cells
  induction cells with
  | nil => rfl
  | cons x cells ih =>
    by_cases h : '0' ≤ x.2 ∧ x.2 ≤ '9' <;> simp_all [isDigitCell]

/-- The columns of the digits are columns of the row, from left to right. -/
theorem digitColumns_sublist (r : Row) : r.digitColumns.Sublist (List.range r.length) := by
  have h : (((List.range r.length).zip r).map (·.1)) = List.range r.length :=
    List.map_fst_zip (by simp)
  have hfilter := (List.filter_sublist (p := fun x => isDigitCell x.2)
    (l := (List.range r.length).zip r)).map (·.1)
  rwa [← digitColumns_eq, h] at hfilter

theorem lt_of_mem_digitColumns {r : Row} {c : Nat} (h : c ∈ r.digitColumns) : c < r.length :=
  List.mem_range.1 (r.digitColumns_sublist.subset h)

theorem length_digitColumns (r : Row) : r.digitColumns.length = r.countP isDigitCell := by
  have h : (((List.range r.length).zip r).map (·.2)) = r := List.map_snd_zip (by simp)
  rw [digitColumns_eq, List.length_map, ← List.countP_eq_length_filter]
  conv => rhs; rw [← h, List.countP_map]
  rfl

/-- Further right stands further right. -/
theorem digitColumns_getElem_lt {r : Row} {i j : Nat} (hij : i < j)
    (hj : j < r.digitColumns.length) : r.digitColumns[i] < r.digitColumns[j] :=
  List.pairwise_iff_getElem.1 (List.pairwise_lt_range.sublist r.digitColumns_sublist) i j
    (hij.trans hj) hj hij

/-- No digit stands in column 0 if that is blank. -/
theorem digitColumns_ne_zero {c : Char} {r : Row} (hc : isDigitCell c = false) :
    ∀ i ∈ digitColumns (c :: r), i ≠ 0 := by
  intro i hi
  rw [digitColumns_eq, List.mem_map] at hi
  obtain ⟨⟨i, x⟩, hx, rfl⟩ := hi
  rw [List.mem_filter] at hx
  obtain ⟨hmem, hdigit⟩ := hx
  rintro rfl
  rw [List.length_cons, List.range_succ_eq_map, List.zip_cons_cons, List.mem_cons] at hmem
  rcases hmem with h | h
  · obtain ⟨-, rfl⟩ := Prod.mk.inj h
    simp [hc] at hdigit
  · have hfirst := List.mem_map_of_mem (f := Prod.fst) h
    rw [List.map_fst_zip (by simp)] at hfirst
    simp at hfirst

theorem isDigitCell_char : ∀ d : Digit, isDigitCell d.char = true := by
  decide

theorem countP_isDigitCell_text (ds : List Digit) :
    (Digits.text ds).countP isDigitCell = ds.length := by
  rw [List.countP_eq_length.2, Digits.length_text]
  intro c hc
  obtain ⟨d, rfl⟩ := Digits.exists_of_mem_text hc
  exact isDigitCell_char d

theorem countP_isDigitCell_numeral (n : Numeral) : n.text.countP isDigitCell = n.scaled.length := by
  rw [Numeral.text, List.countP_append, countP_isDigitCell_text, Numeral.scaled, List.length_append]
  split
  · rename_i h
    simp [List.isEmpty_iff.1 h]
  · rw [List.countP_cons_of_neg (by decide), countP_isDigitCell_text]

theorem countP_isDigitCell_padStart (width : Nat) (r : Row) :
    (padStart width r).countP isDigitCell = r.countP isDigitCell := by
  have hblanks : (List.replicate (width - r.length) ' ').countP isDigitCell = 0 := by
    rw [List.countP_eq_zero]
    intro c hc
    rw [List.eq_of_mem_replicate hc]
    decide
  rw [padStart, List.countP_append, hblanks, Nat.zero_add]

end Row

/-- The carries of a product stand above its digits. -/
theorem Product.index_lt_of_mem_carries {factor : Int} {index : Nat} {ds : List Digit} {i : Nat}
    {value : Int} (h : (i, value) ∈ (ofDigits factor index ds).carries) :
    index ≤ i ∧ i < index + ds.length := by
  induction ds generalizing index with
  | nil => simp [ofDigits] at h
  | cons d ds ih =>
    have hrest : ∀ h : (i, value) ∈ (ofDigits factor (index + 1) ds).carries,
        index ≤ i ∧ i < index + (d :: ds).length := by
      intro h
      obtain ⟨hge, hlt⟩ := ih h
      rw [List.length_cons]
      omega
    simp only [ofDigits] at h
    split at h
    · exact hrest h
    · rw [List.mem_append, List.mem_singleton] at h
      rcases h with h | h
      · exact hrest h
      · obtain ⟨rfl, -⟩ := Prod.mk.inj h
        exact ⟨le_refl _, Nat.lt_add_of_pos_right (Nat.succ_pos _)⟩

namespace Multiplication

variable {precision : Nat} {left right : Numeral}

theorem length_text_lt_pageWidth {r : Row} (h : r = left.text ∨ r = right.text) :
    r.length < pageWidth precision left right := by
  have hle : r.length ≤ Row.maxWidth ([left.text, right.text,
      Digits.text (total (partials left right)), productText precision left right] ++
        (partials left right).map (Digits.text ·.shifted)) :=
    Row.length_le_maxWidth (by rcases h with rfl | rfl <;> simp)
  unfold pageWidth
  simp only
  omega

/-- The digits of the multiplicand stand to the right of column 0. -/
theorem columns_left {width : Nat} (hwidth : left.text.length < width) :
    (Row.digitColumns (Row.padStart width left.text)).length = left.scaled.length ∧
      ∀ i ∈ Row.digitColumns (Row.padStart width left.text), i ≠ 0 := by
  constructor
  · rw [Row.length_digitColumns, Row.countP_isDigitCell_padStart, Row.countP_isDigitCell_numeral]
  · obtain ⟨k, hk⟩ := Nat.exists_eq_add_of_lt hwidth
    have hblanks : width - left.text.length = k + 1 := by omega
    rw [Row.padStart, hblanks, List.replicate_succ, List.cons_append]
    exact Row.digitColumns_ne_zero (by decide)

theorem index_lt_of_mem_partials {p : Partial} (hp : p ∈ partials left right) {i : Nat}
    {value : Int} (h : (i, value) ∈ p.carries) : i < left.scaled.length := by
  simp only [partials, List.mem_mapIdx] at hp
  obtain ⟨shift, _, rfl⟩ := hp
  have hlt := (@Product.index_lt_of_mem_carries _ 0 _ _ _ h).2
  omega

/-- From a column of digits to the one before it, and from the first one to the column before that,
one goes to the left. -/
theorem previous_lt {r : Row} (hpos : ∀ i ∈ r.digitColumns, i ≠ 0) {i : Nat}
    (hi : i < r.digitColumns.length) :
    (if i = 0 then r.digitColumns.getD 0 0 - 1 else r.digitColumns.getD (i - 1) 0) <
      r.digitColumns.getD i 0 ∧ r.digitColumns.getD i 0 < r.length := by
  have hget : ∀ j < r.digitColumns.length, r.digitColumns.getD j 0 ∈ r.digitColumns := by
    intro j hj
    rw [List.getD_eq_getElem?_getD, List.getElem?_eq_getElem hj]
    exact List.getElem_mem hj
  refine ⟨?_, Row.lt_of_mem_digitColumns (hget i hi)⟩
  cases i with
  | zero =>
    have hfirst := hpos _ (hget 0 hi)
    rw [if_pos rfl]
    omega
  | succ i =>
    have hlt := Row.digitColumns_getElem_lt (Nat.lt_succ_self i) hi
    rw [if_neg (Nat.succ_ne_zero i), Nat.add_sub_cancel, List.getD_eq_getElem?_getD,
      List.getD_eq_getElem?_getD, List.getElem?_eq_getElem (Nat.lt_of_succ_lt hi),
      List.getElem?_eq_getElem hi]
    exact hlt

theorem carryMarks_inside {width : Nat} (hwidth : left.text.length < width) {p : Partial}
    (hp : p ∈ partials left right) {t : Transfer} (ht : t ∈ carryMarks width left p) :
    t.toColumn < t.fromColumn ∧ t.fromColumn < (Row.padStart width left.text).length := by
  obtain ⟨hlength, hpos⟩ := columns_left hwidth
  simp only [carryMarks, List.mem_map] at ht
  obtain ⟨⟨i, value⟩, hi, rfl⟩ := ht
  have hlt := index_lt_of_mem_partials hp hi
  rw [← hlength] at hlt
  exact previous_lt hpos hlt

theorem fits_partialDraft {width : Nat} (hwidth : left.text.length < width) {shift : Nat}
    {p : Partial} (hp : (partials left right)[shift]? = some p) :
    (partialDraft width left right
      ((partials left right).map fun p => Row.padStart width (Digits.text p.shifted)) shift
      p).layout.Fits := by
  obtain ⟨hshift, -⟩ := List.getElem?_eq_some_iff.1 hp
  refine ⟨?_, ?_, by simp [partialDraft]⟩
  · intro hs hhs h hh
    obtain rfl := Option.some.inj hhs
    rcases List.mem_cons.1 hh with rfl | hh
    · -- the digit of the multiplier
      refine ⟨_, rfl, ?_⟩
      have hcolumns : (Row.digitColumns ('×' :: Row.padStart (width - 1) right.text)).length =
          (partials left right).length := by
        rw [Row.length_digitColumns, List.countP_cons_of_neg (by decide),
          Row.countP_isDigitCell_padStart, Row.countP_isDigitCell_numeral, length_partials]
      apply Row.lt_of_mem_digitColumns
      rw [List.getD_eq_getElem?_getD, List.getElem?_eq_getElem (by omega)]
      exact List.getElem_mem _
    · obtain ⟨c, hc, rfl⟩ := List.mem_map.1 hh
      refine ⟨Row.padStart width (Digits.text p.shifted), ?_, Row.lt_of_mem_digitColumns hc⟩
      have hrow : 3 + shift = (header width left right).length + shift := rfl
      simp only [partialDraft, hrow]
      rw [List.getElem?_append_right (Nat.le_add_right _ _), Nat.add_sub_cancel_left,
        List.getElem?_take_of_lt (Nat.lt_succ_self shift), List.getElem?_map, hp, Option.map_some]
  · intro ts hts t ht
    obtain rfl := Option.some.inj hts
    obtain ⟨hleft, hlt⟩ := carryMarks_inside hwidth (List.mem_of_getElem? hp) ht
    exact ⟨hleft, _, by simp [partialDraft, header], hlt⟩

theorem fits_of_mem_drafts {d : Draft} (hd : d ∈ drafts precision left right) : d.layout.Fits := by
  simp only [drafts, List.cons_append, List.mem_cons, List.mem_append, List.mem_mapIdx,
    List.not_mem_nil, or_false] at hd
  rcases hd with rfl | ⟨shift, hshift, rfl⟩ | rfl
  · exact Layout.fits_rows _
  · exact fits_partialDraft (length_text_lt_pageWidth (.inl rfl)) (List.getElem?_eq_getElem hshift)
  · exact Layout.fits_rows _

end Multiplication

/-! ## Lines of a division -/

namespace Division

theorem index_of_mem_trace {divisor index r : Nat} {ds : List Digit} {l : Line}
    (h : l ∈ trace divisor index r ds) : index ≤ l.index ∧ l.index < index + ds.length := by
  induction ds generalizing index r with
  | nil => simp [trace] at h
  | cons d ds ih =>
    rw [List.length_cons]
    rcases List.mem_cons.1 h with rfl | h
    · exact ⟨le_refl _, Nat.lt_add_of_pos_right (Nat.succ_pos _)⟩
    · obtain ⟨hge, hlt⟩ := ih h
      omega

theorem length_quotientCells (n : Nat) (leading : Bool) (index : Nat) (cs : List Char) :
    (quotientCells n leading index cs).length =
      cs.length + if index ≤ n ∧ n < index + cs.length then 1 else 0 := by
  induction cs generalizing leading index with
  | nil =>
    rw [quotientCells, if_neg (by simp)]
    rfl
  | cons c cs ih =>
    rw [quotientCells]
    by_cases hpoint : (index : Int) = n
    · simp only [hpoint, if_true, List.length_cons, ih]
      rw [if_neg (by omega), if_pos (by omega)]
    · simp only [hpoint, if_false, List.length_cons, ih]
      split <;> split <;> omega

namespace Work

/-- The quotient written so far ends in the column of its last digit. -/
theorem length_quotientRow (w : Work) {cs : List Char} {index : Nat} (h : cs.length = index + 1) :
    (w.quotientRow cs).length = w.column index + 1 := by
  rw [quotientRow, Division.quotientRow, List.length_append, List.length_replicate,
    length_quotientCells, h, column]
  split <;> split <;> omega

theorem column_lt_length_bracket (w : Work) {index : Nat}
    (h : index < w.moved.integer.length + w.fraction.length) : w.column index < w.bracket.length := by
  unfold column bracket offset
  by_cases hnil : w.fraction = []
  · simp only [hnil, List.length_nil, Nat.add_zero] at h
    rw [if_neg (by omega)]
    simp [hnil, Digits.length_text]
    omega
  · have hempty : w.fraction.isEmpty = false := by simpa using hnil
    simp only [hempty, Bool.false_eq_true, if_false, List.length_append, List.length_cons,
      Digits.length_text]
    split <;> omega

theorem fits_lineDraft (w : Work) {l : Line} (hl : l ∈ w.lines) : (w.lineDraft l).layout.Fits := by
  have hindex : l.index < w.moved.integer.length + w.fraction.length := by
    have hlt := (index_of_mem_trace hl).2
    rw [List.length_append] at hlt
    omega
  have hcount : (quotientChars (w.lines.take (l.index + 1))).length = l.index + 1 := by
    have hlines : w.lines.length = w.moved.integer.length + w.fraction.length := by
      rw [lines, length_trace, List.length_append]
    rw [quotientChars, List.length_map, List.length_take, hlines]
    omega
  refine ⟨?_, by simp [lineDraft], by simp [lineDraft]⟩
  intro hs hhs h hh
  obtain rfl := Option.some.inj hhs
  simp only [List.mem_cons, List.not_mem_nil, or_false] at hh
  rcases hh with rfl | rfl
  · refine ⟨_, rfl, ?_⟩
    rw [w.length_quotientRow hcount]
    exact Nat.lt_succ_self _
  · exact ⟨_, rfl, w.column_lt_length_bracket hindex⟩

theorem fits_of_mem_drafts (w : Work) {answer : String} {d : Draft} (hd : d ∈ w.drafts answer) :
    d.layout.Fits := by
  simp only [drafts, List.cons_append, List.mem_cons, List.mem_append, List.mem_map,
    List.mem_filter, List.not_mem_nil, or_false] at hd
  rcases hd with rfl | (hd | ⟨l, ⟨hl, -⟩, rfl⟩) | rfl
  · exact Layout.fits_rows _
  · split at hd
    · simp at hd
    · obtain rfl := List.mem_singleton.1 hd
      exact Layout.fits_rows _
  · exact w.fits_lineDraft hl
  · exact Layout.fits_rows _

end Work

end Division

/-! ## Main result -/

theorem Problem.fits_of_mem_drafts {p : Problem} {d : Draft} (hd : d ∈ p.drafts) :
    d.layout.Fits := by
  cases p with
  | negation value =>
    obtain rfl := List.mem_singleton.1 hd
    exact Layout.fits_rows _
  | binary op left right =>
    cases op with
    | addition =>
      simp only [Problem.drafts] at hd
      exact Column.fits_of_mem_drafts hd
    | subtraction =>
      simp only [Problem.drafts] at hd
      split at hd
      · exact Column.fits_of_mem_drafts hd
      · exact Column.fits_of_mem_drafts hd
    | multiplication => exact Multiplication.fits_of_mem_drafts hd
    | division => exact Division.Work.fits_of_mem_drafts _ hd
    | percentage =>
      simp only [Problem.drafts, percentageDrafts, List.mem_cons, List.not_mem_nil, or_false] at hd
      rcases hd with rfl | rfl
      · exact Layout.fits_rows _
      · exact Layout.fits_rows _

theorem Problem.wellFormed_steps (p : Problem) : Step.WellFormed p.steps :=
  Step.wellFormed_ofDrafts _ _ _ fun _ hd => fits_of_mem_drafts hd

theorem ExpressionTask.wellFormed_steps {t : ExpressionTask} {steps : List Step}
    (h : t.steps = .ok steps) : Step.WellFormed steps := by
  cases t with
  | problem p =>
    obtain rfl := Except.ok.inj h
    exact p.wellFormed_steps
  | numeral x =>
    simp only [ExpressionTask.steps, numeralSteps] at h
    cases hvalue : Number.ofValue (Double.exact x) with
    | error e =>
      rw [hvalue] at h
      cases h
    | ok result =>
      rw [hvalue] at h
      obtain rfl := Except.ok.inj h
      refine Step.wellFormed_ofDrafts _ _ _ fun d hd => ?_
      obtain rfl := List.mem_singleton.1 hd
      exact Layout.fits_rows _

/-- **Every page is well formed**, of every operation with operands that have steps, and of every
expression that has steps. -/
theorem pages_well_formed :
    (∀ name left right p, Problem.ofTask name left right = .ok p → Step.WellFormed p.steps) ∧
      ∀ parsed task steps, ParseResult.task parsed = .ok task → task.steps = .ok steps →
        Step.WellFormed steps :=
  ⟨fun _ _ _ p _ => p.wellFormed_steps, fun _ _ _ _ h => ExpressionTask.wellFormed_steps h⟩

/-- A subtraction whose borrows pass through a zero, and an expression with a product that carries out
of its first digit. -/
theorem pages_well_formed_borrowed :
    (∃ p, Problem.ofTask (.written "-") (.number (.int 502)) (some (.number (.int 398))) = .ok p ∧
      Step.WellFormed p.steps) ∧
      ∃ task steps, ParseResult.task (.valid [⟨.number, "75", 0⟩, ⟨.operator, "×", 2⟩,
          ⟨.number, "8", 3⟩] (.int 600)) = .ok task ∧
        task.steps = .ok steps ∧ Step.WellFormed steps := by
  constructor
  · have hl : (Number.int 502).Denotes ⟨false, 502, 0⟩ :=
      ⟨rfl, fun i h => by cases h; decide +kernel⟩
    have hr : (Number.int 398).Denotes ⟨false, 398, 0⟩ :=
      ⟨rfl, fun i h => by cases h; decide +kernel⟩
    have hname : (OperationName.written "-").resolve true = .ok (.binary .subtraction) := rfl
    have htask := Problem.ofTask_binary hname (by decide) hl hr (Decimal.toRat_mk_nonneg _ _)
      (Decimal.toRat_mk_nonneg _ _) (by simp)
    exact ⟨_, htask, pages_well_formed.1 _ _ _ _ htask⟩
  · have hsome : ((ParseResult.task (.valid [⟨.number, "75", 0⟩, ⟨.operator, "×", 2⟩,
        ⟨.number, "8", 3⟩] (.int 600))).toOption.bind fun task => task.steps.toOption).isSome =
          true := by
      decide +kernel
    obtain ⟨steps, hsteps⟩ := Option.isSome_iff_exists.1 hsome
    obtain ⟨task, htask, hsteps⟩ := Option.bind_eq_some_iff.1 hsteps
    exact ⟨task, steps, eq_ok_of_toOption htask, eq_ok_of_toOption hsteps,
      pages_well_formed.2 _ _ _ (eq_ok_of_toOption htask) (eq_ok_of_toOption hsteps)⟩

end Longhand
