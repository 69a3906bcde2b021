import Longhand.Proofs.ColumnAddition
import Longhand.Proofs.ColumnSubtraction
import Longhand.Proofs.ExactCalculation
import Longhand.Proofs.LongMultiplication
/-!
# Place names tell the truth

A digit is spoken of by the name of its place. Addition and subtraction find the name from the
column of the digit, long multiplication by counting from the end of the multiplier; both come to
the name that belongs to the power of ten: `Alignment.place_eq_name`,
`Multiplication.multiplierPlace_eq_name`.

What is said at a column comes out the same from any names that are true of the digit columns
(`Column.words_eq`). So neither column 0 nor the column of the point is ever asked for a name.
-/

namespace Longhand

namespace Place

/-- The powers of ten whose places have names. -/
def names : List (Int × String) :=
  [(0, "ones"), (1, "tens"), (2, "hundreds"), (3, "thousands"), (4, "ten-thousands"),
    (5, "hundred-thousands"), (6, "millions"),
    (-1, "tenths"), (-2, "hundredths"), (-3, "thousandths"), (-4, "ten-thousandths")]

def name (exponent : Int) : String :=
  (names.lookup exponent).getD "column"

/-- Beyond the named powers of ten there is no name. -/
theorem name_of_not_mem {k : Int} (h : k ∉ names.map Prod.fst) : name k = "column" := by
  have hnone : names.lookup k = none := by
    rw [List.lookup_eq_none_iff]
    intro p hp
    rw [bne_iff_ne]
    rintro rfl
    exact h (List.mem_map_of_mem hp)
  rw [name, hnone, Option.getD_none]

theorem integer_eq_name (n : Nat) : integer n = name n := by
  by_cases hn : n < 7
  · interval_cases n <;> rfl
  · have hlen : integerNames.length ≤ n := not_lt.1 hn
    rw [integer, List.getElem?_eq_none hlen, name_of_not_mem]
    · rfl
    · simp [names]
      omega

theorem fraction_eq_name (n : Nat) : fraction n = name (-(n + 1)) := by
  by_cases hn : n < 4
  · interval_cases n <;> rfl
  · have hlen : fractionNames.length ≤ n := not_lt.1 hn
    rw [fraction, List.getElem?_eq_none hlen, name_of_not_mem]
    · rfl
    · simp [names]
      omega

end Place

namespace Alignment

variable {a : Alignment} {c : Nat}

/-- A digit column is called by the name of its power of ten. -/
theorem place_eq_name (hc : c ∈ a.columnIndices) : a.place c = Place.name (a.exponent c) := by
  rw [columnIndices, List.mem_append, List.mem_range'_1, List.mem_range'_1] at hc
  unfold place exponent
  split
  · rename_i hle
    rw [Place.integer_eq_name, Int.ofNat_sub hle]
  · rw [Place.fraction_eq_name]
    congr 1
    omega

/-- Names for the columns that are true of the digit columns. Column 0 and the column of the point
may have any name. -/
def Named (a : Alignment) (name : Nat → String) : Prop :=
  ∀ c < a.width, c ≠ 0 → a.pointColumn? ≠ some c → name c = Place.name (a.exponent c)

theorem Named.eq_of_mem {name : Nat → String} (h : a.Named name) (hc : c ∈ a.columnIndices) :
    name c = Place.name (a.exponent c) := by
  rw [a.columnIndices_eq, List.mem_filter, List.mem_range, decide_eq_true_eq] at hc
  exact h c hc.1 hc.2.1 hc.2.2

theorem named_place (a : Alignment) : a.Named a.place := by
  intro c hlt hpos hpoint
  apply place_eq_name
  rw [a.columnIndices_eq, List.mem_filter, List.mem_range, decide_eq_true_eq]
  exact ⟨hlt, hpos, hpoint⟩

end Alignment

/-! ## Columns -/

namespace Column

/-- What is said at a column, and the carry or borrow that is drawn there. -/
structure Words where
  description : String
  narration : Narration
  transfer? : Option Transfer

/-- What is said at a column of an addition, with names for the columns. -/
def additionWords (name : Nat → String) (e : Entry) : Words :=
  let here := name e.column
  let place := name e.next
  let target := if e.next = 0 then "the next column" else s!"the {place} column"
  let carried := shown e.outgoing
  { description := s!"Add the {here} column"
    narration := narrateAddition e
    transfer? :=
      if e.outgoing = 0 then none
      else some ⟨e.column, e.next, e.outgoing, s!"Carry {carried} to {target}"⟩ }

/-- What is said at a column of a subtraction, with names for the columns. -/
def subtractionWords (name : Nat → String) (e : Entry) : Words :=
  let here := name e.column
  let place := name e.next
  let available := e.top - e.incoming
  let bottom := shown e.bottom
  let digit := shown e.digit
  let lent := shown e.top ++ " - 1 (lent) = " ++ shown available
  let top := if e.incoming = 0 then shown e.top else lent
  let taken := if e.outgoing = 0 then available else available + 10
  let difference := shown taken ++ s!" - {bottom} = {digit}"
  { description := s!"Subtract the {here} column"
    narration :=
      { source := difference
        target := s!"Write {digit}"
        explanation :=
          if e.outgoing ≠ 0 then
            s!"{top} is smaller than {bottom}, so borrow 1 from the {place} column: {difference}."
          else if e.incoming ≠ 0 then s!"{top}; {difference}."
          else s!"{difference}." }
    transfer? :=
      if e.outgoing = 0 then none
      else some ⟨e.next, e.column, 1, s!"Borrow 1 from the {place} column"⟩ }

def words (m : Method) (name : Nat → String) (e : Entry) : Words :=
  match m with
  | .addition => additionWords name e
  | .subtraction => subtractionWords name e

/-- The carries or borrows of some columns, with names for the columns. -/
def sent (m : Method) (name : Nat → String) (es : List Entry) : List Transfer :=
  es.filterMap fun e => (words m name e).transfer?

def transfersShown (l : Layout) : List Transfer :=
  l.carries.getD [] ++ l.borrows.getD []

/-- The step says this at a column, in its texts and at the cells. -/
structure Says (w : Words) (column : Nat) (s : Step) : Prop where
  description : s.description = w.description
  explanation : s.explanation = w.narration.explanation
  highlights : s.layout.highlights =
    some [⟨0, column, sourceColor, w.narration.source⟩, ⟨1, column, sourceColor, ""⟩,
      ⟨3, column, targetColor, w.narration.target⟩]

/-- The steps of an addition or subtraction, of two numbers with a result, tell the truth about the
places. -/
structure TellsPlaces (m : Method) (a : Alignment) (x y z : Decimal) (es : List Entry)
    (steps : List Step) : Prop where
  /-- Every digit column is worked, and no other. -/
  columns : es.map (·.column) =
    ((List.range a.width).filter fun c => c ≠ 0 ∧ a.pointColumn? ≠ some c).reverse
  /-- The digits in a column are those of the numbers at its power of ten. -/
  digits : ∀ e ∈ es, e.top = x.digitAt (a.exponent e.column) ∧
    e.bottom = y.digitAt (a.exponent e.column) ∧ e.digit = z.digitAt (a.exponent e.column)
  /-- A carry goes to the digit column of the next power of ten, or to column 0 if there is none. -/
  next : ∀ e ∈ es, e.next ≠ 0 →
    e.next < a.width ∧ a.pointColumn? ≠ some e.next ∧ a.exponent e.next = a.exponent e.column + 1
  /-- A borrow always comes from a digit column. -/
  borrow : m = .subtraction → ∀ e ∈ es, e.outgoing ≠ 0 → e.next ≠ 0
  /-- Any true names of the digit columns make what is said. -/
  pages : ∃ (first : Step) (shown : List Step) (last : Step),
    steps = first :: (shown ++ [last]) ∧ shown.length = es.length ∧
    transfersShown first.layout = [] ∧
    (∀ i (hi : i < es.length), ∃ s, shown[i]? = some s ∧ ShowsEntry es[i] s.layout ∧
      ∀ name, a.Named name → Says (words m name es[i]) es[i].column s ∧
        transfersShown s.layout = sent m name (es.take (i + 1))) ∧
    ∀ name, a.Named name → transfersShown last.layout = sent m name es

section

variable {m : Method} {a : Alignment} {last : Int} {es : List Entry} {f g : Nat → String}
  (h : Run m 0 a.columns.reverse es last) (hlast : m = .addition ∨ last = 0)

include h hlast

/-- **Only digit columns are asked for their names**: true names for these make the words. -/
theorem words_eq (hf : a.Named f) (hg : a.Named g) {e : Entry} (he : e ∈ es) :
    words m f e = words m g e := by
  have hmem := h.column_mem he
  have hhere : f e.column = g e.column := by
    rw [hf.eq_of_mem hmem, hg.eq_of_mem hmem]
  rcases h.last_or_next he with hend | ⟨hnext, -⟩
  · -- the last column sends to column 0, and in a subtraction it sends nothing
    have hzero := h.next_getLast hend
    have hout := h.outgoing_getLast hend
    cases m with
    | addition => simp [words, additionWords, hhere, hzero]
    | subtraction =>
      have hnone : e.outgoing = 0 := hout.trans (hlast.resolve_left (by decide))
      simp [words, subtractionWords, hhere, hnone]
  · have hthere : f e.next = g e.next := by
      rw [hf.eq_of_mem hnext, hg.eq_of_mem hnext]
    cases m with
    | addition => simp only [words, additionWords, hhere, hthere]
    | subtraction => simp only [words, subtractionWords, hhere, hthere]

theorem sent_eq (hf : a.Named f) (hg : a.Named g) {done : List Entry} (hdone : ∀ e ∈ done, e ∈ es) :
    sent m f done = sent m g done := by
  apply List.filterMap_congr
  intro e he
  rw [words_eq h hlast hf hg (hdone e he)]

end

/-- The page of a column says what the names of the places make. -/
theorem columnDraft_words (m : Method) (a : Alignment) (p : Progress) (e : Entry) :
    (columnDraft m a p e).description = (words m a.place e).description ∧
      narrate m a e = (words m a.place e).narration ∧
      (words m a.place e).transfer? =
        if e.outgoing = 0 then none else some (transfer m a e) := by
  cases m <;> exact ⟨rfl, rfl, rfl⟩

/-- The carries or borrows so far are those of the columns so far. -/
theorem transfersShown_page (m : Method) (a : Alignment) (rows : List Row)
    (highlights : Option (List Highlight)) (es : List Entry) :
    transfersShown (page m rows highlights
        (es.foldl (Progress.write m a) (Progress.start a)).transfers).squared =
      sent m a.place es := by
  have hsent : sent m a.place es = (es.filter fun e => e.outgoing ≠ 0).map (transfer m a) := by
    induction es with
    | nil => rfl
    | cons e es ih =>
      have htransfer := (columnDraft_words m a (Progress.start a) e).2.2
      rw [sent] at ih ⊢
      rw [List.filterMap_cons, htransfer, ih]
      by_cases hout : e.outgoing = 0 <;> simp [hout]
  rw [Progress.transfers_foldl, hsent]
  cases m <;> simp [transfersShown, page, Layout.squared, Progress.start]

/-- The pages of a run tell the truth about the places. -/
theorem tellsPlaces_of_shows {m : Method} {a : Alignment} {last : Int}
    (h : Run m 0 a.columns.reverse (passAll m.rule a) last) (hlast : m = .addition ∨ last = 0)
    {x y z : Decimal} (hx : x.toRat = a.top.toRat) (hy : y.toRat = a.bottom.toRat)
    (hz : z.toRat = a.top.toRat + m.sign * a.bottom.toRat)
    {exchanged : Option (String × String)} {answer : String} {steps : List Step}
    (hshows : List.Forall₂ Step.Shows steps (drafts m a exchanged answer)) :
    TellsPlaces m a x y z (passAll m.rule a) steps := by
  refine ⟨?_, ?_, ?_, ?_, ?_⟩
  · rw [h.column_eq, a.columnIndices_eq]
  · intro e he
    obtain ⟨htop, hbottom⟩ := h.operands_eq hx hy e he
    exact ⟨htop, hbottom, h.digit_eq hlast hz e he⟩
  · intro e he hne
    rcases h.last_or_next he with hend | ⟨hnext, hplace⟩
    · exact absurd (h.next_getLast hend) hne
    · rw [a.columnIndices_eq, List.mem_filter, List.mem_range, decide_eq_true_eq] at hnext
      exact ⟨hnext.1, hnext.2.2, hplace⟩
  · rintro rfl e he hout
    rcases h.last_or_next he with hend | ⟨hnext, -⟩
    · exact absurd ((h.outgoing_getLast hend).trans (hlast.resolve_left (by decide))) hout
    · exact (a.mem_columnIndices hnext).1
  · obtain ⟨first, shown, final, hsteps, hfirst, hlen, hshown, hfinal⟩ := pages_of_shows hshows
    refine ⟨first, shown, final, hsteps, hlen, ?_, ?_, ?_⟩
    · rw [hfirst]
      rfl
    · intro i hi
      obtain ⟨s, hs, hshow⟩ := hshown i hi
      refine ⟨s, hs, h.showsEntry_take hi hshow, fun name hname => ⟨?_, ?_⟩⟩
      · obtain ⟨hdescription, hnarration, -⟩ := columnDraft_words m a
          (((passAll m.rule a).take (i + 1)).foldl (Progress.write m a) (Progress.start a))
          (passAll m.rule a)[i]
        rw [words_eq h hlast hname a.named_place (List.getElem_mem hi)]
        refine ⟨?_, ?_, ?_⟩
        · rw [hshow.description, hdescription]
        · rw [hshow.explanation, ← hnarration]
          rfl
        · rw [hshow.layout, ← hnarration]
          exact page_highlights ..
      · rw [sent_eq h hlast hname a.named_place fun e he => List.mem_of_mem_take he, hshow.layout]
        exact transfersShown_page m a _ _ _
    · intro name hname
      rw [sent_eq h hlast hname a.named_place fun e he => he, hfinal]
      exact transfersShown_page m a _ _ _

end Column

/-! ## Partial products -/

namespace Multiplication

/-- What is said to be done with a digit of the multiplier, with a name for its place. -/
def partialDescription (left : Numeral) (place : String) (p : Partial) : String :=
  let factor := String.ofList left.text
  let digit := digitText p.digit
  s!"Multiply {factor} by the {place} digit {digit}"

/-- What is said about the product with a digit that stands `shift` places before the end of the
multiplier, with a name for its place. -/
def partialExplanation (left : Numeral) (place : String) (shift : Nat) (p : Partial) : String :=
  let factor := String.ofList left.text
  let digit := digitText p.digit
  let product := digitsText p.product
  let shifted := digitsText p.shifted
  let zeros := plural shift "zero"
  let note := s!" The {digit} is in the {place} place, so write the product followed by " ++
    s!"{zeros}: {shifted}."
  s!"{factor} × {digit} = {product}." ++
    if shift ≠ 0 ∧ Digits.value p.product ≠ 0 then note else ""

def exponent (right : Numeral) (shift : Nat) : Int :=
  (shift : Int) - right.fraction.length

/-- The step for the digit that stands `shift` places before the end of the multiplier. -/
structure NamesPlace (d v : Decimal) (shift : Nat) (p : Partial) (s : Step) : Prop where
  /-- The digit is the one that the multiplier has at the power of ten. -/
  digit : (p.digit.val : Int) = v.digitAt (exponent v.numeral shift)
  description : s.description =
    partialDescription d.numeral (Place.name (exponent v.numeral shift)) p
  explanation : s.explanation =
    partialExplanation d.numeral (Place.name (exponent v.numeral shift)) shift p

/-- The steps of a multiplication tell the truth about the places. -/
structure TellsPlaces (d v : Decimal) (steps : List Step) : Prop where
  length_eq : (partials d.numeral v.numeral).length = v.numeral.scaled.length
  pages : ∃ (first : Step) (shown : List Step) (last : Step), steps = first :: (shown ++ [last]) ∧
    shown.length = v.numeral.scaled.length ∧
    ∀ shift p, (partials d.numeral v.numeral)[shift]? = some p →
      ∃ s, shown[shift]? = some s ∧ NamesPlace d v shift p s

/-- The place of a digit of the multiplier is called by the name of its power of ten. -/
theorem multiplierPlace_eq_name (right : Numeral) (shift : Nat) :
    multiplierPlace right shift = Place.name (exponent right shift) := by
  unfold multiplierPlace exponent
  split
  · rw [Place.fraction_eq_name]
    congr 1
    omega
  · rename_i hge
    rw [Place.integer_eq_name, Int.ofNat_sub (not_lt.1 hge)]

theorem namesPlace_of_shows {d v : Decimal} (hv : 0 ≤ v.toRat) {width shift : Nat} {rows : List Row}
    {p : Partial} (hp : (partials d.numeral v.numeral)[shift]? = some p) {s : Step}
    (hs : s.Shows (partialDraft width d.numeral v.numeral rows shift p)) :
    NamesPlace d v shift p s := by
  have hplace := multiplierPlace_eq_name v.numeral shift
  refine ⟨?_, ?_, ?_⟩
  · rw [partials, List.getElem?_mapIdx, Option.map_eq_some_iff] at hp
    obtain ⟨b, hb, rfl⟩ := hp
    exact (Decimal.digitAt_of_spelled (value_scaled_eq hv) hb).symm
  · rw [hs.description, ← hplace]
    rfl
  · rw [hs.explanation, ← hplace]
    rfl

theorem tellsPlaces_of_shows {precision : Nat} {d v : Decimal} (hv : 0 ≤ v.toRat)
    {steps : List Step}
    (hshows : List.Forall₂ Step.Shows steps (drafts precision d.numeral v.numeral)) :
    TellsPlaces d v steps := by
  refine ⟨length_partials _ _, ?_⟩
  obtain ⟨first, others, -, hothers, hsteps⟩ := List.forall₂_cons_right_iff.1 hshows
  obtain ⟨shown, lastStep, rfl, hshown, hlast⟩ := Step.exists_append hothers
  obtain ⟨last, -, rfl⟩ := Step.exists_singleton hlast
  refine ⟨first, shown, last, hsteps, ?_, fun shift p hp => ?_⟩
  · rw [hshown.length_eq, List.length_mapIdx, length_partials]
  · obtain ⟨s, hs, hsd⟩ := Step.exists_getElem hshown (i := shift) (by
      rw [List.getElem?_mapIdx, hp, Option.map_some])
    exact ⟨s, hs, namesPlace_of_shows hv hp hsd⟩

end Multiplication

/-! ## Problems -/

namespace Problem

/-- The steps of a problem tell the truth about the places. The larger number of a subtraction is
the one on top; the other operations have no words for places. -/
def TellsPlaces (p : Problem) : Prop :=
  match p with
  | .binary .addition l r =>
    Column.TellsPlaces .addition (Column.addends l.exact r.exact) l.exact r.exact
      (l.exact + r.exact) (Column.additionPass l.exact r.exact) p.steps
  | .binary .subtraction l r =>
    Column.TellsPlaces .subtraction (Column.terms l.exact r.exact) (Column.larger l.exact r.exact)
      (Column.smaller l.exact r.exact)
      (Column.larger l.exact r.exact - Column.smaller l.exact r.exact)
      (Column.subtractionPass l.exact r.exact) p.steps
  | .binary .multiplication l r => Multiplication.TellsPlaces l.exact r.exact p.steps
  | _ => True

/-- The steps show the pages. -/
theorem shows_steps {p : Problem} {drafts : List Draft} (h : p.drafts = drafts) :
    List.Forall₂ Step.Shows p.steps drafts := by
  rw [← h]
  exact Step.ofDrafts_shows p.operation p.operands p.result p.drafts

variable {l r : Term} (hl : 0 ≤ l.exact.toRat) (hr : 0 ≤ r.exact.toRat)

include hl hr

theorem tellsPlaces_addition : (binary .addition l r).TellsPlaces := by
  have htop := Decimal.toRat_numeral_of_nonneg hl
  have hbottom := Decimal.toRat_numeral_of_nonneg hr
  have hdrafts : (binary .addition l r).drafts =
      Column.drafts .addition (Column.addends l.exact r.exact) none _ := rfl
  refine Column.tellsPlaces_of_shows (Column.run_addition l.exact r.exact) (.inl rfl) htop.symm
    hbottom.symm ?_ (shows_steps hdrafts)
  rw [Decimal.toRat_add]
  simp [Column.addends, Column.Method.sign, htop, hbottom]

theorem tellsPlaces_subtraction : (binary .subtraction l r).TellsPlaces := by
  obtain ⟨exchanged, hdrafts, -⟩ := Column.drafts_subtraction l r
  have htop := Column.toRat_terms_top (v := r.exact) hl
  have hbottom := Column.toRat_terms_bottom hl hr
  rw [← Column.toRat_larger] at htop
  rw [← Column.toRat_smaller] at hbottom
  refine Column.tellsPlaces_of_shows (Column.run_subtraction hl hr) (.inr rfl) htop.symm
    hbottom.symm ?_ (shows_steps hdrafts)
  rw [Decimal.toRat_sub, htop, hbottom]
  simp [Column.Method.sign, sub_eq_add_neg]

end Problem

/-- **Place names tell the truth** on the pages of every problem that is worked. -/
theorem place_names_true {name : OperationName} {left : Operand} {right : Option Operand}
    {p : Problem} (h : Problem.ofTask name left right = .ok p) :
    p.IsPosedBy name left right ∧ p.TellsPlaces := by
  obtain ⟨hposed, hcheck⟩ := Problem.isPosedBy_of_ofTask h
  refine ⟨hposed, ?_⟩
  cases p with
  | negation value => trivial
  | binary op l r =>
    cases op with
    | addition =>
      obtain ⟨hl, hr⟩ := Problem.nonneg_of_check (by decide) hcheck
      exact Problem.tellsPlaces_addition hl hr
    | subtraction =>
      obtain ⟨hl, hr⟩ := Problem.nonneg_of_check (by decide) hcheck
      exact Problem.tellsPlaces_subtraction hl hr
    | multiplication =>
      obtain ⟨-, hr⟩ := Problem.nonneg_of_check (by decide) hcheck
      exact Multiplication.tellsPlaces_of_shows hr (Problem.shows_steps rfl)
    | division => trivial
    | percentage => trivial

/-- Borrows that pass through zeros and the point. -/
theorem place_names_true_hundred :
    ∃ p, Problem.ofTask (.written "-") (.number (.int 100)) (some (.number (.float 99.75))) =
        .ok p ∧
      p.steps.map (·.description) =
        ["Align the numbers vertically", "Subtract the hundredths column",
          "Subtract the tenths column", "Subtract the ones column", "Subtract the tens column",
          "Subtract the hundreds column", "Final answer"] ∧
      p.TellsPlaces := by
  have hl : (Number.int 100).Denotes ⟨false, 100, 0⟩ :=
    ⟨rfl, fun i h => by cases h; decide +kernel⟩
  have hr : (Number.float 99.75).Denotes ⟨false, 9975, -2⟩ :=
    ⟨by decide +kernel, fun i h => by cases h⟩
  have hname : (OperationName.written "-").resolve true = .ok (.binary .subtraction) := rfl
  have htask := Problem.ofTask_binary hname (by decide) hl hr (Decimal.toRat_mk_nonneg _ _)
    (Decimal.toRat_mk_nonneg _ _) (by simp)
  refine ⟨_, htask, ?_, (place_names_true htask).2⟩
  change (Problem.binary .subtraction ⟨.int 100, ⟨false, 100, 0⟩, rfl⟩
    ⟨.float 99.75, ⟨false, 9975, -2⟩, by decide +kernel⟩).steps.map (·.description) = _
  decide +kernel

end Longhand
