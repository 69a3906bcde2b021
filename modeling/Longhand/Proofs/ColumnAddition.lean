import Longhand.Proofs.ColumnPass
import Longhand.Proofs.Operands
/-!
# Column addition is exact

The sum on the last page of an addition is the sum of the operands, whatever their widths. On the way
there every digit column is added once, from right to left, and the carries form one chain: what
goes out of a column comes into the next one, and what goes out of the last one is written in column
0.
-/

namespace Longhand.Column

def addends (d v : Decimal) : Alignment :=
  ⟨d.numeral, v.numeral⟩

def additionPass (d v : Decimal) : List Entry :=
  passAll carryRule (addends d v)

/-- The carries of some columns: from which column, to which one, and how much. -/
def carried (es : List Entry) : List (Nat × Nat × Int) :=
  (es.filter fun e => e.outgoing ≠ 0).map fun e => (e.column, e.next, e.outgoing)

/-- The carries on a page, without their descriptions. -/
def carriesShown (l : Layout) : Option (List (Nat × Nat × Int)) :=
  l.carries.map (List.map fun t => (t.fromColumn, t.toColumn, t.value))

/-- A step that adds a column. `done` are the columns so far, this one included. -/
structure AddsColumn (done : List Entry) (e : Entry) (s : Step) : Prop where
  entry : ShowsEntry e s.layout
  carries : carriesShown s.layout = some (carried done)
  explanation : s.explanation = (narrateAddition e).explanation

/-- A last row that shows a number without needless zeros before its ones. -/
structure ShowsAnswer (l : Layout) (x : Decimal) (n : Numeral) : Prop where
  text : l.rows.getLast?.map Row.compact = some n.text
  number : l.numbers.getLast? = some (some n.toDecimal)
  toRat_eq : n.toDecimal.toRat = x.toRat
  leading : n.integer = [0] ∨ ∃ digit rest, n.integer = digit :: rest ∧ digit ≠ 0

/-- The pass over the columns of an addition. -/
structure ExactPass (d v : Decimal) (es : List Entry) : Prop where
  /-- Every digit column once, from right to left. -/
  columns : es.map (·.column) =
    ((List.range (addends d v).width).filter fun c =>
      c ≠ 0 ∧ (addends d v).pointColumn? ≠ some c).reverse
  /-- The digits of the operands at the place of the column. -/
  operands : ∀ e ∈ es, e.top = d.digitAt ((addends d v).exponent e.column) ∧
    e.bottom = v.digitAt ((addends d v).exponent e.column)
  /-- A digit and a carry that make up the sum of the column. -/
  digits : ∀ e ∈ es, 0 ≤ e.digit ∧ e.digit ≤ 9 ∧ (e.outgoing = 0 ∨ e.outgoing = 1) ∧
    e.digit + 10 * e.outgoing = e.top + e.bottom + e.incoming
  /-- What comes in is what went out of the column before. -/
  chain : es.map (·.incoming) = (0 :: es.map (·.outgoing)).dropLast
  /-- What goes out goes to the digit column to the left, and from the last one to column 0. -/
  next : es.map (·.next) = (es.map Entry.column ++ [0]).tail

/-- The pages of an addition: one for the set-up, one for each column, and one for the answer. -/
structure ExactPages (d v : Decimal) (first : Step) (shown : List Step) (last : Step) : Prop where
  length_eq : shown.length = (additionPass d v).length
  addsColumn : ∀ i (hi : i < (additionPass d v).length), ∃ s, shown[i]? = some s ∧
    AddsColumn ((additionPass d v).take (i + 1)) (additionPass d v)[i] s
  carries : carriesShown last.layout = some (carried (additionPass d v))
  answer : ∃ n, ShowsAnswer last.layout (d + v) n

/-- An addition that is exact on the page, with the operands on every page. -/
structure ExactSum (d v : Decimal) (steps : List Step) : Prop where
  pass : ExactPass d v (additionPass d v)
  operands : ∀ s ∈ steps, ∃ top bottom : Decimal,
    s.layout.numbers.take 2 = [some top, some bottom] ∧ top.toRat = d.toRat ∧
      bottom.toRat = v.toRat
  pages : ∃ (first : Step) (shown : List Step) (last : Step),
    steps = first :: (shown ++ [last]) ∧ ExactPages d v first shown last

theorem run_addition (d v : Decimal) :
    Run .addition 0 (addends d v).columns.reverse (additionPass d v)
      (outgoing .addition 0 (addends d v).columns.reverse) :=
  run_pass .addition (.inl rfl) _

theorem addends_integerWidth (d v : Decimal) : (addends d v).integerWidth ≠ 0 := by
  have hne : d.numeral.integer.length ≠ 0 := by
    simpa using d.numeral_integer_ne_nil
  have hle := (addends d v).holds_top.integer_le
  exact fun h => hne (Nat.le_zero.1 (h ▸ hle))

theorem carriesShown_page (a : Alignment) (rows : List Row) (highlights : Option (List Highlight))
    (es : List Entry) :
    carriesShown (page .addition rows highlights
      (es.foldl (Progress.write .addition a) (Progress.start a)).transfers).squared =
        some (carried es) := by
  rw [Progress.transfers_foldl]
  simp only [carriesShown, page, Layout.squared, Option.map_some, Option.some.injEq]
  exact List.map_map

theorem addsColumn_of_shows {d v : Decimal} {i : Nat} (hi : i < (additionPass d v).length)
    {s : Step}
    (hs : s.Shows (columnDraft .addition (addends d v)
      (((additionPass d v).take (i + 1)).foldl (Progress.write .addition (addends d v))
        (Progress.start (addends d v))) (additionPass d v)[i])) :
    AddsColumn ((additionPass d v).take (i + 1)) (additionPass d v)[i] s := by
  refine ⟨(run_addition d v).showsEntry_take hi hs, ?_, hs.explanation⟩
  rw [hs.layout]
  exact carriesShown_page _ _ _ _

/-- The answer of an addition. -/
theorem showsAnswer_of_rows {d v : Decimal} (hd : 0 ≤ d.toRat) (hv : 0 ≤ v.toRat) {l : Layout}
    {before : List Row}
    (hl : l.rows = before ++ [answerRow (addends d v) false
      (Progress.finish .addition (addends d v)).cells]) :
    ∃ n, ShowsAnswer l.squared (d + v) n := by
  have hrun := run_addition d v
  have hcompact : Row.compact (answerRow (addends d v) false
      (Progress.finish .addition (addends d v)).cells) = (answerNumeral _ _ _).text :=
    hrun.compact_answerRow (addends_integerWidth d v)
  have hinteger := answerNumeral_integer (addends d v)
    (outgoing .addition 0 (addends d v).columns.reverse) (additionPass d v)
  have hexact := hrun.toRat_answerNumeral (.inl rfl)
  refine ⟨_, ?_, ?_, hexact.trans ?_, hinteger⟩
  · simp [Layout.squared, hl, Row.compact_padEnd, hcompact]
  · have hne : (answerNumeral (addends d v) (outgoing .addition 0 (addends d v).columns.reverse)
        (additionPass d v)).integer ≠ [] := by
      rcases hinteger with h | ⟨x, rest, h, -⟩ <;> simp [h]
    rw [Layout.numbers_squared, Layout.numbers, hl]
    simp [Row.number?, hcompact, Numeral.read?_text hne]
  · rw [Decimal.toRat_add]
    simp [addends, Method.sign, Decimal.toRat_numeral_of_nonneg hd, Decimal.toRat_numeral_of_nonneg hv]

theorem exactPass_additionPass {d v : Decimal} (hd : 0 ≤ d.toRat) (hv : 0 ≤ v.toRat) :
    ExactPass d v (additionPass d v) := by
  have hrun := run_addition d v
  have htop : d.toRat = (addends d v).top.toRat := (Decimal.toRat_numeral_of_nonneg hd).symm
  have hbottom : v.toRat = (addends d v).bottom.toRat := (Decimal.toRat_numeral_of_nonneg hv).symm
  refine ⟨?_, ?_, ?_, ?_, ?_⟩
  · rw [hrun.column_eq, (addends d v).columnIndices_eq]
  · exact hrun.operands_eq htop hbottom
  · intro e he
    obtain ⟨hdigit, houtgoing, htotal⟩ := hrun.settles he
    simp only [Method.sign] at htotal
    exact ⟨hdigit.1, by omega, houtgoing, by omega⟩
  · rw [← hrun.map_incoming, List.dropLast_concat]
  · rw [hrun.map_next, hrun.map_column]

section

variable {d v : Decimal} (hd : 0 ≤ d.toRat) (hv : 0 ≤ v.toRat) {answer : String}
  {steps : List Step}
  (hshows : List.Forall₂ Step.Shows steps (drafts .addition (addends d v) none answer))

include hd hv hshows

theorem operands_of_shows {s : Step} (hs : s ∈ steps) :
    ∃ top bottom : Decimal, s.layout.numbers.take 2 = [some top, some bottom] ∧
      top.toRat = d.toRat ∧ bottom.toRat = v.toRat := by
  refine ⟨_, _, numbers_of_shows d.numeral_integer_ne_nil v.numeral_integer_ne_nil hshows hs,
    Decimal.toRat_numeral_of_nonneg hd, ?_⟩
  rw [Method.toRat_signed, Method.sign, Int.cast_one, one_mul]
  exact Decimal.toRat_numeral_of_nonneg hv

theorem exactPages_of_shows :
    ∃ (first : Step) (shown : List Step) (last : Step),
      steps = first :: (shown ++ [last]) ∧ ExactPages d v first shown last := by
  obtain ⟨first, shown, last, hsteps, -, hlen, hshown, hlast⟩ := pages_of_shows hshows
  refine ⟨first, shown, last, hsteps, hlen, ?_, ?_, ?_⟩
  · intro i hi
    obtain ⟨s, hs, hshow⟩ := hshown i hi
    exact ⟨s, hs, addsColumn_of_shows hi hshow⟩
  · rw [hlast]
    exact carriesShown_page _ _ _ _
  · rw [hlast]
    exact showsAnswer_of_rows hd hv (page_rows ..)

end

/-- **Column addition is exact.** Two operands that are not negative have steps, in which every
column is added once with the carry of the column before it, and the last row shows the sum. -/
theorem column_addition_exact {left right : Number} {d v : Decimal} (hl : left.Denotes d)
    (hr : right.Denotes v) (hd : 0 ≤ d.toRat) (hv : 0 ≤ v.toRat) :
    ∃ p, Problem.ofTask (.written "+") (.number left) (some (.number right)) = .ok p ∧
      ExactSum d v p.steps := by
  refine ⟨_, Problem.ofTask_binary rfl (by decide) hl hr hd hv (by simp), ?_⟩
  generalize hp : Problem.binary .addition hl.term hr.term = p
  have hdrafts : p.drafts = drafts .addition (addends d v) none (Problem.plain p.result) := by
    rw [← hp]
    rfl
  have hshows := Step.ofDrafts_shows p.operation p.operands p.result p.drafts
  rw [hdrafts] at hshows
  refine ⟨exactPass_additionPass hd hv, ?_, ?_⟩
  · intro s hs
    rw [Problem.steps, hdrafts] at hs
    exact operands_of_shows hd hv hshows hs
  · rw [Problem.steps, hdrafts]
    exact exactPages_of_shows hd hv hshows

/-- A sum with a fraction on one side only, a carry across the point and one out of the last
column. -/
theorem column_addition_exact_ninety_nine :
    (Number.float 99.5).Denotes ⟨false, 995, -1⟩ ∧ (Number.float 0.75).Denotes ⟨false, 75, -2⟩ ∧
      0 ≤ (⟨false, 995, -1⟩ : Decimal).toRat ∧ 0 ≤ (⟨false, 75, -2⟩ : Decimal).toRat ∧
      ∃ p, Problem.ofTask (.written "+") (.number (.float 99.5)) (some (.number (.float 0.75))) =
          .ok p ∧
        ExactSum ⟨false, 995, -1⟩ ⟨false, 75, -2⟩ p.steps := by
  have hl : (Number.float 99.5).Denotes ⟨false, 995, -1⟩ :=
    ⟨by decide +kernel, fun i h => by cases h⟩
  have hr : (Number.float 0.75).Denotes ⟨false, 75, -2⟩ :=
    ⟨by decide +kernel, fun i h => by cases h⟩
  have hd : 0 ≤ (⟨false, 995, -1⟩ : Decimal).toRat := by
    rw [Decimal.toRat_mk]; norm_num
  have hv : 0 ≤ (⟨false, 75, -2⟩ : Decimal).toRat := by
    rw [Decimal.toRat_mk]; norm_num
  exact ⟨hl, hr, hd, hv, column_addition_exact hl hr hd hv⟩

end Longhand.Column
