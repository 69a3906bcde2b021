import Longhand.Proofs.ExpressionSteps
import Longhand.Proofs.ShortNumerals
/-!
# The numbers that are typed

A numeral of an expression is read as a double before it is laid out, and the page shows the decimal
that this double is written as. So the number on the page is the number typed if any double is
written as that number, and only then; all numbers of at most fifteen digits are that are not too
small. In any case the two numerals are read as one double (`ShownFor`).

Main result, `Expression.typed_numbers_shown`: the operands on the first page of an operation, and
the number on the page of an expression without operators, are so shown for their tokens.
-/

namespace Longhand

/-! ## Doubles of decimals without a sign -/

theorem Decimal.toRat_nonneg {d : Decimal} (h : d.negative = false) : 0 ≤ d.toRat := by
  obtain ⟨_, c, e⟩ := d
  subst h
  exact toRat_mk_nonneg c e

namespace Double

theorem negative_ofParts (negative : Bool) (m : Nat) (q : Int) :
    (ofParts negative m q).negative = negative := by
  unfold ofParts
  split
  · rfl
  · simp only
    split <;> rfl

/-- The double read for a decimal without a sign is written without a sign, or it is an infinity. -/
theorem exact_ofDecimal_cases {d : Decimal} (hd : d.negative = false) :
    exact (ofDecimal d) = .infinity false ∨
      ∃ e, exact (ofDecimal d) = .finite e ∧ e.negative = false := by
  rcases parts_ofDecimal_cases hd with hparts | ⟨m, q, hparts⟩
  · exact .inl (by simp only [exact, hparts])
  · exact .inr ⟨_, exact_of_parts hparts, negative_ofParts false m q⟩

section

variable {d e : Decimal} (hd : d.negative = false) (he : exact (ofDecimal d) = .finite e)

include hd he

theorem negative_exact : e.negative = false := by
  rcases exact_ofDecimal_cases hd with hinfinity | ⟨c, hc, hsign⟩
  · cases he.symm.trans hinfinity
  · cases he.symm.trans hc
    exact hsign

/-- A decimal that denotes what the double is written as becomes the same double. -/
theorem ofDecimal_eq_of_toRat_eq {c : Decimal} (hc : c.negative = false)
    (hvalue : c.toRat = e.toRat) : ofDecimal c = ofDecimal d := by
  by_cases hzero : c.toRat = 0
  · rw [ofDecimal_eq_zero hc hzero, ← ofDecimal_exact he,
      ofDecimal_eq_zero (negative_exact hd he) (hvalue.symm.trans hzero)]
  · obtain ⟨negative, m, q, hparts, -, -⟩ := exists_parts_of_exact he
    exact eq_of_parts ((parts_ofDecimal_exact he hzero hvalue).trans hparts) hparts

/-- **The double is written as the decimal if any double is.** -/
theorem toRat_exact_eq_iff :
    e.toRat = d.toRat ↔ ∃ y : Float, (Number.float y).IsWritten d.toRat := by
  constructor
  · intro heq
    exact ⟨_, e, he, heq⟩
  · rintro ⟨y, c, hc, hvalue⟩
    by_cases hzero : d.toRat = 0
    · have hexact : exact 0 = .finite ⟨false, 0, -1⟩ := by decide +kernel
      rw [ofDecimal_eq_zero hd hzero, hexact] at he
      obtain rfl := DecimalValue.finite.inj he
      simp [hzero, Decimal.toRat_mk]
    · have hparts := parts_ofDecimal_exact hc hzero hvalue.symm
      have hexact : exact (ofDecimal d) = exact y := by simp only [exact, hparts]
      obtain rfl := DecimalValue.finite.inj (he.symm.trans (hexact.trans hc))
      exact hvalue

theorem toRat_exact_eq_of_digits (hdigits : HasDigits 15 d.toRat)
    (hsmall : d.toRat = 0 ∨ 2 ^ (-1022 : Int) ≤ d.toRat) : e.toRat = d.toRat := by
  refine (toRat_exact_eq_iff hd he).2 ?_
  rcases hsmall with hzero | hlow
  · rw [hzero]
    exact ⟨0, ⟨false, 0, -1⟩, by decide +kernel, by simp [Decimal.toRat_mk]⟩
  · have hhigh : |d.toRat| < overflow := by
      by_contra hlarge
      exact Decimal.not_isFinite_ofDecimal hd (not_lt.1 hlarge) (isFinite_of_exact he)
    exact ⟨_, isWritten_float_of_digits hdigits (hlow.trans (le_abs_self _)) hhigh⟩

end

end Double

/-! ## What is shown for a token -/

/-- The decimal `d` is shown for a number token: the double that the token is read as is written as
`d`, and `d` is read as that double again. It is the number typed, `v`, if and only if any double is
written as `v`, so it is if `v` has at most fifteen digits and is not too small. -/
structure ShownFor (t : Token) (d : Decimal) : Prop where
  double : ∃ x, Double.read? t.chars = some x ∧ Double.exact x = .finite d ∧
    Double.read? d.plain = some x
  shown : (Decimal.read? d.plain).map Decimal.toRat = some d.toRat
  typed : ∃ v, Decimal.read? t.chars = some v ∧
    (d.toRat = v.toRat ↔ ∃ y : Float, (Number.float y).IsWritten v.toRat) ∧
    (HasDigits 15 v.toRat → v.toRat = 0 ∨ 2 ^ (-1022 : Int) ≤ v.toRat → d.toRat = v.toRat)

/-- Plain notation is read as the double nearest to the number. -/
theorem Double.read?_plain {d : Decimal} (h : 0 ≤ d.toRat) :
    read? d.plain = some (ofDecimal d.numeral.toDecimal) := by
  rw [Decimal.plain_of_nonneg h]
  exact Expression.Literal.read?_text ⟨d.numeral, d.numeral_integer_ne_nil⟩

/-- **What is shown for a run of digits and points.** -/
theorem shownFor_of_isRun {t : Token} (ht : Token.IsRun t.chars) {x : Float} {d : Decimal}
    (hread : Double.read? t.chars = some x) (hexact : Double.exact x = .finite d) :
    0 ≤ d.toRat ∧ ShownFor t d := by
  have hdouble := hread
  rw [Double.read?_of_isRun ht] at hdouble
  obtain ⟨v, hv, rfl⟩ := Option.map_eq_some_iff.1 hdouble
  have hsign := (Decimal.isShort_of_read? ht hv).unsigned
  have hnonneg := Decimal.toRat_nonneg (Double.negative_exact hsign hexact)
  refine ⟨hnonneg, ⟨_, hread, hexact, ?_⟩, d.toRat_read?_plain, v, hv,
    Double.toRat_exact_eq_iff hsign hexact, Double.toRat_exact_eq_of_digits hsign hexact⟩
  have hback : Double.ofDecimal d.numeral.toDecimal = Double.ofDecimal v :=
    Double.ofDecimal_eq_of_toRat_eq hsign hexact rfl (Decimal.toRat_numeral_of_nonneg hnonneg)
  rw [Double.read?_plain hnonneg, hback]

/-! ## The first page -/

/-- The rows that the first page of an operation starts with, without their blanks. Of a subtraction
the smaller operand is the lower one. -/
def Operator.firstRows (op : Operator) (l r : Decimal) : List Row :=
  match op with
  | .addition => [l.plain, '+' :: r.plain]
  | .subtraction =>
    if l.lt r then [r.plain, '-' :: l.plain] else [l.plain, '-' :: r.plain]
  | .multiplication => [l.plain, '×' :: r.plain]
  | .division => [r.plain ++ ')' :: l.plain]
  | .percentage => [l.plain ++ '×' :: (r.plain ++ ['%'])]

/-- Squaring a page changes blanks only. -/
theorem Layout.compact_squared (l : Layout) :
    l.squared.rows.map Row.compact = l.rows.map Row.compact := by
  simp [squared, Row.compact_padEnd]

theorem Row.compact_plain (d : Decimal) : compact d.plain = d.plain :=
  compact_of_not_mem (d.not_mem_plain (by decide) (by decide) (by decide))

theorem Step.compact_of_shows {s : Step} {d : Draft} (h : s.Shows d) :
    s.layout.rows.map Row.compact = d.layout.rows.map Row.compact := by
  rw [h.layout, Layout.compact_squared]

namespace Problem

theorem compact_percentageDrafts {precision : Nat} {l r : Decimal} {answer : String} {first : Draft}
    {rest : List Draft} (h : percentageDrafts precision l r answer = first :: rest) :
    [l.plain ++ '×' :: (r.plain ++ ['%'])] <+: first.layout.rows.map Row.compact := by
  obtain ⟨rfl, -⟩ := List.cons.inj h
  have hsign (row : Row) : Row.compact (' ' :: '×' :: ' ' :: row) = '×' :: Row.compact row := by
    rw [Row.compact_blank_cons, Row.compact_cons (by decide), Row.compact_blank_cons]
  have hpercent : Row.compact ['%'] = ['%'] := by decide
  simp [rightAligned, toString, Row.compact_padStart, Row.compact_append, Row.compact_plain, hsign,
    hpercent]

theorem compact_negationDrafts {d : Decimal} (hd : 0 ≤ d.toRat) {answer : String} {page : Draft}
    (h : negationDrafts d answer = [page]) :
    ['-' :: d.plain] <+: page.layout.rows.map Row.compact := by
  obtain ⟨rfl, -⟩ := List.cons.inj h
  have hnegative : d.isNegative = false :=
    Bool.eq_false_iff.2 (mt d.isNegative_iff.1 (not_lt.2 hd))
  simp [hnegative, toString, Row.compact_padStart, Row.compact_plain,
    Row.compact_cons (by decide : '-' ≠ ' ')]

/-- **The first page of an operation starts with its operands.** -/
theorem firstRows_prefix {op : Operator} {l r : Term} (hcheck : (binary op l r).check = .ok ())
    {first : Step} {others : List Step} (hsteps : (binary op l r).steps = first :: others) :
    op.firstRows l.exact r.exact <+: first.layout.rows.map Row.compact := by
  generalize hp : binary op l r = p at *
  have hshows : List.Forall₂ Step.Shows p.steps p.drafts := Step.ofDrafts_shows ..
  rw [hsteps] at hshows
  obtain ⟨draft, rest, hfirst, -, hdrafts⟩ := List.forall₂_cons_left_iff.1 hshows
  have hmem : draft ∈ p.drafts := hdrafts ▸ List.mem_cons_self
  have htake {rows : List Row} (h : (first.layout.rows.take 2).map Row.compact = rows) :
      rows <+: first.layout.rows.map Row.compact := by
    rw [← h, List.map_take]
    exact List.take_prefix ..
  subst hp
  by_cases hop : op = .percentage
  · subst hop
    rw [Step.compact_of_shows hfirst]
    exact compact_percentageDrafts hdrafts
  obtain ⟨hl, hr⟩ := nonneg_of_check hop hcheck
  have hplain {d : Decimal} (h : 0 ≤ d.toRat) := Decimal.plain_of_nonneg h
  cases op with
  | addition =>
    simp only [drafts] at hmem
    rw [Operator.firstRows, hplain hl, hplain hr]
    exact htake (Column.compact_rows_of_shows hfirst hmem)
  | subtraction =>
    simp only [drafts] at hmem
    rw [Operator.firstRows, hplain hl, hplain hr]
    split
    · rename_i hlt
      rw [if_pos hlt] at hmem
      exact htake (Column.compact_rows_of_shows hfirst hmem)
    · rename_i hle
      rw [if_neg hle] at hmem
      exact htake (Column.compact_rows_of_shows hfirst hmem)
  | multiplication =>
    obtain ⟨_, hrows⟩ := Multiplication.rows_of_mem_drafts hmem
    rw [Operator.firstRows, hplain hl, hplain hr]
    exact htake (Multiplication.compact_factors hfirst hrows)
  | division =>
    obtain ⟨rfl, -⟩ := List.cons.inj hdrafts
    rw [Step.compact_of_shows hfirst]
    simp [Operator.firstRows, Division.Work.of, Row.compact_append, Row.compact_plain,
      Row.compact_cons (by decide : ')' ≠ ' ')]
  | percentage => exact absurd rfl hop

end Problem

/-! ## Main result -/

namespace Expression

open ParseResult

/-- The steps show the numbers of the tokens. If the first operator stands between two numbers, the
first page starts with these two. Without an operator there is one number and one page, which starts
with the number, after a minus if there is any minus sign. -/
structure ShowsTyped (ts : List Token) (steps : List Step) : Prop where
  operation : ∀ front left op right after, ts = front ++ left :: op :: right :: after →
    (∀ t ∈ front, t.kind ≠ .operator) → left.kind = .number → op.kind = .operator →
    right.kind = .number → ∃ o l r first others, Operator.ofSymbol? op.value = some o ∧
      ShownFor left l ∧ ShownFor right r ∧ steps = first :: others ∧
      o.firstRows l r <+: first.layout.rows.map Row.compact
  numeral : (∀ t ∈ ts, t.kind ≠ .operator) → ∃ t d page,
    ts.filter (·.kind = .number) = [t] ∧ ShownFor t d ∧ steps = [page] ∧
      [(if ts.any (·.kind = .unaryMinus) then ['-'] else []) ++ d.plain] <+:
        page.layout.rows.map Row.compact

/-- The number that a term was read from. -/
theorem shownFor_of_readAs {t : Token} (ht : Token.IsRun t.chars) {u : Term} (h : ReadAs t u) :
    0 ≤ u.exact.toRat ∧ ShownFor t u.exact := by
  obtain ⟨x, hread, hu⟩ := h
  have hexact := u.exact_eq
  rw [hu] at hexact
  exact shownFor_of_isRun ht hread hexact

/-- The page of a lone number of which there are steps. -/
theorem shownFor_of_numeralSteps {t : Token} (ht : Token.IsRun t.chars) {x : Float}
    (hread : Double.read? t.chars = some x) {steps : List Step}
    (hsteps : ExpressionTask.numeralSteps x = .ok steps) :
    ∃ d page, ShownFor t d ∧ steps = [page] ∧
      [d.plain] <+: page.layout.rows.map Row.compact := by
  obtain ⟨v, hv, h⟩ := exists_of_bind_eq_ok hsteps
  have hdouble := hread
  rw [Double.read?_of_isRun ht] at hdouble
  obtain ⟨typed, htyped, rfl⟩ := Option.map_eq_some_iff.1 hdouble
  rcases Double.exact_ofDecimal_cases (Decimal.isShort_of_read? ht htyped).unsigned with
    hinfinity | ⟨d, hd, -⟩
  · -- an infinity is no number to show
    rw [hinfinity] at hv
    cases hv
  · obtain rfl := Except.ok.inj h
    refine ⟨d, _, (shownFor_of_isRun ht hread hd).2, rfl, ?_⟩
    simp [Layout.compact_squared, hd, DecimalValue.plain, Row.compact_plain]

/-- The page of a negation. -/
theorem exists_page_of_negation {u : Term} (hu : 0 ≤ u.exact.toRat) :
    ∃ page, (Problem.negation u).steps = [page] ∧
      ['-' :: u.exact.plain] <+: page.layout.rows.map Row.compact := by
  obtain ⟨page, hpage, hsteps⟩ := Step.exists_singleton (Step.ofDrafts_shows (.negation)
    (Problem.negation u).operands (Problem.negation u).result _)
  refine ⟨page, hsteps, ?_⟩
  rw [Step.compact_of_shows hpage]
  exact Problem.compact_negationDrafts hu rfl

/-- An expression without an operator has one number. -/
theorem exists_number_of_no_operator {ts post : List Token} {x : Float} (hts : ∀ t ∈ ts, Scanned t)
    (horder : PostOrder.ofTokens ts = .ok post) (hvalue : PostOrder.value post = .ok x)
    (hnone : ∀ t ∈ ts, t.kind ≠ .operator) : ∃ t, ts.filter (·.kind = .number) = [t] := by
  have hcount : ts.countP (·.kind = .operator) = 0 := by simpa [List.countP_eq_zero] using hnone
  rw [← countP_ofTokens hts horder (by simp +contextual)] at hcount
  rw [← filter_number_ofTokens hts horder]
  cases (postfix_of_value hvalue).single (hcount.trans_le (Nat.zero_le 1)) with
  | @numeral t signs ht hs =>
    exact ⟨t, by rw [List.filter_cons_of_pos (by simp [ht]), hs.filter_number]⟩
  | operation hl hls hr hrs hop hs =>
    exact absurd hop (hnone _ ((mem_ofTokens_iff hts horder (by simp [hop])).1 (by simp)))

/-- **The numbers typed are shown**, exactly as far as doubles are written as them. -/
theorem typed_numbers_shown {limits : ParseLimits} {s : List Char} {ts : List Token}
    {result : Number} (h : parse limits s = .ok (.valid ts result)) {task : ExpressionTask}
    (htask : (ParseResult.valid ts result).task = .ok task) {steps : List Step}
    (hsteps : task.steps = .ok steps) : ShowsTyped ts steps := by
  obtain ⟨x, heval, -⟩ := parse_valid h
  obtain ⟨hscan, post, horder, hvalue⟩ := evaluate_ok heval
  have hts := scanned_of_scan hscan
  have hrun (t : Token) (ht : t ∈ ts) := (standsIn_of_ofText hscan t ht).isRun
  constructor
  · rintro front left op right after rfl hfront hleft hop hright
    have hbefore : ∀ t ∈ front ++ [left], t.kind ≠ .operator := by
      simpa [or_imp, forall_and, hleft] using hfront
    have htokens : taskOfTokens ((front ++ [left]) ++ op :: right :: after) = .ok task := by
      rwa [List.append_assoc]
    obtain ⟨left', right', o, l, r, hlast, hhead, hname, hl, hr, hcheck, rfl⟩ :=
      exists_operation_of_task hbefore hop htokens
    obtain ⟨rfl, -⟩ : left = left' ∧ left'.kind = .number := by simpa [number?] using hlast
    obtain ⟨rfl, -⟩ : right = right' ∧ right'.kind = .number := by simpa [number?] using hhead
    obtain ⟨o', ho⟩ := Option.isSome_iff_exists.1 ((hts op (by simp)).known hop)
    obtain rfl : o = o' :=
      Operation.binary.inj (Except.ok.inj (hname.symm.trans (OperationName.resolve_of_symbol ho)))
    obtain ⟨first, others, hfirst⟩ :=
      List.exists_cons_of_ne_nil (Problem.steps_ne_nil (.binary o l r))
    obtain rfl := Except.ok.inj hsteps
    exact ⟨o, l.exact, r.exact, first, others, ho,
      (shownFor_of_readAs (hrun left (by simp) hleft) hl).2,
      (shownFor_of_readAs (hrun right (by simp) hright) hr).2, hfirst,
      Problem.firstRows_prefix hcheck hfirst⟩
  · intro hnone
    obtain ⟨t, hnumbers⟩ := exists_number_of_no_operator hts horder hvalue hnone
    obtain ⟨ht, hkind⟩ : t ∈ ts ∧ t.kind = .number := by
      have hmem : t ∈ ts.filter (·.kind = .number) := by simp [hnumbers]
      simpa using hmem
    have hcases := exists_numeral_of_task hnone hnumbers htask
    split at hcases
    · rename_i hsigns
      obtain ⟨u, hu, rfl⟩ := hcases
      obtain ⟨hnonneg, hshown⟩ := shownFor_of_readAs (hrun t ht hkind) hu
      obtain ⟨page, hpage, hrows⟩ := exists_page_of_negation hnonneg
      obtain rfl := Except.ok.inj hsteps
      exact ⟨t, u.exact, page, hnumbers, hshown, hpage, by rwa [if_pos hsigns]⟩
    · rename_i hsigns
      obtain ⟨y, hread, rfl⟩ := hcases
      obtain ⟨d, page, hshown, hpage, hrows⟩ :=
        shownFor_of_numeralSteps (hrun t ht hkind) hread hsteps
      exact ⟨t, d, page, hnumbers, hshown, hpage, by rwa [if_neg hsigns]⟩

set_option maxRecDepth 10000 in
/-- A difference inside parentheses, with the smaller number first. -/
theorem typed_numbers_shown_exchanged :
    ∃ ts task first others, parse {} "(1.25-30)×4".toList = .ok (.valid ts (.int (-115))) ∧
      (ParseResult.valid ts (.int (-115))).task = .ok task ∧ task.steps = .ok (first :: others) ∧
      ["30".toList, "-1.25".toList] <+: first.layout.rows.map Row.compact := by
  let left : Token := ⟨.number, "1.25", 1⟩
  let right : Token := ⟨.number, "30", 6⟩
  let ts := [Spelling.parenthesis '(' 0, left, ⟨.operator, "-", 5⟩, right,
    Spelling.parenthesis ')' 8, ⟨.operator, "×", 9⟩, ⟨.number, "4", 10⟩]
  let p : Problem := .binary .subtraction ⟨.float 1.25, ⟨false, 125, -2⟩, by decide +kernel⟩
    ⟨.float 30, ⟨false, 300, -1⟩, by decide +kernel⟩
  have h : parse {} "(1.25-30)×4".toList = .ok (.valid ts (.int (-115))) := by decide +kernel
  have htask : (ParseResult.valid ts (.int (-115))).task = .ok (.problem p) := by decide +kernel
  have hfront : ∀ t ∈ [Spelling.parenthesis '(' 0], t.kind ≠ .operator := by
    simp [Spelling.parenthesis]
  obtain ⟨o, l, r, first, others, ho, hl, hr, hsteps, hrows⟩ :=
    (typed_numbers_shown h htask rfl).operation [Spelling.parenthesis '(' 0] left _ right _ rfl
      hfront rfl rfl rfl
  have hshown {t : Token} {d c : Decimal} {x : Float} (ht : ShownFor t d)
      (hread : Double.read? t.chars = some x) (hexact : Double.exact x = .finite c) : d = c := by
    obtain ⟨y, hy, hd, -⟩ := ht.double
    obtain rfl := Option.some.inj (hread.symm.trans hy)
    exact DecimalValue.finite.inj (hd.symm.trans hexact)
  obtain rfl : o = .subtraction := Option.some.inj (ho.symm.trans rfl)
  obtain rfl : l = ⟨false, 125, -2⟩ := hshown hl (x := 1.25) (by decide +kernel) (by decide +kernel)
  obtain rfl : r = ⟨false, 300, -1⟩ := hshown hr (x := 30) (by decide +kernel) (by decide +kernel)
  have hfirst : Operator.firstRows .subtraction ⟨false, 125, -2⟩ ⟨false, 300, -1⟩ =
      ["30".toList, "-1.25".toList] := by
    decide +kernel
  rw [hfirst] at hrows
  exact ⟨ts, _, first, others, h, htask, congrArg Except.ok hsteps, hrows⟩

set_option maxRecDepth 10000 in
/-- A number typed with more digits than a double holds is not the number that is shown. -/
theorem typed_number_not_shown :
    ∃ ts result task first others left op right,
      parse {} "9007199254740993+1".toList = .ok (.valid ts result) ∧
      (ParseResult.valid ts result).task = .ok task ∧ task.steps = .ok (first :: others) ∧
      ts = [left, op, right] ∧ left.kind = .number ∧ op.kind = .operator ∧ right.kind = .number ∧
      (Decimal.read? left.chars).map Decimal.toRat = some 9007199254740993 ∧
      first.layout.rows.take 2 = [" 9007199254740992".toList, "+               1".toList] := by
  let left : Token := ⟨.number, "9007199254740993", 0⟩
  let op : Token := ⟨.operator, "+", 16⟩
  let right : Token := ⟨.number, "1", 17⟩
  let p : Problem := .binary .addition
    ⟨.float 9007199254740992, ⟨false, 90071992547409920, -1⟩, by decide +kernel⟩
    ⟨.float 1, ⟨false, 10, -1⟩, by decide +kernel⟩
  have h : parse {} "9007199254740993+1".toList =
      .ok (.valid [left, op, right] (.int 9007199254740992)) := by
    decide +kernel
  have htask : (ParseResult.valid [left, op, right] (.int 9007199254740992)).task =
      .ok (.problem p) := by
    decide +kernel
  have hread : Decimal.read? left.chars = some ⟨false, 9007199254740993, 0⟩ := by decide +kernel
  have hrows : p.steps.head?.map (fun s => s.layout.rows.take 2) =
      some [" 9007199254740992".toList, "+               1".toList] := by
    decide +kernel
  obtain ⟨first, others, hsteps⟩ := List.exists_cons_of_ne_nil p.steps_ne_nil
  rw [hsteps] at hrows
  refine ⟨_, _, _, first, others, left, op, right, h, htask, congrArg Except.ok hsteps, rfl, rfl, rfl,
    rfl, ?_, Option.some.inj hrows⟩
  rw [hread, Option.map_some, Decimal.toRat_mk, zpow_zero]
  norm_num

end Expression

end Longhand
