import Longhand.Proofs.Grammar
import Longhand.Proofs.WholeDoubles
/-!
# Expressions with one operation

Bringing tokens into post-order loses none of them but the parentheses, and leaves the numbers in
their order. With at most one operator the post-order is a number or an operation on two numbers, with
minus signs after each part (`Postfix.single`); each of them negates what it follows. On whole
numbers of at most 26 binary digits the evaluation is exact (`Single.value_eq`).
-/

namespace Longhand.Expression

open PostOrder

/-! ## What the conversion keeps -/

/-- Every token but the parentheses is kept. -/
theorem countP_convert {p : Token → Bool} (hp : ∀ t, t.kind = .parenthesis → p t = false)
    {stack ts out : List Token} (hstack : ∀ u ∈ stack, Stacked u) (hts : ∀ t ∈ ts, Scanned t)
    (h : convert stack ts = .ok out) : out.countP p = stack.countP p + ts.countP p := by
  induction ts generalizing stack out with
  | nil =>
    rw [convert] at h
    split at h
    · cases h
    · obtain rfl := Except.ok.inj h
      rfl
  | cons t rest ih =>
    obtain ⟨ht, hrest⟩ := List.forall_mem_cons.1 hts
    obtain ⟨taken, stack', out', hmoves, hstack', hout, rfl⟩ := moves_of_convert hstack ht h
    have hcount := ih hstack' hrest hout
    rw [List.countP_append, hcount, List.countP_cons]
    cases hmoves with
    | number hkind =>
      rw [List.countP_singleton]
      omega
    | sign hkind =>
      rw [List.countP_nil, List.countP_cons]
      omega
    | operator hkind hs htaken =>
      rw [← hs, List.countP_append, List.countP_cons]
      omega
    | opening hopening =>
      rw [List.countP_nil, List.countP_cons]
      omega
    | closing hclosing hfirst hs htaken =>
      simp only [← hs, List.countP_append, List.countP_cons, hp t hclosing.kind_eq, hp _ hfirst,
        Bool.false_eq_true, if_false]
      omega

/-- The numbers keep their order. -/
theorem filter_number_convert {stack ts out : List Token} (hstack : ∀ u ∈ stack, Stacked u)
    (hnone : ∀ u ∈ stack, u.kind ≠ .number) (hts : ∀ t ∈ ts, Scanned t)
    (h : convert stack ts = .ok out) :
    out.filter (·.kind = .number) = ts.filter (·.kind = .number) := by
  induction ts generalizing stack out with
  | nil =>
    rw [convert] at h
    split at h
    · cases h
    · obtain rfl := Except.ok.inj h
      simpa using hnone
  | cons t rest ih =>
    obtain ⟨ht, hrest⟩ := List.forall_mem_cons.1 hts
    obtain ⟨taken, stack', out', hmoves, hstack', hout, rfl⟩ := moves_of_convert hstack ht h
    rw [List.filter_append]
    cases hmoves with
    | number hkind =>
      rw [ih hstack' hnone hrest hout]
      simp [hkind]
    | sign hkind =>
      rw [ih hstack' (List.forall_mem_cons.2 ⟨by simp [hkind], hnone⟩) hrest hout]
      simp [hkind]
    | operator hkind hs htaken =>
      rw [← hs, List.forall_mem_append] at hnone
      rw [ih hstack' (List.forall_mem_cons.2 ⟨by simp [hkind], hnone.2⟩) hrest hout]
      simpa [hkind] using hnone.1
    | opening hopening =>
      rw [ih hstack' (List.forall_mem_cons.2 ⟨by simp [hopening.kind_eq], hnone⟩) hrest hout]
      simp [hopening.kind_eq]
    | closing hclosing hfirst hs htaken =>
      rw [← hs, List.forall_mem_append, List.forall_mem_cons] at hnone
      rw [ih hstack' hnone.2.2 hrest hout]
      simpa [hclosing.kind_eq] using hnone.1

section

variable {ts post : List Token} (hts : ∀ t ∈ ts, Scanned t) (h : PostOrder.ofTokens ts = .ok post)

include hts h

theorem countP_ofTokens {p : Token → Bool} (hp : ∀ t, t.kind = .parenthesis → p t = false) :
    post.countP p = ts.countP p := by
  have hkept := countP_convert hp (by simp) hts h
  rwa [List.countP_nil, Nat.zero_add] at hkept

theorem mem_ofTokens_iff {t : Token} (ht : t.kind ≠ .parenthesis) : t ∈ post ↔ t ∈ ts := by
  have hkept := countP_ofTokens hts h (p := (· = t)) fun u hu => by
    rw [decide_eq_false_iff_not]
    rintro rfl
    exact ht hu
  have hpos (us : List Token) : 0 < us.countP (· = t) ↔ t ∈ us := by
    simp [List.countP_pos_iff]
  rw [← hpos, hkept, hpos]

theorem filter_number_ofTokens :
    post.filter (·.kind = .number) = ts.filter (·.kind = .number) :=
  filter_number_convert (by simp) (by simp) hts h

end

/-! ## Post-orders with at most one operator -/

def Signs (ts : List Token) : Prop :=
  ∀ t ∈ ts, t.kind = .unaryMinus

/-- The post-orders of a number, and of one operation on two numbers, with any minus signs. -/
inductive Single : List Token → Prop
  | numeral {t : Token} {signs : List Token} (ht : t.kind = .number) (hs : Signs signs) :
      Single (t :: signs)
  | operation {left right op : Token} {leftSigns rightSigns signs : List Token}
      (hl : left.kind = .number) (hls : Signs leftSigns) (hr : right.kind = .number)
      (hrs : Signs rightSigns) (hop : op.kind = .operator) (hs : Signs signs) :
      Single (left :: leftSigns ++ (right :: rightSigns ++ op :: signs))

theorem Signs.concat {signs : List Token} {t : Token} (hs : Signs signs) (ht : t.kind = .unaryMinus) :
    Signs (signs ++ [t]) := by
  simpa [Signs, or_imp, forall_and, ht] using hs

theorem Signs.countP_sign {signs : List Token} (hs : Signs signs) :
    signs.countP (·.kind = .unaryMinus) = signs.length := by
  rw [List.countP_eq_length]
  intro t ht
  simp [hs t ht]

theorem Signs.filter_number {signs : List Token} (hs : Signs signs) :
    signs.filter (·.kind = .number) = [] := by
  rw [List.filter_eq_nil_iff]
  intro t ht
  simp [hs t ht]

/-- One more minus sign at the end. -/
theorem Single.concat {ts : List Token} {t : Token} (h : Single ts) (ht : t.kind = .unaryMinus) :
    Single (ts ++ [t]) := by
  cases h with
  | numeral hn hs => exact .numeral hn (hs.concat ht)
  | operation hl hls hr hrs hop hs =>
    have hmore := Single.operation hl hls hr hrs hop (hs.concat ht)
    simpa using hmore

/-- Without an operator there is one number. -/
theorem Postfix.exists_numeral {ts : List Token} (h : Postfix ts)
    (hnone : ts.countP (·.kind = .operator) = 0) :
    ∃ t signs, ts = t :: signs ∧ t.kind = .number ∧ Signs signs := by
  induction h with
  | @number t ht => exact ⟨t, [], rfl, ht, by simp [Signs]⟩
  | @negation t operand ht ho ih =>
    rw [List.countP_append, Nat.add_eq_zero_iff] at hnone
    obtain ⟨u, signs, rfl, hu, hs⟩ := ih hnone.1
    exact ⟨u, signs ++ [t], rfl, hu, hs.concat ht⟩
  | binary hop hl hr => simp [hop.kind_eq] at hnone

/-- With at most one operator there is one operation on two numbers, or one number. -/
theorem Postfix.single {ts : List Token} (h : Postfix ts)
    (hone : ts.countP (·.kind = .operator) ≤ 1) : Single ts := by
  induction h with
  | number ht => exact .numeral ht (by simp [Signs])
  | negation ht ho ih =>
    rw [List.countP_append] at hone
    exact (ih (by omega)).concat ht
  | @binary t left right hop hl hr =>
    simp only [List.countP_append, List.countP_singleton, hop.kind_eq, decide_true, if_true] at hone
    obtain ⟨l, leftSigns, rfl, hlk, hls⟩ := hl.exists_numeral (by omega)
    obtain ⟨r, rightSigns, rfl, hrk, hrs⟩ := hr.exists_numeral (by omega)
    have hlast : Signs [] := by simp [Signs]
    have hsingle := Single.operation hlk hls hrk hrs hop.kind_eq hlast
    simpa using hsingle

/-! ## Values -/

/-- The numeral is read as a whole number of at most 53 binary digits. -/
structure IsWhole (t : Token) (n : Nat) : Prop where
  lt : n < 2 ^ 53
  read : ∃ x, Double.read? t.value.toList = some x ∧ Double.toRat? x = some ((n : Int) : ℚ)

/-- The digits of a number of at most 53 binary digits are read as it. -/
theorem isWhole_of_digits {t : Token} {ds : List Digit} {n : Nat} (hne : ds ≠ [])
    (ht : t.value.toList = Digits.text ds) (hn : Digits.value ds = n) (hlt : n < 2 ^ 53) :
    IsWhole t n := by
  let l : Literal := ⟨⟨ds, []⟩, hne⟩
  have htext : t.value.toList = l.numeral.text := by
    simp [ht, l, Numeral.text]
  have hvalue : l.numeral.toRat = n := by
    rw [Numeral.toRat_eq, ← hn]
    simp [l, Numeral.scaled]
  refine ⟨hlt, _, htext ▸ l.read?_text, ?_⟩
  have hread := Double.toRat?_ofDecimal hvalue hlt
  exact_mod_cast hread

/-- The operations that integers are closed under. -/
inductive Calculates : Operator → (Int → Int → Int) → Prop
  | addition : Calculates .addition (· + ·)
  | subtraction : Calculates .subtraction (· - ·)
  | multiplication : Calculates .multiplication (· * ·)

/-- What is worked and what is the value of a post-order with at most one operator: the operation as
it stands, or the number with one minus if there is any, and the same with all minus signs. -/
inductive Asks : List Token → Int → Int → Prop
  | numeral {t : Token} {signs : List Token} {n : Nat} (ht : t.kind = .number) (hn : IsWhole t n)
      (hs : Signs signs) :
      Asks (t :: signs) (if signs = [] then n else -n) ((-1) ^ signs.length * n)
  | operation {left right op : Token} {leftSigns rightSigns signs : List Token} {o : Operator}
      {f : Int → Int → Int} {a b : Nat} (hl : left.kind = .number) (ha : IsWhole left a)
      (hls : Signs leftSigns) (hr : right.kind = .number) (hb : IsWhole right b)
      (hrs : Signs rightSigns) (hop : op.kind = .operator)
      (ho : Operator.ofSymbol? op.value = some o) (hf : Calculates o f) (hs : Signs signs) :
      Asks (left :: leftSigns ++ (right :: rightSigns ++ op :: signs)) (f a b)
        ((-1) ^ signs.length * f ((-1) ^ leftSigns.length * a) ((-1) ^ rightSigns.length * b))

/-- What is worked is the value if there is no minus sign, or an odd number of them and no operator. -/
theorem Asks.worked_eq {post : List Token} {worked value : Int} (h : Asks post worked value)
    (hsigns : post.countP (·.kind = .unaryMinus) = 0 ∨
      post.countP (·.kind = .operator) = 0 ∧ Odd (post.countP (·.kind = .unaryMinus))) :
    worked = value := by
  cases h with
  | @numeral t signs n ht hn hs =>
    have hcount : (t :: signs).countP (·.kind = .unaryMinus) = signs.length := by
      rw [List.countP_cons_of_neg (by simp [ht]), hs.countP_sign]
    rw [hcount] at hsigns
    rcases hsigns with hnone | ⟨-, hodd⟩
    · obtain rfl := List.eq_nil_of_length_eq_zero hnone
      simp
    · have hne : signs ≠ [] := by
        rintro rfl
        exact absurd hodd (by decide)
      rw [if_neg hne, hodd.neg_one_pow, neg_one_mul]
  | @operation left right op leftSigns rightSigns signs o f a b hl ha hls hr hb hrs hop ho hf hs =>
    rcases hsigns with hnone | ⟨hnone, -⟩
    · simp only [List.countP_append, List.countP_cons, hls.countP_sign, hrs.countP_sign,
        hs.countP_sign, hl, hr, hop] at hnone
      obtain rfl := List.eq_nil_of_length_eq_zero (by omega : leftSigns.length = 0)
      obtain rfl := List.eq_nil_of_length_eq_zero (by omega : rightSigns.length = 0)
      obtain rfl := List.eq_nil_of_length_eq_zero (by omega : signs.length = 0)
      simp
    · have hoperator := List.countP_eq_zero.1 hnone op (by simp)
      simp [hop] at hoperator

theorem natAbs_sign_mul (k : Nat) (a : Int) : ((-1) ^ k * a).natAbs = a.natAbs := by
  rw [Int.natAbs_mul, Int.natAbs_pow, Int.natAbs_neg, Int.natAbs_one, one_pow, one_mul]

/-- Every minus sign negates the last operand. -/
theorem foldlM_signs {signs : List Token} (hs : Signs signs) {x : Float} {a : Int}
    (hx : Double.toRat? x = some (a : ℚ)) (operands : List Float) :
    ∃ y, signs.foldlM push (x :: operands) = .ok (y :: operands) ∧
      Double.toRat? y = some (((-1) ^ signs.length * a : Int) : ℚ) := by
  induction signs generalizing x a with
  | nil => exact ⟨x, rfl, by simpa using hx⟩
  | cons t signs ih =>
    obtain ⟨ht, hrest⟩ := List.forall_mem_cons.1 hs
    obtain ⟨y, hfold, hy⟩ := ih hrest (Double.toRat?_neg hx)
    refine ⟨y, ?_, ?_⟩
    · have hpush : push (x :: operands) t = .ok (-x :: operands) := by
        simp [push, ht]
      rw [List.foldlM_cons, hpush]
      exact hfold
    · rw [hy, List.length_cons, pow_succ]
      congr 2
      ring

/-- A number with its minus signs. -/
theorem foldlM_numeral {t : Token} {signs : List Token} {n : Nat} (ht : t.kind = .number)
    (hn : IsWhole t n) (hs : Signs signs) (operands : List Float) :
    ∃ y, (t :: signs).foldlM push operands = .ok (y :: operands) ∧
      Double.toRat? y = some (((-1) ^ signs.length * n : Int) : ℚ) := by
  obtain ⟨x, hread, hx⟩ := hn.read
  obtain ⟨y, hfold, hy⟩ := foldlM_signs hs hx operands
  refine ⟨y, ?_, hy⟩
  have hpush : push operands t = .ok (x :: operands) := by
    simp [push, ht, hread]
  rw [List.foldlM_cons, hpush]
  exact hfold

/-- The operation is exact on numbers of at most 26 binary digits. -/
theorem Calculates.combine_eq {op : Operator} {f : Int → Int → Int} (h : Calculates op f)
    {x y : Float} {a b : Int} (hx : Double.toRat? x = some (a : ℚ))
    (hy : Double.toRat? y = some (b : ℚ)) (ha : a.natAbs < 2 ^ 26) (hb : b.natAbs < 2 ^ 26) :
    ∃ z, combine op x y = .ok z ∧ Double.toRat? z = some (f a b : ℚ) ∧ (f a b).natAbs < 2 ^ 53 := by
  cases h with
  | addition =>
    have hlt : (a + b).natAbs < 2 ^ 53 := by omega
    exact ⟨_, rfl, Double.toRat?_add hx hy hlt, hlt⟩
  | subtraction =>
    have hlt : (a - b).natAbs < 2 ^ 53 := by omega
    exact ⟨_, rfl, Double.toRat?_sub hx hy hlt, hlt⟩
  | multiplication =>
    have hlt : (a * b).natAbs < 2 ^ 53 := by
      rw [Int.natAbs_mul]
      calc a.natAbs * b.natAbs < 2 ^ 26 * 2 ^ 26 := Nat.mul_lt_mul'' ha hb
        _ ≤ 2 ^ 53 := by norm_num
    exact ⟨_, rfl, Double.toRat?_mul hx hy hlt, hlt⟩

section

variable {post : List Token}
  (hnumbers : ∀ t ∈ post, t.kind = .number → ∃ n < 2 ^ 26, IsWhole t n)
  (hoperators : ∀ t ∈ post, t.kind = .operator →
    ∃ op f, Operator.ofSymbol? t.value = some op ∧ Calculates op f)

include hnumbers hoperators

/-- **The value of one operation is exact**, with all of its minus signs. -/
theorem Single.value_eq (h : Single post) : ∃ worked value x, Asks post worked value ∧
    PostOrder.value post = .ok x ∧ Double.toRat? x = some (value : ℚ) ∧ value.natAbs < 2 ^ 53 := by
  cases h with
  | @numeral t signs ht hs =>
    obtain ⟨n, hlt, hn⟩ := hnumbers t (by simp) ht
    obtain ⟨x, hfold, hx⟩ := foldlM_numeral ht hn hs []
    refine ⟨_, _, x, .numeral ht hn hs, ?_, hx, ?_⟩
    · rw [PostOrder.value, hfold]
      rfl
    · rw [natAbs_sign_mul, Int.natAbs_natCast]
      omega
  | @operation left right op leftSigns rightSigns signs hl hls hr hrs hop hs =>
    obtain ⟨a, halt, ha⟩ := hnumbers left (by simp) hl
    obtain ⟨b, hblt, hb⟩ := hnumbers right (by simp) hr
    obtain ⟨o, f, ho, hf⟩ := hoperators op (by simp) hop
    obtain ⟨x, hleft, hx⟩ := foldlM_numeral hl ha hls []
    obtain ⟨y, hright, hy⟩ := foldlM_numeral hr hb hrs [x]
    have hxlt : ((-1) ^ leftSigns.length * (a : Int)).natAbs < 2 ^ 26 := by
      rwa [natAbs_sign_mul, Int.natAbs_natCast]
    have hylt : ((-1) ^ rightSigns.length * (b : Int)).natAbs < 2 ^ 26 := by
      rwa [natAbs_sign_mul, Int.natAbs_natCast]
    obtain ⟨z, hcombine, hz, hzlt⟩ := hf.combine_eq hx hy hxlt hylt
    obtain ⟨w, hsigns, hw⟩ := foldlM_signs hs hz []
    have hpush : push [y, x] op = .ok [z] := by
      simp [push, hop, ho, hcombine]
    refine ⟨_, _, w, .operation hl ha hls hr hb hrs hop ho hf hs, ?_, hw, ?_⟩
    · have hfold : (left :: leftSigns ++ (right :: rightSigns ++ op :: signs)).foldlM push [] =
          .ok [w] := by
        rw [List.foldlM_append, hleft]
        change (right :: rightSigns ++ op :: signs).foldlM push [x] = _
        rw [List.foldlM_append, hright]
        change (op :: signs).foldlM push [y, x] = _
        rw [List.foldlM_cons, hpush]
        exact hsigns
      rw [PostOrder.value, hfold]
      rfl
    · rwa [natAbs_sign_mul]

end

end Longhand.Expression
