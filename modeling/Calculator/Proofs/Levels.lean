import Calculator.Proofs.Alternating
import Calculator.Proofs.Rendering

namespace Calculator

open Outcome

namespace Token

def operator? : Token → Option Operator
  | operator op => some op
  | _ => none

def number? : Token → Option Float
  | operand x => x.read.toOption
  | _ => none

def isCut (t : Token) : Bool := t matches operator .add | operator .subtract

end Token

def foldLeft (ops : List Operator) : List Float → Float
  | [] => 0.0
  | v :: vs => (ops.zip vs).foldl (fun v x => x.1.compute v x.2) v

def foldPiece (ts : List Token) : Float := foldLeft (ts.filterMap Token.operator?) (ts.filterMap Token.number?)

def pieceValues (ts : List Token) : List Float := (ts.splitOnP Token.isCut).map foldPiece

def cuts (ts : List Token) : List Operator := (ts.filter Token.isCut).filterMap Token.operator?

/-- The pieces are combined from left to right, and so are their values with the operators between the pieces. -/
def foldLevels (ts : List Token) : Float := foldLeft (cuts ts) (pieceValues ts)

/-- Numbers and operators take turns, and numbers come first and last. -/
structure Alternates (ts : List Token) : Prop where
  odd : ts.length % 2 = 1
  numbers : ∀ i t, ts[i]? = some t → i % 2 = 0 → ∃ x v, t = .operand x ∧ x.read = .ok v
  operators : ∀ i t, ts[i]? = some t → i % 2 = 1 → ∃ op, t = .operator op

def HasZeroDivisor (ts : List Token) : Prop :=
  ∃ i x v, ts[i]? = some (.operator .divide) ∧ ts[i + 1]? = some (.operand x) ∧ x.read = .ok v ∧ (v = 0.0 ∨ v = -0.0)

variable {ts : List Token} {t u : Token} {op : Operator} {head v w : Float} {tail : List (Operator × Float)} {c d : Chain}

theorem Term.eq_operand_of_ofToken (h : ofToken t = .ok (.value v)) : ∃ x, t = .operand x ∧ x.read = .ok v := by
  cases t with
  | operand x =>
      obtain ⟨w, hw, hv⟩ := read_of_ofToken h
      cases hv
      exact ⟨x, rfl, hw⟩
  | operator | opening | closing | blank => cases h

theorem Term.ofTokens_operand {x : Operand} (h : x.read = .ok v) : ofTokens [.operand x] = .ok [.value v] := by
  rw [ofTokens, ofToken, h]
  rfl

theorem Term.ofTokens_operation {x : Operand} {rest : List Token} (h : x.read = .ok v)
    (hc : ofTokens rest = .ok c.terms) :
    ofTokens (.operand x :: .operator op :: rest) = .ok (Chain.mk v ((op, c.head) :: c.tail)).terms := by
  rw [ofTokens, ofTokens, hc, ofToken, h]
  rfl

theorem Alternates.drop_two {rest : List Token} (h : Alternates (t :: u :: rest)) : Alternates rest where
  odd := by
    have hodd := h.odd
    simp only [List.length_cons] at hodd
    omega
  numbers i t ht hi := h.numbers (i + 2) t ht (by omega)
  operators i t ht hi := h.operators (i + 2) t ht (by omega)

theorem Alternates.exists_chain {ts : List Token} (h : Alternates ts) : ∃ c : Chain, Term.ofTokens ts = .ok c.terms := by
  match ts with
  | [] => cases h.odd
  | [t] =>
      obtain ⟨x, v, rfl, hv⟩ := h.numbers 0 t rfl rfl
      exact ⟨⟨v, []⟩, Term.ofTokens_operand hv⟩
  | t :: u :: rest =>
      obtain ⟨x, v, rfl, hv⟩ := h.numbers 0 t rfl rfl
      obtain ⟨op, rfl⟩ := h.operators 1 u rfl rfl
      obtain ⟨c, hc⟩ := h.drop_two.exists_chain
      exact ⟨_, Term.ofTokens_operation hv hc⟩

namespace Chain

theorem eq_value_of_even {i : Nat} {x : Term} (hx : c.terms[i]? = some x) (hi : i % 2 = 0) :
    ∃ v, x = .value v := by
  obtain ⟨_ | j, rfl⟩ : ∃ j, i = 2 * j := ⟨i / 2, by omega⟩
  · cases hx
    exact ⟨c.head, rfl⟩
  · rw [show 2 * (j + 1) = 2 * j + 2 from rfl, getElem?_value] at hx
    obtain ⟨y, -, rfl⟩ := Option.map_eq_some_iff.mp hx
    exact ⟨y.2, rfl⟩

theorem exists_operator_of_odd {i : Nat} {x : Term} (hx : c.terms[i]? = some x) (hi : i % 2 = 1) :
    ∃ j y, i = 2 * j + 1 ∧ c.tail[j]? = some y ∧ .operator y.1 = x := by
  obtain ⟨j, rfl⟩ : ∃ j, i = 2 * j + 1 := ⟨i / 2, by omega⟩
  rw [getElem?_operator] at hx
  obtain ⟨y, hy, hop⟩ := Option.map_eq_some_iff.mp hx
  exact ⟨j, y, rfl, hy, hop⟩

theorem alternates (h : Term.ofTokens ts = .ok c.terms) : Alternates ts where
  odd := by
    have hlength := congrArg List.length (Term.ofTokens_eq_ok.mp h)
    rw [List.length_map, List.length_map, c.length_terms] at hlength
    omega
  numbers i t ht hi := by
    obtain ⟨x, hx, hread⟩ := Term.getElem?_of_token h ht
    obtain ⟨v, rfl⟩ := eq_value_of_even hx hi
    obtain ⟨x, hx, hv⟩ := Term.eq_operand_of_ofToken hread
    exact ⟨x, v, hx, hv⟩
  operators i t ht hi := by
    obtain ⟨x, hx, hread⟩ := Term.getElem?_of_token h ht
    obtain ⟨j, y, -, -, rfl⟩ := exists_operator_of_odd hx hi
    exact ⟨y.1, Term.eq_operator_of_ofToken hread⟩

theorem hasZeroDivisor_iff (h : Term.ofTokens ts = .ok c.terms) :
    HasZeroDivisor ts ↔ ∃ y ∈ c.tail, y.1 = .divide ∧ (y.2 = 0.0 ∨ y.2 = -0.0) := by
  constructor
  · rintro ⟨i, x, v, hop, hx, hv, hzero⟩
    obtain ⟨y, hy, hread⟩ := Term.getElem?_of_token h hop
    cases hread
    have hodd : i % 2 ≠ 0 := fun heven => by
      obtain ⟨w, hw⟩ := eq_value_of_even hy heven
      cases hw
    obtain ⟨j, y, rfl, hy, hdivide⟩ := exists_operator_of_odd hy (by omega)
    obtain ⟨z, hz, hread⟩ := Term.getElem?_of_token h hx
    rw [show 2 * j + 1 + 1 = 2 * j + 2 from rfl, c.getElem?_value, hy] at hz
    cases hz
    obtain ⟨w, hw, hvalue⟩ := Term.read_of_ofToken hread
    cases hvalue
    rw [hv] at hw
    cases hw
    exact ⟨y, List.mem_of_getElem? hy, Term.operator.inj hdivide, hzero⟩
  · rintro ⟨y, hy, hop, hzero⟩
    obtain ⟨i, hi, rfl⟩ := List.mem_iff_getElem.mp hy
    have htail : c.tail[i]? = some c.tail[i] := List.getElem?_eq_getElem hi
    obtain ⟨t, ht, hread⟩ := Term.getElem?_of_term h (c.getElem?_operator i |>.trans (congrArg _ htail))
    obtain ⟨u, hu, hread'⟩ := Term.getElem?_of_term h (c.getElem?_value i |>.trans (congrArg _ htail))
    obtain ⟨x, rfl, hv⟩ := Term.eq_operand_of_ofToken hread'
    rw [Term.eq_operator_of_ofToken hread, hop] at ht
    exact ⟨2 * i + 1, x, _, ht, hu, hv, hzero⟩

theorem combine_eq_none_iff :
    combine .multiplicative head tail = none ↔ ∃ y ∈ tail, y.1 = .divide ∧ (y.2 = 0.0 ∨ y.2 = -0.0) := by
  induction tail generalizing head with
  | nil => exact iff_of_false nofun nofun
  | cons y tail ih =>
      obtain ⟨op, v⟩ := y
      rw [List.exists_mem_cons_iff]
      by_cases hl : op.precedence = .multiplicative
      · rw [combine_of_eq hl, op.value?_eq_compute]
        by_cases hd : op = .divide ∧ (v = 0.0 ∨ v = -0.0)
        · rw [if_pos hd]
          exact iff_of_true rfl (.inl hd)
        · rw [if_neg hd, or_iff_right hd]
          exact ih
      · rw [combine_of_ne hl, Option.map_eq_none_iff, ih, or_iff_right]
        rintro ⟨rfl, -⟩
        exact hl rfl

theorem fold_of_additive (h : ∀ y ∈ tail, y.1.precedence = .additive) :
    (mk head tail).fold = some (foldLeft (tail.map Prod.fst) (head :: tail.map Prod.snd)) := by
  have hzip : tail = (tail.map Prod.fst).zip (tail.map Prod.snd) := List.zip_of_prod rfl rfl
  rw [foldLeft, ← hzip]
  clear hzip
  change tail.foldlM _ head = _
  induction tail generalizing head with
  | nil => rfl
  | cons y tail ih =>
      obtain ⟨hy, htail⟩ := List.forall_mem_cons.mp h
      have hne : ¬ (y.1 = .divide ∧ (y.2 = 0.0 ∨ y.2 = -0.0)) := by
        rintro ⟨hd, -⟩
        rw [hd] at hy
        cases hy
      rw [List.foldlM_cons, List.foldl_cons, y.1.value?_eq_compute, if_neg hne]
      exact ih htail

end Chain

theorem Token.number?_of_ofToken (h : Term.ofToken t = .ok (.value v)) :
    t.number? = some v ∧ t.operator? = none ∧ t.isCut = false := by
  obtain ⟨x, rfl, hv⟩ := Term.eq_operand_of_ofToken h
  refine ⟨?_, rfl, rfl⟩
  rw [number?, hv]
  rfl

theorem Token.isCut_operator (op : Operator) : (operator op).isCut = true ↔ op.precedence ≠ .multiplicative := by
  cases op <;> decide

theorem Term.exists_operation (h : ofTokens ts = .ok (Chain.mk head ((op, v) :: tail)).terms) :
    ∃ t u rest, ts = t :: .operator op :: u :: rest ∧ ofToken t = .ok (value head) ∧ ofToken u = .ok (value v) ∧
      ofTokens (u :: rest) = .ok (Chain.mk v tail).terms ∧
      ∀ w, ofTokens (.value w :: rest) = .ok (Chain.mk w tail).terms := by
  obtain ⟨t, us, rfl, ht, hus⟩ := ofTokens_eq_cons h
  obtain ⟨s, vs, rfl, hop, hvs⟩ := ofTokens_eq_cons hus
  obtain ⟨u, rest, rfl, hu, hrest⟩ := ofTokens_eq_cons hvs
  obtain rfl := eq_operator_of_ofToken hop
  refine ⟨t, u, rest, rfl, ht, hu, hvs, fun w => ?_⟩
  rw [ofTokens, hrest]
  rfl

theorem splitOnP_of_not_cut (h : t.isCut = false) {rest piece : List Token} {pieces : List (List Token)}
    (hrest : rest.splitOnP Token.isCut = piece :: pieces) :
    (t :: rest).splitOnP Token.isCut = (t :: piece) :: pieces := by
  rw [List.splitOnP_cons_eq_if_modifyHead, if_neg (by simp [h]), hrest]
  rfl

theorem foldPiece_single (ht : Term.ofToken t = .ok (.value v)) : foldPiece [t] = v := by
  obtain ⟨hnumber, hoperator, -⟩ := Token.number?_of_ofToken ht
  rw [foldPiece, List.filterMap_cons_some hnumber, List.filterMap_cons_none hoperator]
  rfl

theorem foldPiece_operation (ht : Term.ofToken t = .ok (.value head)) (hu : Term.ofToken u = .ok (.value v))
    (op : Operator) (piece : List Token) :
    foldPiece (t :: .operator op :: u :: piece) = foldPiece (.value (op.compute head v) :: piece) := by
  obtain ⟨hnumber, hoperator, -⟩ := Token.number?_of_ofToken ht
  obtain ⟨hnumber', hoperator', -⟩ := Token.number?_of_ofToken hu
  have hop : (Token.operator op).operator? = some op := rfl
  have hno : (Token.operator op).number? = none := rfl
  have hvalue : (Token.value (op.compute head v)).number? = some (op.compute head v) := rfl
  have hnone : (Token.value (op.compute head v)).operator? = none := rfl
  simp only [foldPiece, List.filterMap_cons, hnumber, hoperator, hnumber', hoperator', hop, hno, hvalue, hnone]
  rfl

theorem pieces_single (ht : Term.ofToken t = .ok (.value v)) : pieceValues [t] = [v] ∧ cuts [t] = [] := by
  obtain ⟨-, -, hcut⟩ := Token.number?_of_ofToken ht
  rw [pieceValues, cuts, splitOnP_of_not_cut hcut List.splitOnP_nil, List.map_singleton, foldPiece_single ht,
    List.filter_cons_of_neg (by simp [hcut])]
  exact ⟨rfl, rfl⟩

theorem pieces_operation (ht : Term.ofToken t = .ok (.value head)) (hu : Term.ofToken u = .ok (.value v))
    (hl : op.precedence = .multiplicative) (rest : List Token) :
    pieceValues (t :: .operator op :: u :: rest) = pieceValues (.value (op.compute head v) :: rest) ∧
      cuts (t :: .operator op :: u :: rest) = cuts (.value (op.compute head v) :: rest) := by
  obtain ⟨-, -, hcut⟩ := Token.number?_of_ofToken ht
  obtain ⟨-, -, hcut'⟩ := Token.number?_of_ofToken hu
  have hop : (Token.operator op).isCut = false := by simpa [hl] using Token.isCut_operator op
  have hvalue : (Token.value (op.compute head v)).isCut = false := rfl
  obtain ⟨piece, pieces, hrest⟩ := List.exists_cons_of_ne_nil (List.splitOnP_ne_nil Token.isCut rest)
  constructor
  · rw [pieceValues, pieceValues, splitOnP_of_not_cut hcut (splitOnP_of_not_cut hop (splitOnP_of_not_cut hcut' hrest)),
      splitOnP_of_not_cut hvalue hrest, List.map_cons, List.map_cons, foldPiece_operation ht hu]
  · simp [cuts, hcut, hop, hcut', hvalue]

theorem pieces_cut (ht : Term.ofToken t = .ok (.value v)) (hl : op.precedence ≠ .multiplicative) (rest : List Token) :
    pieceValues (t :: .operator op :: rest) = v :: pieceValues rest ∧
      cuts (t :: .operator op :: rest) = op :: cuts rest := by
  obtain ⟨-, -, hcut⟩ := Token.number?_of_ofToken ht
  have hop : (Token.operator op).isCut = true := (Token.isCut_operator op).mpr hl
  have hsplit : (Token.operator op :: rest).splitOnP Token.isCut = [] :: rest.splitOnP Token.isCut := by
    rw [List.splitOnP_cons_eq_if_modifyHead, if_pos hop]
  constructor
  · rw [pieceValues, splitOnP_of_not_cut hcut hsplit, List.map_cons, foldPiece_single ht]
    rfl
  · rw [cuts, List.filter_cons_of_neg (by simp [hcut]), List.filter_cons_of_pos hop]
    rfl

/-- The pieces of a sequence are what the first pass combines, and the cuts are the operators that it steps over. -/
theorem pieces_of_combine (h : Term.ofTokens ts = .ok (Chain.mk head tail).terms)
    (hd : Chain.combine .multiplicative head tail = some d) :
    pieceValues ts = d.head :: d.tail.map Prod.snd ∧ cuts ts = d.tail.map Prod.fst := by
  induction tail generalizing head ts d with
  | nil =>
      cases hd
      obtain ⟨t, rest, rfl, ht, hrest⟩ := Term.ofTokens_eq_cons h
      obtain rfl := Term.ofTokens_eq_nil hrest
      exact pieces_single ht
  | cons y tail ih =>
      obtain ⟨op, v⟩ := y
      obtain ⟨t, u, rest, rfl, ht, hu, hnext, hcombined⟩ := Term.exists_operation h
      by_cases hl : op.precedence = .multiplicative
      · obtain ⟨hpieces, hcuts⟩ := pieces_operation ht hu hl rest
        rw [Chain.combine_of_eq hl] at hd
        obtain ⟨w, hw, hd⟩ := Option.bind_eq_some_iff.mp hd
        rw [op.value?_eq_compute] at hw
        split at hw
        · cases hw
        · cases hw
          rw [hpieces, hcuts]
          exact ih (hcombined _) hd
      · obtain ⟨hpieces, hcuts⟩ := pieces_cut ht hl (u :: rest)
        rw [Chain.combine_of_ne hl] at hd
        obtain ⟨d, hd', rfl⟩ := Option.map_eq_some_iff.mp hd
        obtain ⟨hpieces', hcuts'⟩ := ih hnext hd'
        rw [hpieces, hcuts, hpieces', hcuts']
        exact ⟨rfl, rfl⟩

theorem value_eq_foldLevels (h : Term.ofTokens ts = .ok c.terms) :
    (HasZeroDivisor ts ∧ c.value = none) ∨ ¬ HasZeroDivisor ts ∧ c.value = some (foldLevels ts) := by
  rw [Chain.hasZeroDivisor_iff h, Chain.value, ← Chain.combine_eq_none_iff]
  cases hd : Chain.combine .multiplicative c.head c.tail with
  | none => exact .inl ⟨rfl, rfl⟩
  | some d =>
      have hadd : ∀ y ∈ d.tail, y.1.precedence = .additive := fun y hy =>
        Pass.precedence_eq_additive (Chain.precedence_of_combine hd y hy)
      obtain ⟨hpieces, hcuts⟩ := pieces_of_combine h hd
      refine .inr ⟨Option.some_ne_none d, ?_⟩
      rw [foldLevels, hpieces, hcuts]
      exact Chain.fold_of_additive hadd

/-- A calculation has a value just if numbers and operators take turns and nothing is divided by a zero. The value is then
that of the two levels. -/
theorem reduce_by_levels (ts : List Token) (v : Float) :
    (reduce ts).outcome = .ok v ↔ Alternates ts ∧ ¬ HasZeroDivisor ts ∧ foldLevels ts = v := by
  constructor
  · intro h
    obtain ⟨c, hc, hv⟩ := chain_of_reduce h
    refine ⟨Chain.alternates hc, ?_⟩
    rcases value_eq_foldLevels hc with ⟨-, hnone⟩ | ⟨hdivisor, hvalue⟩
    · rw [hnone] at hv
      cases hv
    · exact ⟨hdivisor, Option.some.inj (hvalue.symm.trans hv)⟩
  · rintro ⟨halternates, hdivisor, rfl⟩
    obtain ⟨c, hc⟩ := halternates.exists_chain
    rcases value_eq_foldLevels hc with ⟨hzero, -⟩ | ⟨-, hvalue⟩
    · exact absurd hzero hdivisor
    · rw [reduce_chain hc, hvalue]
      rfl

example : foldLevels [.literal "8", .operator .subtract, .literal "6", .operator .divide, .value 2.0, .operator .multiply,
    .literal "3", .operator .add, .literal "1.5"] = 0.5 := by decide +kernel

end Calculator
