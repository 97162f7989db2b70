import Calculator.Proofs.Alternating

namespace Calculator

open Outcome

inductive Kind
  | unreadable (text : String)
  | number (zero : Bool)
  | operator (op : Operator)
  | other
deriving DecidableEq, Repr

namespace Kind

def unreadable? : Kind → Option String
  | unreadable text => some text
  | _ => none

def operator? : Kind → Option Operator
  | operator op => some op
  | _ => none

def isNumber (k : Kind) : Bool := k matches number _

def isZero (k : Kind) : Bool := k matches number true

end Kind

def Operand.kind : Operand → Kind
  | literal text =>
      match Numeral.read? text with
      | some v => .number (v == 0.0)
      | none => .unreadable text
  | value v => .number (v == 0.0)

def Token.kind : Token → Kind
  | operand x => x.kind
  | operator op => .operator op
  | opening | closing | blank => .other

def Term.kind : Term → Kind
  | value v => .number (v == 0.0)
  | operator op => .operator op
  | foreign => .other

section

variable (ks : List Kind) (p : Nat)

def operatorAt? : Option Operator := ks[p]?.bind Kind.operator?

def numberAt : Bool := ks[p]?.any Kind.isNumber

def zeroAt : Bool := ks[p]?.any Kind.isZero

def levelAt? : Option Precedence := (operatorAt? ks p).map Operator.precedence

def stopsAt : Bool :=
  match operatorAt? ks p with
  | none => true
  | some op =>
      op.precedence == .multiplicative &&
        (!numberAt ks (p - 1) || !numberAt ks (p + 1) || op == .divide && zeroAt ks (p + 1))

/-- The least of the odd positions at which it fails. -/
def stop? : Option Nat := (List.range ks.length).find? fun p => p % 2 == 1 && stopsAt ks p

def productsBelow : Nat := (List.range p).countP fun q => q % 2 == 1 && levelAt? ks q == some .multiplicative

/-- What it fails with there. The sequence is shorter by two tokens for each operator that it has combined. -/
def stopError : EvalError :=
  if operatorAt? ks p = none then .expectedOperator (p - 2 * productsBelow ks p)
  else if !numberAt ks (p - 1) then .expectedOperand (p - 1 - 2 * productsBelow ks p)
  else if !numberAt ks (p + 1) then .expectedOperand (p + 1 - 2 * productsBelow ks p)
  else .divisionByZero

def dangles : Bool :=
  (List.range ks.length).any fun p => p % 2 == 1 && levelAt? ks p == some .additive && !numberAt ks (p + 1)

/-- The error of a sequence, if it has one. -/
def diagnosis : Option EvalError :=
  match ks.findSome? Kind.unreadable? with
  | some text => some (.invalidNumber text)
  | none =>
      if ks = [] then some .emptyExpression
      else if !numberAt ks 0 then some (.expectedOperand 0)
      else
        match stop? ks with
        | some p => some (stopError ks p)
        | none => if dangles ks then some (.expectedOperand 2) else none

end

variable {ts us : List Token} {terms : List Term} {ks : List Kind} {pos : Nat} {p q : Pass} {e : EvalError} {v : Float}

namespace Term

theorem isNumber_kind (t : Term) : t.kind.isNumber = t.value?.isSome := by
  cases t <;> rfl

theorem ofToken_cases (t : Token) :
    (∃ x, ofToken t = .ok x ∧ x.kind = t.kind ∧ t.kind.unreadable? = none) ∨
      ∃ text, ofToken t = .error (.invalidNumber text) ∧ t.kind.unreadable? = some text := by
  cases t with
  | operator op => exact .inl ⟨operator op, rfl, rfl, rfl⟩
  | opening | closing | blank => exact .inl ⟨foreign, rfl, rfl, rfl⟩
  | operand x =>
      cases x with
      | value v => exact .inl ⟨value v, rfl, rfl, rfl⟩
      | literal text =>
          rw [Token.kind, Operand.kind, ofToken, Operand.read]
          cases Numeral.read? text with
          | some v => exact .inl ⟨value v, rfl, rfl, rfl⟩
          | none => exact .inr ⟨text, rfl, rfl⟩

theorem ofTokens_cases (ts : List Token) :
    (∃ terms, ofTokens ts = .ok terms ∧ terms.map kind = ts.map Token.kind ∧
        (ts.map Token.kind).findSome? Kind.unreadable? = none) ∨
      ∃ text, ofTokens ts = .error (.invalidNumber text) ∧
        (ts.map Token.kind).findSome? Kind.unreadable? = some text := by
  induction ts with
  | nil => exact .inl ⟨[], rfl, rfl, rfl⟩
  | cons t ts ih =>
      rw [List.map_cons, List.findSome?_cons, ofTokens]
      rcases ofToken_cases t with ⟨x, hx, hkind, hread⟩ | ⟨text, htext, hread⟩
      · rw [hx, hread]
        rcases ih with ⟨xs, hxs, hkinds, hreads⟩ | ⟨text, htext, hreads⟩
        · rw [hxs]
          exact .inl ⟨x :: xs, rfl, by rw [List.map_cons, hkind, hkinds], hreads⟩
        · rw [htext]
          exact .inr ⟨text, rfl, hreads⟩
      · rw [htext, hread]
        exact .inr ⟨text, rfl, rfl⟩

end Term

namespace Pass

theorem step_eq_failed {level : Precedence} (h : p.step level = .failed e) :
    ∃ left t rest, p.ahead = left :: t :: rest ∧
      ((t.kind.operator? = none ∧ e = .expectedOperator p.index) ∨
        ∃ op, t = .operator op ∧ op.precedence = level ∧ combination op p.index left rest.head? = .error e) := by
  unfold step at h
  split at h
  · next left op rest hp =>
      split at h
      · next hl =>
          split at h
          · cases h
          · next hc =>
              cases h
              exact ⟨left, .operator op, rest, hp, .inr ⟨op, rfl, hl, hc⟩⟩
      · cases h
  · next left t rest hop hp =>
      cases h
      refine ⟨left, t, rest, hp, .inl ⟨?_, rfl⟩⟩
      cases t with
      | operator op => exact (hop op rfl).elim
      | value | foreign => rfl
  · cases h

theorem combination_eq_error {op : Operator} {index : Nat} {left : Term} {right : Option Term}
    (h : combination op index left right = .error e) :
    (left.kind.isNumber = false ∧ e = .expectedOperand (index - 1)) ∨
      (left.kind.isNumber ∧ right.any (·.kind.isNumber) = false ∧ e = .expectedOperand (index + 1)) ∨
        left.kind.isNumber ∧ right.any (·.kind.isNumber) ∧ op = .divide ∧ right.any (·.kind.isZero) ∧
          e = .divisionByZero := by
  unfold combination at h
  rw [Term.isNumber_kind]
  split at h
  · next hl =>
      cases h
      exact .inl ⟨by rw [hl]; rfl, rfl⟩
  · next x hl =>
      refine .inr ?_
      rw [hl]
      split at h
      · next hr =>
          cases h
          refine .inl ⟨rfl, ?_, rfl⟩
          cases right with
          | none => rfl
          | some t =>
              change t.kind.isNumber = false
              rw [Term.isNumber_kind, show t.value? = none from hr]
              rfl
      · next y hr =>
          obtain ⟨t, rfl, ht⟩ := Option.bind_eq_some_iff.mp hr
          cases Term.value?_eq_some.mp ht
          cases op with
          | add | subtract | multiply => cases h
          | divide =>
              rw [Operator.apply] at h
              split at h
              · next hz =>
                  cases h
                  refine .inr ⟨rfl, rfl, rfl, ?_, rfl⟩
                  change (Kind.number (y == 0.0)).isZero = true
                  rw [hz]
                  rfl
              · cases h

/-- Where a pass stands in the sequence that it started with: the operator to be looked at next is the token at a position
there, the terms after it are those after this position, and the term before it is a number just if the token is. -/
structure Tracks (ks : List Kind) (pos : Nat) (p : Pass) : Prop where
  odd : pos % 2 = 1
  index : p.index + 2 * productsBelow ks pos = pos
  left : p.ahead.head?.any (·.kind.isNumber) = numberAt ks (pos - 1)
  tail : p.ahead.tail.map Term.kind = ks.drop pos
  clear : ∀ i < pos, i % 2 = 1 → stopsAt ks i = false

theorem tracks_start {x : Term} {xs : List Term} (h : (x :: xs).map Term.kind = ks) : Tracks ks 1 (start (x :: xs)) := by
  subst h
  exact ⟨rfl, rfl, rfl, rfl, fun i hi hodd => by omega⟩

structure Window (ks : List Kind) (pos : Nat) (left t : Term) (rest : List Term) : Prop where
  operator : operatorAt? ks pos = t.kind.operator?
  left : numberAt ks (pos - 1) = left.kind.isNumber
  right : numberAt ks (pos + 1) = rest.head?.any (·.kind.isNumber)
  zero : zeroAt ks (pos + 1) = rest.head?.any (·.kind.isZero)
  tail : rest.tail.map Term.kind = ks.drop (pos + 2)

variable {left t : Term} {rest : List Term}

theorem Tracks.window (h : Tracks ks pos p) (hp : p.ahead = left :: t :: rest) : Window ks pos left t rest := by
  obtain ⟨-, -, hleft, htail, -⟩ := h
  rw [hp] at hleft htail
  have hpos : ks[pos]? = some t.kind := by
    rw [← Nat.add_zero pos, ← List.getElem?_drop, ← htail]
    rfl
  have hright : ks[pos + 1]? = rest.head?.map Term.kind := by
    rw [← List.getElem?_drop, ← htail]
    cases rest <;> rfl
  refine ⟨?_, hleft.symm, ?_, ?_, ?_⟩
  · rw [operatorAt?, hpos]
    rfl
  · rw [numberAt, hright]
    cases rest <;> rfl
  · rw [zeroAt, hright]
    cases rest <;> rfl
  · rw [← List.drop_drop, ← htail]
    cases rest <;> rfl

theorem Tracks.length_le (h : Tracks ks pos p) (hs : p.step .multiplicative = .finished) : ks.length ≤ pos := by
  have htail : p.ahead.tail = [] := by
    rw [← List.length_eq_zero_iff, List.length_tail]
    have hlength := step_finished hs
    omega
  rw [← List.drop_eq_nil_iff, ← h.tail, htail]
  rfl

theorem Tracks.lt_length (h : Tracks ks pos p) (hp : p.ahead = left :: t :: rest) : pos < ks.length := by
  have htail := congrArg List.length h.tail
  rw [hp, List.length_map, List.length_drop] at htail
  simp at htail
  omega

theorem Tracks.stops (h : Tracks ks pos p) (hs : p.step .multiplicative = .failed e) :
    pos < ks.length ∧ stopsAt ks pos = true ∧ e = stopError ks pos := by
  obtain ⟨left, t, rest, hp, hcause⟩ := step_eq_failed hs
  obtain ⟨hoperator, hleft, hright, hzero, -⟩ := h.window hp
  have hindex := h.index
  refine ⟨h.lt_length hp, ?_⟩
  rw [stopsAt, stopError]
  rcases hcause with ⟨hnone, rfl⟩ | ⟨op, rfl, hl, hc⟩
  · rw [hoperator, hnone, if_pos rfl]
    refine ⟨rfl, congrArg _ ?_⟩
    omega
  · have hop : operatorAt? ks pos = some op := hoperator
    rw [hop, hleft, hright, hzero]
    rcases combination_eq_error hc with ⟨hx, rfl⟩ | ⟨hx, hy, rfl⟩ | ⟨hx, hy, rfl, hz, rfl⟩
    · simp [hx, hl]
      omega
    · simp [hx, hy, hl]
      omega
    · simp [hx, hy, hz, Operator.precedence]

theorem productsBelow_succ (ks : List Kind) (i : Nat) : productsBelow ks (i + 1) =
    productsBelow ks i + if i % 2 = 1 ∧ levelAt? ks i = some .multiplicative then 1 else 0 := by
  rw [productsBelow, List.range_succ, List.countP_append, ← productsBelow, List.countP_singleton]
  simp

theorem productsBelow_add_two (h : pos % 2 = 1) :
    productsBelow ks (pos + 2) = productsBelow ks pos + if levelAt? ks pos = some .multiplicative then 1 else 0 := by
  have heven : (pos + 1) % 2 ≠ 1 := by omega
  rw [productsBelow_succ, productsBelow_succ]
  simp [h, heven]

theorem two_mul_productsBelow_le (ks : List Kind) (i : Nat) : 2 * productsBelow ks i ≤ i := by
  have hhalf : productsBelow ks i ≤ i / 2 := by
    induction i with
    | zero => exact Nat.le_refl 0
    | succ i ih =>
        rw [productsBelow_succ]
        split <;> omega
  omega

theorem Tracks.clear_add_two (h : Tracks ks pos p) (hpos : stopsAt ks pos = false) :
    ∀ i < pos + 2, i % 2 = 1 → stopsAt ks i = false := by
  intro i hi hodd
  rcases Nat.lt_or_ge i pos with hlt | hge
  · exact h.clear i hlt hodd
  · have hpos' := h.odd
    obtain rfl : i = pos := by omega
    exact hpos

theorem Tracks.skipped (h : Tracks ks pos p) (hs : p.step .multiplicative = .skipped q) : Tracks ks (pos + 2) q := by
  obtain ⟨left, op, rest, hp, hl, rfl⟩ := step_eq_skipped hs
  obtain ⟨hoperator, -, hright, -, htail⟩ := h.window hp
  have hodd := h.odd
  have hindex := h.index
  have hop : operatorAt? ks pos = some op := hoperator
  have hpos : stopsAt ks pos = false := by simp [stopsAt, hop, hl]
  refine ⟨by omega, ?_, hright.symm, htail, h.clear_add_two hpos⟩
  rw [productsBelow_add_two hodd, levelAt?, hop, Option.map_some, if_neg fun h => hl (Option.some.inj h)]
  simp only [Pass.index, List.length_cons] at hindex ⊢
  omega

theorem Tracks.combined {c : Combination} (h : Tracks ks pos p) (hs : p.step .multiplicative = .combined c q) :
    Tracks ks (pos + 2) q := by
  obtain ⟨rest, hp, hl, happly, rfl⟩ := step_eq_combined hs
  obtain ⟨hoperator, hleft, hright, hzero, htail⟩ := h.window hp
  have hodd := h.odd
  have hindex := h.index
  have hop : operatorAt? ks pos = some c.operator := hoperator
  have hpos : stopsAt ks pos = false := by
    have hx : numberAt ks (pos - 1) = true := hleft
    have hy : numberAt ks (pos + 1) = true := hright
    simp [stopsAt, hop, hx, hy]
    intro _ hd
    rw [hd, Operator.apply] at happly
    split at happly
    · cases happly
    · next hz => simp [hzero, Term.kind, Kind.isZero, hz]
  refine ⟨by omega, ?_, hright.symm, htail, h.clear_add_two hpos⟩
  rw [productsBelow_add_two hodd, levelAt?, hop, Option.map_some, if_pos (congrArg some hl)]
  simp only [Pass.index] at hindex ⊢
  omega

theorem Tracks.run (h : Tracks ks pos p) :
    (∃ out, (p.run .multiplicative).outcome = .ok out ∧ stop? ks = none) ∨
      ∃ i, (p.run .multiplicative).outcome = .error (stopError ks i) ∧ stop? ks = some i := by
  -- Each step moves on by one operator, which is two positions there, and the pass meets the odd ones in order.
  fun_induction Pass.run .multiplicative p generalizing pos with
  | case1 p hs =>
      refine .inl ⟨p.terms, rfl, List.find?_eq_none.mpr fun i hi => ?_⟩
      have hlength := h.length_le hs
      have hclear := h.clear i (by have := List.mem_range.mp hi; omega)
      simpa using hclear
  | case2 p e hs =>
      obtain ⟨hlt, hstops, rfl⟩ := h.stops hs
      refine .inr ⟨pos, rfl, List.find?_range_eq_some.mpr ⟨?_, List.mem_range.mpr hlt, fun i hi => ?_⟩⟩
      · simp [h.odd, hstops]
      · rcases Nat.mod_two_eq_zero_or_one i with heven | hodd
        · simp [heven]
        · simp [h.clear i hi hodd]
  | case3 p q hs ih => exact ih (h.skipped hs)
  | case4 p c q hs ih =>
      rw [Traced.outcome_bind]
      exact ih (h.combined hs)

/-- The second pass starts over at the front after each operator, so whatever it misses is missing there. -/
theorem error_of_additive (hb : p.behind = []) (hc : Cleared .multiplicative p.ahead)
    (hv : Term.first p.ahead = .ok v) (h : (p.run .additive).outcome = .error e) : e = .expectedOperand 2 := by
  fun_induction run .additive p generalizing v with
  | case1 p hs => cases h
  | case2 p error hs =>
      cases h
      obtain ⟨left, t, rest, hp, hcause⟩ := step_eq_failed hs
      rw [hp] at hc hv
      rw [index, hb] at hcause
      obtain ⟨rest, hrest⟩ := Term.first_eq_ok hv
      cases hrest
      obtain ⟨⟨op, rfl, -⟩, -⟩ := hc
      rcases hcause with ⟨hnone, -⟩ | ⟨op', hop, hl, hcause⟩
      · cases hnone
      · cases hop
        rcases combination_eq_error hcause with ⟨hx, -⟩ | ⟨-, -, rfl⟩ | ⟨-, -, rfl, -⟩
        · cases hx
        · rfl
        · cases hl
  | case3 p q hs ih => exact absurd hs hc.not_skipped
  | case4 p c q hs ih =>
      rw [Traced.outcome_bind] at h
      obtain ⟨rest, -, -, -, hq⟩ := step_eq_combined hs
      have hfirst : Term.first q.ahead = .ok c.value := by
        rw [hq]
        rfl
      exact ih ((behind_combined hs).trans hb) (hc.combined hs) hfirst h

end Pass

theorem operatorAt?_map {i : Nat} {op : Operator} :
    operatorAt? (terms.map Term.kind) i = some op ↔ terms[i]? = some (.operator op) := by
  rw [operatorAt?, List.getElem?_map]
  rcases terms[i]? with _ | _ | _ | _ <;> simp [Term.kind, Kind.operator?]

theorem numberAt_map {i : Nat} : numberAt (terms.map Term.kind) i = true ↔ ∃ v, terms[i]? = some (.value v) := by
  rw [numberAt, List.getElem?_map]
  rcases terms[i]? with _ | _ | _ | _ <;> simp [Term.kind, Kind.isNumber]

theorem dangles_eq_false : dangles ks = false ↔
    ∀ i < ks.length, i % 2 = 1 → levelAt? ks i = some .additive → numberAt ks (i + 1) = true := by
  simp [dangles]

theorem number_after_of_clear {i : Nat} (hstop : stop? ks = none) (hdangles : dangles ks = false) (hi : i < ks.length)
    (hodd : i % 2 = 1) : ∃ op, operatorAt? ks i = some op ∧ numberAt ks (i + 1) = true := by
  have hclear : stopsAt ks i = false := by
    simpa [hodd] using List.find?_eq_none.mp hstop i (List.mem_range.mpr hi)
  cases hop : operatorAt? ks i with
  | none => simp [stopsAt, hop] at hclear
  | some op =>
      refine ⟨op, rfl, ?_⟩
      by_cases hl : op.precedence = .multiplicative
      · simp [stopsAt, hop, hl] at hclear
        exact hclear.1.2
      · refine dangles_eq_false.mp hdangles i hi hodd ?_
        rw [levelAt?, hop, Option.map_some, Pass.precedence_eq_additive hl]

theorem chain_of_not_dangles (hv : Term.first terms = .ok v) (hstop : stop? (terms.map Term.kind) = none)
    (hdangles : dangles (terms.map Term.kind) = false) : ∃ c : Chain, terms = c.terms := by
  obtain ⟨terms, rfl⟩ := Term.first_eq_ok hv
  refine Chain.exists_terms fun i hi => ?_
  have hlt : 2 * i + 1 < ((Term.value v :: terms).map Term.kind).length := by simpa using hi
  obtain ⟨op, hop, hnumber⟩ := number_after_of_clear hstop hdangles hlt (by omega)
  obtain ⟨w, hw⟩ := numberAt_map.mp hnumber
  exact ⟨op, w, operatorAt?_map.mp hop, hw⟩

theorem dangles_chain (c : Chain) : dangles (c.terms.map Term.kind) = false := by
  refine dangles_eq_false.mpr fun i hi hodd _ => numberAt_map.mpr ?_
  rw [List.length_map, c.length_terms] at hi
  obtain ⟨j, rfl⟩ : ∃ j, i = 2 * j + 1 := ⟨i / 2, by omega⟩
  have hj : j < c.tail.length := by omega
  exact ⟨c.tail[j].2, by rw [c.getElem?_value, List.getElem?_eq_getElem hj]; rfl⟩

theorem diagnosis_of_value {rest : List Term} (h : (Term.value v :: rest).map Term.kind = ks)
    (hread : ks.findSome? Kind.unreadable? = none) :
    diagnosis ks = match stop? ks with
      | some i => some (stopError ks i)
      | none => if dangles ks then some (.expectedOperand 2) else none := by
  subst h
  rw [diagnosis, hread]
  rfl

theorem reduce_of_products {products : List Term} (hterms : Term.ofTokens ts = .ok terms) (hv : Term.first terms = .ok v)
    (hp : ((Pass.start terms).run .multiplicative).outcome = .ok products) (hstop : stop? (terms.map Term.kind) = none) :
    ((reduce ts).outcome = .error (.expectedOperand 2) ∧ dangles (terms.map Term.kind) = true) ∨
      ∃ w, (reduce ts).outcome = .ok w ∧ dangles (terms.map Term.kind) = false := by
  have houtcome : (reduce ts).outcome = ((Pass.start products).run .additive).outcome >>= Term.first := by
    rw [reduce_outcome, hterms]
    change (Term.first terms >>= _) = _
    rw [hv]
    change (((Pass.start terms).run .multiplicative).outcome >>= _) = _
    rw [hp]
    rfl
  cases hs : ((Pass.start products).run .additive).outcome with
  | error e =>
      obtain ⟨rest, hrest, hcleared⟩ := Pass.run_eq_ok hp
      obtain rfl : products = rest := hrest
      obtain ⟨w, hw⟩ := Pass.first_of_run hp hv
      obtain rfl := Pass.error_of_additive rfl hcleared hw hs
      rw [hs] at houtcome
      refine .inl ⟨houtcome, Bool.not_eq_false _ |>.mp fun hdangles => ?_⟩
      obtain ⟨c, rfl⟩ := chain_of_not_dangles hv hstop hdangles
      rw [reduce_chain hterms] at houtcome
      cases hc : c.value <;> simp [hc, orDivisionByZero, bind, Except.bind] at houtcome
  | ok sums =>
      obtain ⟨w, rfl⟩ := Pass.single_of_passes hv hp hs
      have hw : (reduce ts).outcome = .ok w := by
        rw [houtcome, hs]
        rfl
      obtain ⟨c, hc, -⟩ := chain_of_reduce hw
      obtain rfl : terms = c.terms := Except.ok.inj (hterms.symm.trans hc)
      exact .inr ⟨w, hw, dangles_chain c⟩

theorem reduce_diagnosed (ts : List Token) :
    (∃ e, (reduce ts).outcome = .error e ∧ diagnosis (ts.map Token.kind) = some e) ∨
      ∃ v, (reduce ts).outcome = .ok v ∧ diagnosis (ts.map Token.kind) = none := by
  rcases Term.ofTokens_cases ts with ⟨terms, hterms, hkinds, hread⟩ | ⟨text, hterms, hread⟩
  · match terms with
    | [] =>
        rw [reduce_outcome, hterms, ← hkinds]
        exact .inl ⟨.emptyExpression, rfl, rfl⟩
    | .operator _ :: _ | .foreign :: _ =>
        refine .inl ⟨.expectedOperand 0, ?_, ?_⟩
        · rw [reduce_outcome, hterms]
          rfl
        · rw [diagnosis, hread, ← hkinds]
          rfl
    | .value v :: rest =>
        rw [diagnosis_of_value hkinds hread]
        rcases (Pass.tracks_start hkinds).run with ⟨products, hp, hstop⟩ | ⟨i, hp, hstop⟩
        · rw [hstop, ← hkinds]
          rw [← hkinds] at hstop
          rcases reduce_of_products hterms rfl hp hstop with ⟨herror, hdangles⟩ | ⟨w, hok, hdangles⟩
          · exact .inl ⟨_, herror, if_pos hdangles⟩
          · refine .inr ⟨w, hok, ?_⟩
            rw [hdangles]
            rfl
        · rw [hstop, reduce_outcome, hterms]
          change (∃ e, (((Pass.start (.value v :: rest)).run .multiplicative).outcome >>= _) = .error e ∧ _) ∨ _
          rw [hp]
          exact .inl ⟨_, rfl, rfl⟩
  · refine .inl ⟨.invalidNumber text, ?_, by rw [diagnosis, hread]⟩
    rw [reduce_outcome, hterms]
    rfl

theorem reduce_error_iff (ts : List Token) (e : EvalError) :
    (reduce ts).outcome = .error e ↔ diagnosis (ts.map Token.kind) = some e := by
  rcases reduce_diagnosed ts with ⟨e', he, hdiagnosis⟩ | ⟨v, hv, hdiagnosis⟩
  · simp [he, hdiagnosis]
  · simp [hv, hdiagnosis]

/-- Whether a calculation fails and with which error is told by the kinds of its tokens alone, so it depends on no value of a
number but on which numbers are zero. No index in an error has been cut off at zero. -/
theorem reduce_error_by_kinds (ts : List Token) :
    (∀ e, (reduce ts).outcome = .error e ↔ diagnosis (ts.map Token.kind) = some e) ∧
      (∀ i, 2 * productsBelow (ts.map Token.kind) i ≤ i) ∧
      ∀ us : List Token, us.map Token.kind = ts.map Token.kind →
        ∀ e, (reduce us).outcome = .error e ↔ (reduce ts).outcome = .error e := by
  refine ⟨reduce_error_iff ts, Pass.two_mul_productsBelow_le _, fun us hkinds e => ?_⟩
  rw [reduce_error_iff, reduce_error_iff, hkinds]

theorem reduce_division_before_operand :
    (reduce [.literal "1", .operator .add, .operator .add, .operator .add, .literal "5", .operator .divide,
        .literal "0"]).outcome = .error .divisionByZero ∧
      (reduce [.value 2.5, .operator .add, .operator .add, .operator .add, .literal "0.7", .operator .divide,
        .value (-0.0)]).outcome = .error .divisionByZero := by
  obtain ⟨hrule, -, hkinds⟩ := reduce_error_by_kinds [.literal "1", .operator .add, .operator .add, .operator .add,
    .literal "5", .operator .divide, .literal "0"]
  have hdivision := (hrule .divisionByZero).mpr (by decide +kernel)
  exact ⟨hdivision, (hkinds _ (by decide +kernel) _).mpr hdivision⟩

end Calculator
