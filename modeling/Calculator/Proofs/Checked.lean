import Calculator.Proofs.Chain
import Calculator.Proofs.Nesting

namespace Calculator.Checked

/-- An access outside of a sequence, something wrongly taken for granted, or a loop that goes on after its last turn. -/
inductive Fault
  | bounds
  | assertion
  | turns
deriving DecidableEq, Repr

abbrev Attempt (α : Type) : Type := ExceptT EvalError (Except Fault) α

variable {α β : Type}

def fault (f : Fault) : Attempt α := ExceptT.lift (.error f)

def predecessor : Nat → Except Fault Nat
  | 0 => .error .bounds
  | i + 1 => .ok i

def slice (xs : List α) (first stop : Nat) : Except Fault (List α) :=
  if first ≤ stop ∧ stop ≤ xs.length then .ok ((xs.take stop).drop first) else .error .bounds

def splice (xs : List α) (first stop : Nat) (x : α) : Except Fault (List α) :=
  if first ≤ stop ∧ stop ≤ xs.length then .ok (xs.take first ++ x :: xs.drop stop) else .error .bounds

def operandAt (terms : List Term) (index : Nat) : Except EvalError Float :=
  match terms[index]?.bind Term.value? with
  | some v => .ok v
  | none => .error (.expectedOperand index)

def operatorAt (terms : List Term) (index : Nat) : Except EvalError Operator :=
  match terms[index]? with
  | some (.operator op) => .ok op
  | _ => .error (.expectedOperator index)

/-- A sequence and the index of the operator to be looked at next. -/
structure Cursor where
  terms : List Term
  index : Nat

def turn (level : Precedence) (c : Cursor) : Attempt Cursor := do
  let op ← operatorAt c.terms c.index
  if op.precedence = level then
    let left ← operandAt c.terms (← predecessor c.index)
    let right ← operandAt c.terms (c.index + 1)
    let value ← op.apply left right
    let terms ← splice c.terms (← predecessor c.index) (c.index + 2) (.value value)
    return ⟨terms, c.index⟩
  else return ⟨c.terms, c.index + 2⟩

def combine (level : Precedence) : (turns : Nat) → Cursor → Attempt (List Term)
  | 0, c => if c.index < c.terms.length then fault .turns else return c.terms
  | turns + 1, c => if c.index < c.terms.length then turn level c >>= combine level turns else return c.terms

/-- Each pass may take half as many turns as its sequence has terms. One value has to be left after both. -/
def reduce (tokens : List Token) : Attempt Float := do
  let terms ← Term.ofTokens tokens
  let _ ← Term.first terms
  let products ← combine .multiplicative (terms.length / 2) ⟨terms, 1⟩
  let sums ← combine .additive (products.length / 2) ⟨products, 1⟩
  if sums.length = 1 then
    match operandAt sums 0 with
    | .ok v => return v
    | .error _ => fault .assertion
  else fault .assertion

/-- The indices of the first closing parenthesis after an opening one and of the last opening one before it.
The sequence starts at `index`, and `opened` is the last opening parenthesis that came before. -/
def findFrom (index : Nat) (opened : Option Nat) : List Token → Option (Nat × Nat)
  | [] => none
  | .opening :: ts => findFrom (index + 1) (some index) ts
  | .closing :: ts =>
      match opened with
      | some first => some (first, index)
      | none => findFrom (index + 1) none ts
  | _ :: ts => findFrom (index + 1) opened ts

def rounds : (turns : Nat) → List Token → Except Fault (List Token × Option EvalError)
  | 0, ts => if .opening ∈ ts ∧ .closing ∈ ts then .error .turns else return (ts, none)
  | turns + 1, ts =>
      if .opening ∈ ts ∧ .closing ∈ ts then
        match findFrom 0 none ts with
        | none => return (ts, some .unbalancedParentheses)
        | some (first, last) => do
            let inside ← slice ts (first + 1) last
            match ← (reduce inside).run with
            | .error e => return (ts, some e)
            | .ok v => rounds turns (← splice ts first (last + 1) (.value v))
      else return (ts, none)

/-- There may be as many rounds as there are parentheses of the rarer kind. -/
def resolve (ts : List Token) : Except Fault (List Token × Option EvalError) :=
  rounds (min (ts.count .opening) (ts.count .closing)) ts

def evaluate (source : String) : Attempt Float := do
  let ts ← tokenize source
  match ← ExceptT.lift (resolve ts) with
  | (_, some e) => throw e
  | (ts, none) => if ts.any Token.isParenthesis then throw .unbalancedParentheses else reduce ts

theorem splice_append (xs ys zs : List α) (x : α) :
    splice (xs ++ (ys ++ zs)) xs.length (xs.length + ys.length) x = .ok (xs ++ x :: zs) := by
  have hbounds : xs.length ≤ xs.length + ys.length ∧ xs.length + ys.length ≤ (xs ++ (ys ++ zs)).length := by
    simp only [List.length_append]
    omega
  rw [splice, if_pos hbounds, List.take_left, ← List.append_assoc, ← List.length_append, List.drop_left]

theorem slice_append (xs ys zs : List α) :
    slice (xs ++ (ys ++ zs)) xs.length (xs.length + ys.length) = .ok ys := by
  have hbounds : xs.length ≤ xs.length + ys.length ∧ xs.length + ys.length ≤ (xs ++ (ys ++ zs)).length := by
    simp only [List.length_append]
    omega
  rw [slice, if_pos hbounds, ← List.append_assoc, ← List.length_append, List.take_left, List.drop_left]

theorem operandAt_append (xs ys : List Term) (i : Nat) :
    operandAt (xs ++ ys) (xs.length + i) =
      match ys[i]?.bind Term.value? with
      | some v => .ok v
      | none => .error (.expectedOperand (xs.length + i)) := by
  rw [operandAt, List.getElem?_append_right (Nat.le_add_right _ _), Nat.add_sub_cancel_left]

theorem operatorAt_append (xs ys : List Term) (i : Nat) :
    operatorAt (xs ++ ys) (xs.length + i) =
      match ys[i]? with
      | some (.operator op) => .ok op
      | _ => .error (.expectedOperator (xs.length + i)) := by
  rw [operatorAt, List.getElem?_append_right (Nat.le_add_right _ _), Nat.add_sub_cancel_left]

theorem turn_of_level {level : Precedence} {op : Operator} (hl : op.precedence = level) (xs : List Term)
    (left : Term) (rest : List Term) :
    turn level ⟨xs ++ left :: .operator op :: rest, xs.length + 1⟩ = do
      let c ← Pass.combination op (xs.length + 1) left rest.head?
      return ⟨xs ++ .value c.value :: rest.tail, xs.length + 1⟩ := by
  have hleft := operandAt_append xs (left :: .operator op :: rest) 0
  have hright := operandAt_append xs (left :: .operator op :: rest) 2
  rw [turn, operatorAt_append]
  change (if op.precedence = level then _ else _) = _
  rw [if_pos hl]
  change (liftM (operandAt _ (xs.length + 0)) >>= fun _ => liftM (operandAt _ (xs.length + 2)) >>= _ :
    Attempt Cursor) = _
  rw [hleft, hright]
  cases left with
  | operator | foreign => rfl
  | value x =>
      match rest with
      | [] | .operator _ :: _ | .foreign :: _ => rfl
      | .value y :: rest =>
          have hc : Pass.combination op (xs.length + 1) (.value x) (some (.value y)) =
              (op.apply x y).map fun v => ⟨x, op, y, v⟩ := rfl
          change (liftM (op.apply x y) >>= _ : Attempt Cursor) =
            liftM (Pass.combination op _ (Term.value x) (some (Term.value y))) >>= _
          rw [hc]
          cases op.apply x y with
          | error e => rfl
          | ok v =>
              have hsplice : splice (xs ++ .value x :: .operator op :: .value y :: rest) xs.length (xs.length + 1 + 2)
                  (.value v) = .ok (xs ++ .value v :: rest) :=
                splice_append xs [.value x, .operator op, .value y] rest (.value v)
              change (liftM (splice _ xs.length (xs.length + 1 + 2) (Term.value v)) >>= _ : Attempt Cursor) = _
              rw [hsplice]
              rfl

def Cursor.ofPass (p : Pass) : Cursor := ⟨p.terms, p.index⟩

theorem Cursor.index_lt_iff (p : Pass) : (ofPass p).index < (ofPass p).terms.length ↔ 2 ≤ p.ahead.length := by
  simp only [ofPass, Pass.index, Pass.terms, List.length_append, List.length_reverse]
  omega

def ofStep : Pass.Step → Attempt Cursor
  | .finished => fault .bounds
  | .failed e => throw e
  | .skipped q | .combined _ q => return .ofPass q

theorem turn_ofPass (level : Precedence) {p : Pass} (h : 2 ≤ p.ahead.length) :
    turn level (.ofPass p) = ofStep (p.step level) := by
  obtain ⟨behind, _ | ⟨left, _ | ⟨t, rest⟩⟩⟩ := p
  · simp at h
  · simp at h
  have hop : operatorAt (Cursor.ofPass ⟨behind, left :: t :: rest⟩).terms (behind.length + 1) =
      match some t with
      | some (.operator op) => .ok op
      | _ => .error (.expectedOperator (behind.length + 1)) := by
    rw [← List.length_reverse]
    exact operatorAt_append behind.reverse (left :: t :: rest) 1
  cases t with
  | value | foreign =>
      change (liftM (operatorAt _ (behind.length + 1)) >>= _ : Attempt Cursor) = _
      rw [hop]
      rfl
  | operator op =>
      by_cases hl : op.precedence = level
      · have hturn := turn_of_level hl behind.reverse left rest
        rw [List.length_reverse] at hturn
        refine hturn.trans ?_
        rw [Pass.step_of_level hl]
        cases Pass.combination op (behind.length + 1) left rest.head? with
        | error e => rfl
        | ok c => rfl
      · have hs : Pass.step level ⟨behind, left :: .operator op :: rest⟩ =
            .skipped ⟨.operator op :: left :: behind, rest⟩ := if_neg hl
        rw [hs]
        change (liftM (operatorAt _ (behind.length + 1)) >>= _ : Attempt Cursor) = _
        rw [hop]
        change (if op.precedence = level then _ else _) = _
        rw [if_neg hl]
        simp [ofStep, Cursor.ofPass, Pass.terms, Pass.index]

theorem combine_finished {level : Precedence} {p : Pass} (h : p.ahead.length ≤ 1) (turns : Nat) :
    combine level turns (.ofPass p) = return p.terms := by
  have hindex : ¬ (Cursor.ofPass p).index < (Cursor.ofPass p).terms.length := by
    rw [Cursor.index_lt_iff]
    omega
  cases turns with
  | zero => exact if_neg hindex
  | succ turns => exact if_neg hindex

theorem combine_step {level : Precedence} {p : Pass} (h : 2 ≤ p.ahead.length) (turns : Nat) :
    combine level (turns + 1) (.ofPass p) = ofStep (p.step level) >>= combine level turns := by
  rw [combine, if_pos ((Cursor.index_lt_iff p).mpr h), turn_ofPass level h]

theorem combine_ofPass {level : Precedence} {p : Pass} {turns : Nat} (h : p.ahead.length ≤ 2 * turns + 1) :
    combine level turns (.ofPass p) = ExceptT.mk (.ok (p.run level).outcome) := by
  -- A pass that has not finished has two terms ahead at least, so that there is a turn left for the step.
  fun_induction Pass.run level p generalizing turns with
  | case1 p hs =>
      rw [combine_finished (Pass.step_finished hs)]
      rfl
  | case2 p e hs =>
      have hp := Pass.two_le_of_step (hs.trans_ne (by simp))
      obtain ⟨turns, rfl⟩ := Nat.exists_eq_add_one.mpr (show 0 < turns by omega)
      rw [combine_step hp, hs]
      rfl
  | case3 p q hs ih =>
      have hp := Pass.two_le_of_step (hs.trans_ne (by simp))
      have hq := Pass.step_skipped hs
      obtain ⟨turns, rfl⟩ := Nat.exists_eq_add_one.mpr (show 0 < turns by omega)
      rw [combine_step hp, hs]
      exact ih (by omega)
  | case4 p c q hs ih =>
      have hp := Pass.two_le_of_step (hs.trans_ne (by simp))
      have hq := Pass.step_combined hs
      obtain ⟨turns, rfl⟩ := Nat.exists_eq_add_one.mpr (show 0 < turns by omega)
      rw [combine_step hp, hs]
      exact ih (by omega)

theorem combine_start (level : Precedence) (terms : List Term) :
    combine level (terms.length / 2) ⟨terms, 1⟩ = ExceptT.mk (.ok ((Pass.start terms).run level).outcome) :=
  combine_ofPass (p := .start terms) (by change terms.length ≤ _; omega)

theorem bind_eq {x : Except EvalError α} {f : α → Attempt β} {g : α → Except EvalError β}
    (h : ∀ a, x = .ok a → f a = ExceptT.mk (.ok (g a))) :
    (ExceptT.mk (.ok x) >>= f : Attempt β) = ExceptT.mk (.ok (x >>= g)) := by
  cases x with
  | error e => rfl
  | ok a => exact h a rfl

theorem reduce_eq (tokens : List Token) : reduce tokens = ExceptT.mk (.ok (Calculator.reduce tokens).outcome) := by
  rw [reduce_outcome, reduce]
  refine bind_eq fun terms _ => bind_eq fun v hv => ?_
  rw [combine_start]
  refine bind_eq fun products hp => ?_
  rw [combine_start]
  refine bind_eq fun sums hs => ?_
  obtain ⟨w, rfl⟩ := Pass.single_of_passes hv hp hs
  rfl

theorem findFrom_some (index first : Nat) (ts : List Token) :
    findFrom index (some first) ts =
      ((Group.startingAt? ts).map fun g => (first, index + g.inside.length)).or (findFrom index none ts) := by
  induction ts generalizing index with
  | nil => rfl
  | cons t ts ih =>
      cases t with
      | opening | closing => rfl
      | operand | operator | blank =>
          change findFrom (index + 1) (some first) ts = Option.or _ (findFrom (index + 1) none ts)
          rw [ih, Group.startingAt?_cons rfl, Option.map_map]
          simp only [Function.comp_def, List.length_cons, Nat.add_right_comm, Nat.add_assoc]

theorem findFrom_none (index : Nat) (ts : List Token) :
    findFrom index none ts = (Group.find? ts).map fun g => (index + g.first, index + g.last) := by
  induction ts generalizing index with
  | nil => rfl
  | cons t ts ih =>
      have hprepend : ((fun g : Group => (index + g.first, index + g.last)) ∘ Group.prepend t) =
          fun g => (index + 1 + g.first, index + 1 + g.last) := by
        funext g
        simp only [Function.comp_apply, Group.first, Group.last, Group.prepend, List.length_cons, Prod.mk.injEq]
        omega
      by_cases ht : t = .opening
      · subst ht
        change findFrom (index + 1) (some index) ts = ((Group.startingAt? ts).or _).map _
        rw [findFrom_some, ih, Option.map_or, Option.map_map, hprepend]
        congr 1
        refine Option.map_congr fun g hg => ?_
        simp only [Group.first, Group.last, Group.before_startingAt? hg, List.length_nil, Prod.mk.injEq]
        omega
      · rw [Group.find?_cons ht, Option.map_map, hprepend, ← ih]
        cases t with
        | opening => exact absurd rfl ht
        | closing | operand | operator | blank => rfl

theorem slice_inside (g : Group) : slice g.tokens (g.first + 1) g.last = .ok g.inside := by
  have h := slice_append (g.before ++ [.opening]) g.inside (.closing :: g.after)
  rw [List.append_assoc, List.length_append, List.length_singleton, Nat.add_right_comm] at h
  exact h

theorem splice_group (g : Group) (v : Float) : splice g.tokens g.first (g.last + 1) (.value v) = .ok (g.replaceBy v) := by
  have h := splice_append g.before (.opening :: (g.inside ++ [.closing])) g.after (.value v)
  rw [List.cons_append, List.append_assoc, List.length_cons, List.length_append, List.length_singleton] at h
  exact h

theorem count_replaceBy_lt (g : Group) (v : Float) :
    (g.replaceBy v).count .opening < g.tokens.count .opening ∧
      (g.replaceBy v).count .closing < g.tokens.count .closing := by
  constructor
  · simp only [Group.replaceBy, Group.tokens, List.count_append, List.count_cons_self]
    rw [List.count_cons_of_ne (by simp), List.count_cons_of_ne (by simp)]
    omega
  · simp only [Group.replaceBy, Group.tokens, List.count_append]
    rw [List.count_cons_of_ne (by simp), List.count_cons_of_ne (by simp), List.count_append, List.count_cons_self]
    omega

def ofRound (turns : Nat) (ts : List Token) : Round → Except Fault (List Token × Option EvalError)
  | .settled => return (ts, none)
  | .failed _ e => return (ts, some e)
  | .replaced _ next => rounds turns next

theorem rounds_succ (turns : Nat) (ts : List Token) : rounds (turns + 1) ts = ofRound turns ts (Round.of ts) := by
  rw [rounds, Round.of]
  by_cases hm : .opening ∈ ts ∧ .closing ∈ ts
  · rw [if_pos hm, if_pos hm, findFrom_none]
    cases hg : Group.find? ts with
    | none => rfl
    | some g =>
        obtain ⟨hts, -⟩ := Group.find?_eq_some hg
        have hinside := slice_inside g
        have hsplice := splice_group g
        rw [hts] at hinside hsplice
        simp only [Option.map_some, Nat.zero_add]
        rw [hinside]
        change ((reduce g.inside).run >>= _) = _
        rw [reduce_eq]
        cases hv : (Calculator.reduce g.inside).outcome with
        | error e => rfl
        | ok v =>
            change (splice ts g.first (g.last + 1) (.value v) >>= rounds turns) = _
            rw [hsplice]
            rfl
  · rw [if_neg hm, if_neg hm]
    rfl

theorem rounds_eq {turns : Nat} {ts : List Token} (h : min (ts.count .opening) (ts.count .closing) ≤ turns) :
    rounds turns ts = .ok (Calculator.resolve ts).result := by
  induction turns generalizing ts with
  | zero =>
      have hm : ¬ (.opening ∈ ts ∧ .closing ∈ ts) := by
        rw [← List.one_le_count_iff, ← List.one_le_count_iff]
        omega
      have hs : Round.of ts = .settled := if_neg hm
      rw [rounds, if_neg hm, resolve_settled hs]
      rfl
  | succ turns ih =>
      rw [rounds_succ]
      cases hr : Round.of ts with
      | settled =>
          rw [resolve_settled hr]
          rfl
      | failed events e =>
          rw [resolve_failed hr]
          rfl
      | replaced events next =>
          obtain ⟨g, v, rfl, -, rfl⟩ := Round.of_eq_replaced hr
          have hlt := count_replaceBy_lt g v
          rw [resolve_replaced hr]
          exact ih (by omega)

theorem resolve_eq (ts : List Token) : resolve ts = .ok (Calculator.resolve ts).result := rounds_eq (Nat.le_refl _)

theorem evaluate_eq (s : String) : evaluate s = ExceptT.mk (.ok (evaluate? s)) := by
  rw [evaluate?_eq_read, evaluate]
  refine bind_eq fun ts _ => ?_
  rw [resolve_eq, ← Nesting.settled_resolve]
  obtain ⟨us, _ | e⟩ := (Calculator.resolve ts).result
  · change (if us.any Token.isParenthesis then throw EvalError.unbalancedParentheses else reduce us) = _
    rw [settled]
    by_cases hflat : Flat us
    · rw [if_neg (mt any_isParenthesis.mp (not_not_intro hflat)), if_pos hflat, reduce_eq]
    · rw [if_pos (any_isParenthesis.mpr hflat), if_neg hflat]
      rfl
  · rfl

/-- No access falls outside of its sequence, no loop runs out of turns and nothing is taken for granted wrongly,
whatever the tokens or the source are. -/
theorem checked_without_fault :
    (∀ ts, (reduce ts).run = .ok (Calculator.reduce ts).outcome) ∧
      (∀ ts, resolve ts = .ok (Calculator.resolve ts).result) ∧
      ∀ s, (evaluate s).run = .ok (evaluate? s) :=
  ⟨reduce_eq, resolve_eq, evaluate_eq⟩

end Calculator.Checked
