import Calculator.Proofs.Reading

namespace Calculator

namespace Grammar

/-- The first sequence comes from the second by replacing some groups of the grammar by their values. -/
inductive Covers : List Token → List Token → Prop
  | nil : Covers [] []
  | token (t : Token) {ts source : List Token} : Covers ts source → Covers (t :: ts) (t :: source)
  | group (e : Sum) (v : Float) {ts source : List Token} : e.eval = some v → Covers ts source →
      Covers (.value v :: ts) (.opening :: (e.tokens ++ .closing :: source))

namespace Covers

theorem refl : (ts : List Token) → Covers ts ts
  | [] => nil
  | t :: ts => token t (refl ts)

theorem append {ts us source source' : List Token} (h : Covers ts source) (h' : Covers us source') :
    Covers (ts ++ us) (source ++ source') := by
  induction h with
  | nil => exact h'
  | token t _ ih => exact token t ih
  | group e v he _ ih => simpa using group e v he ih

theorem split {ts us source : List Token} (h : Covers (ts ++ us) source) :
    ∃ left right, source = left ++ right ∧ Covers ts left ∧ Covers us right := by
  induction ts generalizing source with
  | nil => exact ⟨[], source, rfl, nil, h⟩
  | cons t ts ih =>
      cases h with
      | token _ h =>
          obtain ⟨left, right, rfl, hl, hr⟩ := ih h
          exact ⟨t :: left, right, rfl, token t hl, hr⟩
      | group e v he h =>
          obtain ⟨left, right, rfl, hl, hr⟩ := ih h
          exact ⟨_, right, by simp, group e v he hl, hr⟩

theorem cons {t : Token} {ts source : List Token} (h : Covers (t :: ts) source) (ht : ∀ v, t ≠ .value v) :
    ∃ rest, source = t :: rest ∧ Covers ts rest := by
  cases h with
  | token _ h => exact ⟨_, rfl, h⟩
  | group e v => exact absurd rfl (ht v)

theorem factor {t : Token} {ts source : List Token} {v : Float} (h : Covers (t :: ts) source)
    (ht : Term.ofToken t = .ok (.value v)) :
    ∃ (f : Factor) (rest : List Token), f.chain? = some ⟨v, []⟩ ∧ source = f.tokens ++ rest ∧ Covers ts rest := by
  cases h with
  | token _ h =>
      cases t with
      | operand x =>
          obtain ⟨w, hw, hv⟩ := Term.read_of_ofToken ht
          cases hv
          exact ⟨.number x, _, by rw [Factor.chain?, Factor.eval, hw]; rfl, rfl, h⟩
      | operator | opening | closing | blank => cases ht
  | group e w he h =>
      cases ht
      exact ⟨.group e, _, by rw [Factor.chain?, Factor.eval, he]; rfl, by simp [Factor.tokens], h⟩

end Covers

theorem Sum.exists_snoc (e : Sum) (op : Operator) (f : Factor) :
    ∃ e' : Sum, e'.tokens = e.tokens ++ .operator op :: f.tokens ∧
      e'.chain? = e.chain? >>= fun c => f.chain?.map (c.join op) := by
  by_cases hadd : op.precedence = .additive
  · exact ⟨.more e op hadd (.one f), rfl, rfl⟩
  · have hmul : op.precedence = .multiplicative := by
      cases op <;> simp_all [Operator.precedence]
    cases e with
    | one p => exact ⟨.one (.more p op hmul f), rfl, rfl⟩
    -- The factor belongs to the last product, which the sum has to be opened for.
    | more e op' level p =>
        refine ⟨.more e op' level (.more p op hmul f), by simp [tokens, Product.tokens], ?_⟩
        rw [chain?, chain?, Product.chain?]
        cases e.chain? with
        | none => rfl
        | some c =>
            cases p.chain? with
            | none => rfl
            | some d =>
                cases f.chain? with
                | none => rfl
                | some g => exact congrArg some (c.join_join op' d op g)

theorem Covers.sum {ts source : List Token} {tail : List (Operator × Float)} (h : Covers ts source)
    (hts : Term.ofTokens ts = .ok (tail.flatMap fun x => [.operator x.1, .value x.2])) {e : Sum} {c : Chain}
    (he : e.chain? = some c) :
    ∃ e' : Sum, e'.tokens = e.tokens ++ source ∧ e'.chain? = some ⟨c.head, c.tail ++ tail⟩ := by
  induction tail generalizing ts source e c with
  | nil =>
      cases Term.ofTokens_eq_nil hts
      cases h
      exact ⟨e, by rw [List.append_nil], by rw [he, List.append_nil]⟩
  | cons x tail ih =>
      obtain ⟨op, v⟩ := x
      obtain ⟨t, _, rfl, ht, hus⟩ := Term.ofTokens_eq_cons hts
      obtain ⟨u, vs, rfl, hu, hvs⟩ := Term.ofTokens_eq_cons hus
      obtain rfl := Term.eq_operator_of_ofToken ht
      obtain ⟨_, rfl, hfactor⟩ := h.cons (by simp)
      obtain ⟨f, rest, hf, rfl, hrest⟩ := hfactor.factor hu
      obtain ⟨e', htokens, hchain⟩ := e.exists_snoc op f
      rw [he, hf] at hchain
      obtain ⟨e'', htokens', hchain'⟩ := ih hrest hvs hchain
      refine ⟨e'', ?_, ?_⟩
      · rw [htokens', htokens, List.append_assoc]
        rfl
      · rw [hchain']
        simp [Chain.join]

theorem Covers.sum_of_reduce {ts source : List Token} {v : Float} (h : Covers ts source)
    (hv : (reduce ts).outcome = .ok v) : ∃ e : Sum, e.tokens = source ∧ e.eval = some v := by
  obtain ⟨c, hc, hvalue⟩ := chain_of_reduce hv
  obtain ⟨t, us, rfl, ht, hus⟩ := Term.ofTokens_eq_cons hc
  obtain ⟨f, rest, hf, rfl, hrest⟩ := h.factor ht
  obtain ⟨e, htokens, hchain⟩ := hrest.sum hus (e := .one (.one f)) hf
  refine ⟨e, htokens, ?_⟩
  rw [e.eval_eq_value, hchain]
  exact hvalue

theorem Covers.round {ts source next : List Token} {events : List Event} (h : Covers ts source)
    (hr : Round.of ts = .replaced events next) : Covers next source := by
  obtain ⟨g, v, rfl, hv, rfl⟩ := Round.of_eq_replaced hr
  obtain ⟨before, _, rfl, hbefore, hopening⟩ := h.split
  obtain ⟨_, rfl, hgroup⟩ := hopening.cons (by simp)
  obtain ⟨inside, _, rfl, hinside, hclosing⟩ := hgroup.split
  obtain ⟨after, rfl, hafter⟩ := hclosing.cons (by simp)
  obtain ⟨e, rfl, he⟩ := hinside.sum_of_reduce hv
  exact hbefore.append (group e v he hafter)

theorem Covers.resolve {ts source : List Token} (h : Covers ts source) : Covers (resolve ts).tokens source := by
  fun_induction Calculator.resolve ts with
  | case1 ts hs => exact h
  | case2 ts events error hs => exact h
  | case3 ts events next hs ih => exact ih (h.round hs)

mutual
theorem Factor.readable_of_eval : (f : Factor) → {v : Float} → f.eval = some v → Readable f.tokens
  | .number x, v, h => by
      intro y hy
      cases List.mem_singleton.mp hy
      cases hx : x.read with
      | error e =>
          rw [Factor.eval, hx] at h
          cases h
      | ok w => exact ⟨w, rfl⟩
  | .group e, v, h => (e.readable_of_eval h).group

theorem Product.readable_of_eval : (p : Product) → {v : Float} → p.eval = some v → Readable p.tokens
  | .one f, v, h => f.readable_of_eval h
  | .more p op level f, v, h => by
      obtain ⟨x, hp, h⟩ := Option.bind_eq_some_iff.mp h
      obtain ⟨y, hf, -⟩ := Option.bind_eq_some_iff.mp h
      exact (p.readable_of_eval hp).operator (f.readable_of_eval hf)

theorem Sum.readable_of_eval : (e : Sum) → {v : Float} → e.eval = some v → Readable e.tokens
  | .one p, v, h => p.readable_of_eval h
  | .more e op level p, v, h => by
      obtain ⟨x, he, h⟩ := Option.bind_eq_some_iff.mp h
      obtain ⟨y, hp, -⟩ := Option.bind_eq_some_iff.mp h
      exact (e.readable_of_eval he).operator (p.readable_of_eval hp)
end

end Grammar

theorem reduce_of_settled {r : List Token × Option EvalError} {v : Float} (h : settled r = .ok v) :
    (reduce r.1).outcome = .ok v := by
  obtain ⟨ts, _ | e⟩ := r
  · by_cases hflat : Flat ts
    · rwa [settled, if_pos hflat] at h
    · rw [settled, if_neg hflat] at h
      cases h
  · cases h

open Grammar

/-- A source has a value just when it is an expression of the grammar whose value exists, and then it is that
value. Of the expressions whose numbers can be read only a division by zero takes the value away, and what is
no expression has none. -/
theorem evaluate?_by_grammar (s : String) :
    (∀ v, evaluate? s = .ok v ↔
        ∃ e : Sum, tokenize s = .ok e.tokens ∧ Readable e.tokens ∧ e.eval = some v) ∧
      (∀ e : Sum, tokenize s = .ok e.tokens → Readable e.tokens → e.eval = none →
        evaluate? s = .error .divisionByZero) ∧
      ∀ ts, tokenize s = .ok ts → Readable ts → (¬ ∃ e : Sum, e.tokens = ts) →
        ∃ error, evaluate? s = .error error := by
  have hvalue (v : Float) (h : evaluate? s = .ok v) :
      ∃ e : Sum, tokenize s = .ok e.tokens ∧ Readable e.tokens ∧ e.eval = some v := by
    rw [evaluate?_eq_read] at h
    obtain ⟨ts, ht, h⟩ := Outcome.bind_eq_ok.mp h
    rw [← Nesting.settled_resolve] at h
    obtain ⟨e, rfl, he⟩ := (Covers.refl ts).resolve.sum_of_reduce (reduce_of_settled h)
    exact ⟨e, ht, e.readable_of_eval he, he⟩
  refine ⟨fun v => ⟨hvalue v, ?_⟩, ?_, ?_⟩
  · rintro ⟨e, ht, hr, he⟩
    rw [evaluate?_of_sum ht hr, he]
    rfl
  · intro e ht hr he
    rw [evaluate?_of_sum ht hr, he]
    rfl
  · intro ts ht hr hno
    cases h : evaluate? s with
    | error error => exact ⟨error, rfl⟩
    | ok v =>
        obtain ⟨e, he, -, -⟩ := hvalue v h
        rw [ht] at he
        exact absurd ⟨e, (Except.ok.inj he).symm⟩ hno

theorem evaluate?_group_first : evaluate? "10-2*(3-1)-1" = .ok 5.0 := by
  let number (text : String) : Factor := .number (.literal text)
  let group : Sum := .more (.one (.one (number "3"))) .subtract rfl (.one (number "1"))
  let product : Product := .more (.one (number "2")) .multiply rfl (.group group)
  let e : Sum := .more (.more (.one (.one (number "10"))) .subtract rfl product) .subtract rfl (.one (number "1"))
  have he : e.eval = some 5.0 := by decide +kernel
  exact ((evaluate?_by_grammar _).1 _).mpr ⟨e, by decide +kernel, e.readable_of_eval he, he⟩

end Calculator
