import Calculator.Proofs.Literals
import Calculator.Proofs.Reading

namespace Calculator

namespace Operator

def compute : Operator → Float → Float → Float
  | add, v, w => v + w
  | subtract, v, w => v - w
  | multiply, v, w => v * w
  | divide, v, w => v / w

theorem value?_eq_compute (op : Operator) (v w : Float) :
    op.value? v w = if op = .divide ∧ (w = 0.0 ∨ w = -0.0) then none else some (op.compute v w) := by
  cases op with
  | add | subtract | multiply => rfl
  | divide =>
      by_cases h : w = 0.0 ∨ w = -0.0
      · rw [value?, if_pos h, if_pos ⟨rfl, h⟩]
      · rw [value?, if_neg h, if_neg fun hd => h hd.2]
        rfl

end Operator

inductive Tree
  | leaf (x : Literal)
  | node (op : Operator) (left right : Tree)

namespace Tree

def value : Tree → Float
  | leaf x => x.value
  | node op l r => op.compute l.value r.value

def DividesByZero : Tree → Prop
  | leaf _ => False
  | node op l r => l.DividesByZero ∨ r.DividesByZero ∨ op = .divide ∧ (r.value = 0.0 ∨ r.value = -0.0)

instance decidableDividesByZero : (t : Tree) → Decidable t.DividesByZero
  | leaf _ => .isFalse id
  | node op l r =>
      have := decidableDividesByZero l
      have := decidableDividesByZero r
      inferInstanceAs (Decidable (_ ∨ _ ∨ op = .divide ∧ (r.value = 0.0 ∨ r.value = -0.0)))

def value? (t : Tree) : Option Float := if t.DividesByZero then none else some t.value

theorem value?_leaf (x : Literal) : (leaf x).value? = some x.value := if_neg id

theorem value?_node (op : Operator) (l r : Tree) :
    (node op l r).value? = l.value? >>= fun v => r.value? >>= op.value? v := by
  rw [value?, value?, value?]
  by_cases hl : l.DividesByZero
  · have hz : (node op l r).DividesByZero := Or.inl hl
    rw [if_pos hl, if_pos hz]
    rfl
  · by_cases hr : r.DividesByZero
    · have hz : (node op l r).DividesByZero := Or.inr (Or.inl hr)
      rw [if_neg hl, if_pos hr, if_pos hz]
      rfl
    · rw [if_neg hl, if_neg hr]
      change _ = op.value? l.value r.value
      rw [op.value?_eq_compute]
      by_cases hd : op = .divide ∧ (r.value = 0.0 ∨ r.value = -0.0)
      · have hz : (node op l r).DividesByZero := Or.inr (Or.inr hd)
        rw [if_pos hz, if_pos hd]
      · have hz : ¬ (node op l r).DividesByZero := not_or.mpr ⟨hl, not_or.mpr ⟨hr, hd⟩⟩
        rw [if_neg hz, if_neg hd]
        rfl

end Tree

/-- A sequence writes a tree. The operator is that of the tree's root, unless parentheses hide it. A part whose
operator binds more loosely than the operator above it is in parentheses, and on the right also one whose operator
binds as tightly. -/
inductive Renders : Tree → Option Operator → List Token → Prop
  | leaf (x : Literal) : Renders (.leaf x) none [.literal x.text]
  | node {op : Operator} {l r : Tree} {p q : Option Operator} {ts us : List Token} :
      Renders l p ts → Renders r q us →
      (∀ o, p = some o → o.precedence.rank ≤ op.precedence.rank) →
      (∀ o, q = some o → o.precedence.rank < op.precedence.rank) →
      Renders (.node op l r) (some op) (ts ++ .operator op :: us)
  | group {t : Tree} {p : Option Operator} {ts : List Token} :
      Renders t p ts → Renders t none (.opening :: (ts ++ [.closing]))

namespace Renders

open Grammar

variable {t : Tree} {p : Option Operator} {ts : List Token}

theorem readable (h : Renders t p ts) : Readable ts := by
  induction h with
  | leaf x =>
      intro y hy
      cases List.mem_singleton.mp hy
      exact ⟨x.value, x.read⟩
  | node _ _ _ _ ihl ihr => exact ihl.operator ihr
  | group _ ih => exact ih.group

theorem lexical (h : Renders t p ts) : ∀ u ∈ ts, Lexical u := by
  induction h with
  | leaf x => exact List.forall_mem_singleton.mpr x.lexical
  | @node op _ _ _ _ _ _ _ _ _ _ ihl ihr =>
      exact List.forall_mem_append.mpr ⟨ihl, List.forall_mem_cons.mpr ⟨.operator op, ihr⟩⟩
  | group _ ih =>
      exact List.forall_mem_cons.mpr
        ⟨.opening, List.forall_mem_append.mpr ⟨ih, List.forall_mem_singleton.mpr .closing⟩⟩

theorem separate (h : Renders t p ts) : Separate ts := by
  induction h with
  | leaf x => exact List.isChain_singleton _
  | @node op _ _ _ _ _ _ _ _ _ _ ihl ihr => exact ihl.operator ihr op
  | group _ ih => exact ih.group

def Derived (t : Tree) (ts : List Token) : Option Precedence → Prop
  | none => ∃ f : Factor, f.tokens = ts ∧ f.eval = t.value?
  | some .multiplicative => ∃ p : Product, p.tokens = ts ∧ p.eval = t.value?
  | some .additive => ∃ e : Sum, e.tokens = ts ∧ e.eval = t.value?

theorem product_of_derived {level : Option Precedence} (h : Derived t ts level) (hl : level ≠ some .additive) :
    ∃ p : Product, p.tokens = ts ∧ p.eval = t.value? := by
  match level, h with
  | none, ⟨f, ht, he⟩ => exact ⟨.one f, ht, he⟩
  | some .multiplicative, h => exact h
  | some .additive, _ => exact absurd rfl hl

theorem sum_of_derived {level : Option Precedence} (h : Derived t ts level) :
    ∃ e : Sum, e.tokens = ts ∧ e.eval = t.value? := by
  by_cases hl : level = some .additive
  · subst hl
    exact h
  · obtain ⟨p, ht, he⟩ := product_of_derived h hl
    exact ⟨.one p, ht, he⟩

theorem derived (h : Renders t p ts) : Derived t ts (p.map Operator.precedence) := by
  induction h with
  | leaf x =>
      refine ⟨.number (.literal x.text), rfl, ?_⟩
      rw [Factor.eval, x.read, Tree.value?_leaf]
      rfl
  | @node op l r p q ts us _ _ hleft hright ihl ihr =>
      -- The level of the root decides how far up in the grammar the two sides may stand.
      cases hop : op.precedence with
      | additive =>
          have hq : q.map Operator.precedence ≠ some .additive := by
            intro hq
            obtain ⟨o, ho, ha⟩ := Option.map_eq_some_iff.mp hq
            have hlt := hright o ho
            rw [ha, hop] at hlt
            omega
          obtain ⟨e, rfl, he⟩ := sum_of_derived ihl
          obtain ⟨f, rfl, hf⟩ := product_of_derived ihr hq
          change Derived _ _ (some op.precedence)
          rw [hop]
          exact ⟨.more e op hop f, rfl, by rw [Sum.eval, he, hf, Tree.value?_node]⟩
      | multiplicative =>
          have hp : p.map Operator.precedence ≠ some .additive := by
            intro hp
            obtain ⟨o, ho, ha⟩ := Option.map_eq_some_iff.mp hp
            have hle := hleft o ho
            rw [ha, hop] at hle
            exact absurd hle (by decide)
          have hq : q = none := by
            rw [Option.eq_none_iff_forall_ne_some]
            intro o ho
            have hlt := hright o ho
            rw [hop] at hlt
            exact absurd hlt (Nat.not_lt_zero _)
          subst hq
          obtain ⟨e, rfl, he⟩ := product_of_derived ihl hp
          obtain ⟨f, rfl, hf⟩ := ihr
          change Derived _ _ (some op.precedence)
          rw [hop]
          exact ⟨.more e op hop f, rfl, by rw [Product.eval, he, hf, Tree.value?_node]⟩
  | group _ ih =>
      obtain ⟨e, rfl, he⟩ := sum_of_derived ih
      exact ⟨.group e, rfl, he⟩

end Renders

/-- However a tree is written, its value comes out, and a division by zero if there is one in the tree. -/
theorem evaluate?_rendering {t : Tree} {p : Option Operator} {ts : List Token} {s : String} (h : Renders t p ts)
    (hs : Spaced ts s.toList) :
    evaluate? s = if t.DividesByZero then .error .divisionByZero else .ok t.value := by
  obtain ⟨e, rfl, he⟩ := Renders.sum_of_derived h.derived
  have ht : tokenize s = .ok e.tokens := tokenize_of_spaced hs h.lexical h.separate
  rw [Grammar.evaluate?_of_sum ht h.readable, he, Tree.value?]
  by_cases hz : t.DividesByZero
  · rw [if_pos hz, if_pos hz]
    rfl
  · rw [if_neg hz, if_neg hz]
    rfl

theorem evaluate?_written_with_blanks : evaluate? "8/ ((3-1))" = .ok 4.0 := by
  let eight : Literal := ⟨"8", List.forall_mem_singleton.mpr rfl, ⟨'8', List.mem_singleton_self _, rfl⟩, by decide⟩
  let three : Literal := ⟨"3", List.forall_mem_singleton.mpr rfl, ⟨'3', List.mem_singleton_self _, rfl⟩, by decide⟩
  let one : Literal := ⟨"1", List.forall_mem_singleton.mpr rfl, ⟨'1', List.mem_singleton_self _, rfl⟩, by decide⟩
  have h : Renders (.node .divide (.leaf eight) (.node .subtract (.leaf three) (.leaf one))) (some .divide) _ :=
    .node (.leaf eight) (.group (.group (.node (.leaf three) (.leaf one) nofun nofun))) nofun nofun
  have hs := Spaced.token (.literal "8") (.token (.operator .divide) (.blank (c := ' ') (by decide)
    (.token .opening (.token .opening (.token (.literal "3") (.token (.operator .subtract)
      (.token (.literal "1") (.token .closing (.token .closing .nil)))))))))
  exact (evaluate?_rendering (s := "8/ ((3-1))") h hs).trans (by decide +kernel)

end Calculator
