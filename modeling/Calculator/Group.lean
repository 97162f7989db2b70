import Calculator.Reduction

namespace Calculator

structure Group where
  before : List Token
  inside : List Token
  after : List Token
deriving DecidableEq, Repr

namespace Group

def tokens (g : Group) : List Token := g.before ++ .opening :: (g.inside ++ .closing :: g.after)

def first (g : Group) : Nat := g.before.length

def last (g : Group) : Nat := g.before.length + g.inside.length + 1

def replaceBy (g : Group) (v : Float) : List Token := g.before ++ .value v :: g.after

def prepend (t : Token) (g : Group) : Group := { g with before := t :: g.before }

/-- The group that starts with an opening parenthesis just before `ts`, if it closes before another one
opens. -/
def startingAt? (ts : List Token) : Option Group :=
  match ts.dropWhile (!·.isParenthesis) with
  | .closing :: after => some ⟨[], ts.takeWhile (!·.isParenthesis), after⟩
  | _ => none

/-- The group that closes first. -/
def find? : List Token → Option Group
  | [] => none
  | .opening :: ts => (startingAt? ts).or ((find? ts).map (prepend .opening))
  | t :: ts => (find? ts).map (prepend t)

theorem startingAt?_eq_some {ts : List Token} {g : Group} (h : startingAt? ts = some g) :
    g.tokens = .opening :: ts ∧ ∀ t ∈ g.inside, t.isParenthesis = false := by
  unfold startingAt? at h
  split at h
  · next after hd =>
      cases h
      refine ⟨?_, fun t ht => ?_⟩
      · simp only [tokens, List.nil_append, ← hd, List.takeWhile_append_dropWhile]
      · simpa using List.all_eq_true.mp List.all_takeWhile t ht
  · cases h

theorem find?_eq_some {ts : List Token} {g : Group} (h : find? ts = some g) :
    g.tokens = ts ∧ ∀ t ∈ g.inside, t.isParenthesis = false := by
  fun_induction find? ts generalizing g with
  | case1 => cases h
  | case2 ts ih =>
      rcases Option.or_eq_some_iff.mp h with h | ⟨-, h⟩
      · exact startingAt?_eq_some h
      · obtain ⟨g, hg, rfl⟩ := Option.map_eq_some_iff.mp h
        exact ⟨congrArg (List.cons _) (ih hg).1, (ih hg).2⟩
  | case3 t ts _ ih =>
      obtain ⟨g, hg, rfl⟩ := Option.map_eq_some_iff.mp h
      exact ⟨congrArg (List.cons _) (ih hg).1, (ih hg).2⟩

theorem length_replaceBy_lt (g : Group) (v : Float) : (g.replaceBy v).length < g.tokens.length := by
  simp only [replaceBy, tokens, List.length_append, List.length_cons]
  omega

end Group

inductive Round
  | settled
  | failed (events : List Event) (error : EvalError)
  | replaced (events : List Event) (next : List Token)
deriving DecidableEq, Repr

def Round.of (tokens : List Token) : Round :=
  if .opening ∈ tokens ∧ .closing ∈ tokens then
    match Group.find? tokens with
    | none => failed [] .unbalancedParentheses
    | some g =>
        let r := reduce g.inside
        match r.outcome with
        | .error error => failed r.events error
        | .ok v => replaced (r.events ++ [.resolved g.first g.last v]) (g.replaceBy v)
  else settled

theorem Round.length_lt {tokens next : List Token} {events : List Event}
    (h : Round.of tokens = replaced events next) : next.length < tokens.length := by
  unfold Round.of at h
  split at h
  · split at h
    · cases h
    · next g hg =>
        dsimp only at h
        split at h
        · cases h
        · cases h
          have := g.length_replaceBy_lt
          rw [(Group.find?_eq_some hg).1] at this
          exact this _
  · cases h

/-- The sequence after all rounds. When a round fails it is what that round found. -/
structure Resolution where
  events : List Event
  tokens : List Token
  failure : Option EvalError
deriving DecidableEq, Repr

def Resolution.after (events : List Event) (r : Resolution) : Resolution :=
  { r with events := events ++ r.events }

def resolve (tokens : List Token) : Resolution :=
  match _h : Round.of tokens with
  | .settled => ⟨[], tokens, none⟩
  | .failed events error => ⟨events, tokens, some error⟩
  | .replaced events next => (resolve next).after events
termination_by tokens.length
decreasing_by exact Round.length_lt _h

theorem resolve_settled {tokens : List Token} (h : Round.of tokens = .settled) :
    resolve tokens = ⟨[], tokens, none⟩ := by
  rw [resolve]
  split <;> simp_all

theorem resolve_failed {tokens : List Token} {events : List Event} {error : EvalError}
    (h : Round.of tokens = .failed events error) : resolve tokens = ⟨events, tokens, some error⟩ := by
  rw [resolve]
  split <;> simp_all

theorem resolve_replaced {tokens next : List Token} {events : List Event}
    (h : Round.of tokens = .replaced events next) : resolve tokens = (resolve next).after events := by
  rw [resolve]
  split <;> simp_all

end Calculator
