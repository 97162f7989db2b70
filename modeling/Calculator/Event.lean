import Calculator.Lexeme
import Calculator.Stage
import Calculator.Text.Quoted

namespace Calculator

/-- One use of an operator, with the value that took its place. -/
structure Combination where
  left : Float
  operator : Operator
  right : Float
  value : Float
deriving DecidableEq, Repr

inductive Event
  | token (x : Lexeme)
  | moved (source target : Stage) (tokenCount : Nat)
  | combined (c : Combination)
  | resolved (first last : Nat) (value : Float)
  | failed (source : String) (error : EvalError)
deriving DecidableEq, Repr

inductive LogLevel
  | trace
  | debug
deriving DecidableEq, Repr

namespace Event

def level : Event → LogLevel
  | token _ | moved .. => .trace
  | combined _ | resolved .. | failed .. => .debug

def message : Event → String
  | token x => s!"token {x.token.display} at {x.start}..{x.stop}"
  | moved source target count => s!"{source.display} -> {target.display} with {count} tokens"
  | combined c =>
      let left := Layout.record.format c.left
      let right := Layout.record.format c.right
      let value := Layout.record.format c.value
      s!"{left} {c.operator.symbol} {right} = {value}"
  | resolved first last v =>
      let value := Layout.record.format v
      s!"group at {first}..={last} reduced to {value}"
  | failed source error =>
      let quoted := Text.quote source
      s!"evaluating {quoted} failed: {error.message}"

end Event

/-- A calculation together with what it logged. The log of a failed calculation is kept. -/
structure Traced (α : Type) where
  events : List Event
  outcome : Except EvalError α

namespace Traced

variable {α β : Type}

def ofExcept (outcome : Except EvalError α) : Traced α := ⟨[], outcome⟩

def emit (e : Event) : Traced Unit := ⟨[e], .ok ()⟩

def bind (x : Traced α) (f : α → Traced β) : Traced β :=
  match x.outcome with
  | .error error => ⟨x.events, .error error⟩
  | .ok a =>
      let y := f a
      ⟨x.events ++ y.events, y.outcome⟩

instance : Monad Traced where
  pure a := ⟨[], .ok a⟩
  bind := bind

instance : MonadLift (Except EvalError) Traced := ⟨ofExcept⟩

instance : LawfulMonad Traced := LawfulMonad.mk' Traced
  (by rintro α ⟨events, _ | a⟩ <;> simp [Functor.map, bind])
  (fun _ _ => rfl)
  (by
    rintro α β γ ⟨events, _ | a⟩ f g
    · rfl
    · rcases h : f a with ⟨later, _ | b⟩ <;> simp [Bind.bind, bind, h])

@[simp] theorem outcome_pure (a : α) : (pure a : Traced α).outcome = .ok a := rfl

@[simp] theorem events_pure (a : α) : (pure a : Traced α).events = [] := rfl

@[simp] theorem outcome_bind (x : Traced α) (f : α → Traced β) :
    (x >>= f).outcome = x.outcome >>= fun a => (f a).outcome := by
  rcases x with ⟨events, _ | a⟩ <;> rfl

theorem events_bind_ok {x : Traced α} {a : α} (h : x.outcome = .ok a) (f : α → Traced β) :
    (x >>= f).events = x.events ++ (f a).events := by
  rcases x with ⟨events, _⟩
  subst h
  rfl

theorem events_bind_error {x : Traced α} {e : EvalError} (h : x.outcome = .error e) (f : α → Traced β) :
    (x >>= f).events = x.events := by
  rcases x with ⟨events, _⟩
  subst h
  rfl

end Traced

end Calculator
