/-!
# Computations that keep a log

A computation that asks another party keeps a log of what it asked, in order. The log is there
whether the computation ends with a result or with an error.

Main definition: `Traced`, a monad.
-/

namespace FormScaffold

/-- What was asked, in order, and how the computation ends. -/
structure Traced (τ ε α : Type) where
  log : List τ
  outcome : Except ε α

namespace Traced

variable {τ ε ε' α β : Type}

/-- A result; nothing is asked. -/
protected def pure (a : α) : Traced τ ε α := ⟨[], .ok a⟩

/-- A result or an error; nothing is asked. -/
def ofExcept (r : Except ε α) : Traced τ ε α := ⟨[], r⟩

/-- An error; nothing is asked. -/
def fail (e : ε) : Traced τ ε α := ⟨[], .error e⟩

/-- One question with its answer. -/
def ask (question : τ) (answer : Except ε α) : Traced τ ε α := ⟨[question], answer⟩

/-- One computation after another; an error ends both. -/
protected def bind (x : Traced τ ε α) (f : α → Traced τ ε β) : Traced τ ε β :=
  match x.outcome with
  | .ok a => ⟨x.log ++ (f a).log, (f a).outcome⟩
  | .error e => ⟨x.log, .error e⟩

instance : Monad (Traced τ ε) where
  pure := Traced.pure
  bind := Traced.bind

/-- What is asked of nobody is not in the log. -/
@[simp] theorem log_pure (a : α) : (pure a : Traced τ ε α).log = [] := rfl

/-- A value without a question is its own outcome. -/
@[simp] theorem outcome_pure (a : α) : (pure a : Traced τ ε α).outcome = .ok a := rfl

/-- A result without a question is not in the log. -/
@[simp] theorem log_ofExcept (r : Except ε α) : (ofExcept r : Traced τ ε α).log = [] := rfl

/-- A result without a question is its own outcome. -/
@[simp] theorem outcome_ofExcept (r : Except ε α) : (ofExcept r : Traced τ ε α).outcome = r := rfl

/-- A question is in the log. -/
@[simp] theorem log_ask (q : τ) (r : Except ε α) : (ask q r).log = [q] := rfl

/-- The outcome of a question is its answer. -/
@[simp] theorem outcome_ask (q : τ) (r : Except ε α) : (ask q r).outcome = r := rfl

/-- After an outcome the log goes on with the questions that follow from it. -/
theorem bind_of_ok {x : Traced τ ε α} {a : α} (f : α → Traced τ ε β) (h : x.outcome = .ok a) :
    x >>= f = ⟨x.log ++ (f a).log, (f a).outcome⟩ := by
  simp [Bind.bind, Traced.bind, h]

/-- After an error nothing more is asked. -/
theorem bind_of_error {x : Traced τ ε α} {e : ε} (f : α → Traced τ ε β)
    (h : x.outcome = .error e) : x >>= f = ⟨x.log, .error e⟩ := by
  simp [Bind.bind, Traced.bind, h]

/-- Computations one after another keep their logs in order, however they are grouped. -/
instance : LawfulMonad (Traced τ ε) :=
  LawfulMonad.mk' _
    (fun ⟨log, r⟩ => by cases r <;> simp [Functor.map, Traced.bind, Traced.pure])
    (fun a f => by simp [Bind.bind, Pure.pure, Traced.bind, Traced.pure])
    (fun ⟨log, r⟩ f g => by
      cases r with
      | error e => rfl
      | ok a =>
        show Traced.bind (Traced.bind _ _) _ = Traced.bind _ _
        cases h : (f a).outcome <;> simp [Bind.bind, Traced.bind, h, List.append_assoc])

end Traced

end FormScaffold
