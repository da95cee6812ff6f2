import CodeCompletion.Event
import CodeCompletion.Types.Program
import Std.Data.HashMap

/-!
# Values with a trace

A stage computes its result as if nothing could go wrong, and leaves a trace of what it did on
the way: the questions it asked the checker, the facts it wants to be remembered, and the events
it reports. Replaying the trace tells what really happens, since a checker may cancel the
request or break down at any question.
-/

namespace CodeCompletion

/-- What a fact about a component is remembered under: where it is declared, its name, and the
version of the document if that is the one being edited. -/
structure ComponentKey where
  file : String
  name : String
  version : Nat
  deriving Repr, DecidableEq, Hashable

abbrev ComponentCache := Std.HashMap ComponentKey Bool

inductive Act where
  | ask (query : Query)
  | remember (key : ComponentKey) (isComponent : Bool)
  | report (event : Event)
  deriving Repr, DecidableEq

/-- A value with the acts that led to it. -/
structure Traced (α : Type) where
  value : α
  trace : List Act
  deriving Repr

namespace Traced

variable {α β : Type}

instance : Monad Traced where
  pure a := ⟨a, []⟩
  bind a f :=
    let b := f a.value
    ⟨b.value, a.trace ++ b.trace⟩

@[simp] theorem value_pure (a : α) : (pure a : Traced α).value = a := rfl

@[simp] theorem trace_pure (a : α) : (pure a : Traced α).trace = [] := rfl

@[simp] theorem value_bind (a : Traced α) (f : α → Traced β) :
    (a >>= f).value = (f a.value).value := rfl

@[simp] theorem trace_bind (a : Traced α) (f : α → Traced β) :
    (a >>= f).trace = a.trace ++ (f a.value).trace := rfl

def report (events : List Event) : Traced Unit := ⟨(), events.map .report⟩

def each (f : α → Traced β) (items : List α) : Traced (List β) :=
  let results := items.map f
  ⟨results.map (·.value), results.flatMap (·.trace)⟩

@[simp] theorem value_each (f : α → Traced β) (items : List α) :
    (each f items).value = items.map fun a => (f a).value := by
  simp [each, Function.comp_def]

def filter (test : α → Traced Bool) (items : List α) : Traced (List α) := do
  let verdicts ← each (fun a => do return (a, ← test a)) items
  return (verdicts.filter (·.2)).map (·.1)

/-- The first result that there is; later items are not looked at. -/
def firstSome (f : α → Traced (Option β)) : List α → Traced (Option β)
  | [] => pure none
  | a :: rest => do
    match ← f a with
    | some b => return some b
    | none => firstSome f rest

def ofOption (f : α → Traced (Option β)) : Option α → Traced (Option β)
  | some a => f a
  | none => pure none

end Traced

end CodeCompletion
