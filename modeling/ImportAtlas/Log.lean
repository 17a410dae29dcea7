-- SUMMARY: Log events and the writer that collects them beside a result.

/-! # Log

Every operation that reports what it did returns its result together with the events it wrote, in
order. Nothing in the library writes to a stream: whoever runs an operation decides which levels to
show, and a law about a result never mentions its events. -/

namespace ImportAtlas

/-- How much an event matters, most important first. -/
inductive Level where
  | warn | info | debug
  deriving DecidableEq, Repr

namespace Level

/-- Position in the order of detail: a reader who asks for one level also sees the levels below it. -/
def rank : Level → Nat
  | warn => 0
  | info => 1
  | debug => 2

/-- Whether an event of level `e` is shown to a reader who asked for `shown`. -/
def covers (shown e : Level) : Bool := e.rank ≤ shown.rank

end Level

/-- The value of one field of an event. -/
inductive Datum where
  | count (n : Nat)
  | flag (b : Bool)
  | number (x : Float32)
  | text (s : String)

/-- One thing worth telling: a fixed message and the data it is about. -/
structure Event where
  level : Level
  message : String
  fields : List (String × Datum) := []

/-- A result and the events written on the way to it. -/
structure Logged (α : Type) where
  value : α
  events : List Event

namespace Logged

/-- A result that nothing was written about. -/
protected def pure (a : α) : Logged α := ⟨a, []⟩

/-- The events of the first step stand before those of the second. -/
protected def bind (x : Logged α) (f : α → Logged β) : Logged β :=
  let y := f x.value
  ⟨y.value, x.events ++ y.events⟩

instance : Monad Logged where
  pure := Logged.pure
  bind := Logged.bind

/-- Write one event. -/
def tell (e : Event) : Logged Unit := ⟨(), [e]⟩

@[simp] theorem value_pure (a : α) : (pure a : Logged α).value = a := rfl

@[simp] theorem events_pure (a : α) : (pure a : Logged α).events = [] := rfl

@[simp] theorem value_bind (x : Logged α) (f : α → Logged β) :
    (x >>= f).value = (f x.value).value := rfl

@[simp] theorem events_bind (x : Logged α) (f : α → Logged β) :
    (x >>= f).events = x.events ++ (f x.value).events := rfl

@[simp] theorem value_map (f : α → β) (x : Logged α) : (f <$> x).value = f x.value := rfl

@[simp] theorem events_map (f : α → β) (x : Logged α) : (f <$> x).events = x.events :=
  List.append_nil x.events

@[simp] theorem events_tell (e : Event) : (tell e).events = [e] := rfl

instance : LawfulMonad Logged := LawfulMonad.mk' Logged
  (fun x => by cases x; simp [Functor.map, Logged.bind, Logged.pure])
  (fun a f => by simp [Bind.bind, Pure.pure, Logged.bind, Logged.pure])
  (fun x f g => by simp [Bind.bind, Logged.bind, List.append_assoc])

end Logged

end ImportAtlas
