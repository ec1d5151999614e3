/-!
# Attempts

Work that runs programs need not come to an end.  It is attempted with a number of instructions for
each run: it is done with that, or the machine panics, or it is unfinished and may be attempted with
more.
-/

namespace StackScript

/-- What comes of work for which so many instructions are allowed. -/
inductive Attempt (α : Type) where
  | done (a : α)
  | panicked
  | unfinished
deriving DecidableEq

namespace Attempt

variable {α β : Type}

def bind (x : Attempt α) (f : α → Attempt β) : Attempt β :=
  match x with
  | done a => f a
  | panicked => panicked
  | unfinished => unfinished

instance : Monad Attempt where
  pure := done
  bind := bind

/-- What the work has come to, if it is done. -/
def done? : Attempt α → Option α
  | done a => some a
  | _ => none

theorem eq_done {x : Attempt α} {a : α} (h : x.done? = some a) : x = done a := by
  cases x with
  | done b => exact congrArg done (Option.some.inj h)
  | _ => cases h

end Attempt

end StackScript
