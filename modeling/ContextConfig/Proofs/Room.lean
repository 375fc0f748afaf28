import ContextConfig.Fault
/-!
# Runs with more room

A reader that has room for some calls inside one another stops where there is too little. With more
room it comes to the same as before wherever it did not stop for that reason.
-/

namespace ContextConfig

/-- Calls inside one another that the stack takes in any case. -/
def safeCalls : Nat := 400

theorem maxCalls_eq : maxCalls = safeCalls + 580 := rfl

variable {ε α β : Type} {full : ε}

/-- What `y` comes to is what `x` comes to, unless `x` stops because `full` says so. -/
def Extends (full : ε) (x y : Except ε α) : Prop := x ≠ .error full → y = x

theorem extends_refl (x : Except ε α) : Extends full x x := fun _ => rfl

theorem extends_full {y : Except ε α} : Extends full (.error full) y := fun h => absurd rfl h

theorem Extends.bind {x y : Except ε α} {f g : α → Except ε β} (hx : Extends full x y)
    (hf : ∀ a, Extends full (f a) (g a)) : Extends full (x >>= f) (y >>= g) := by
  intro h
  cases x with
  | ok a =>
    rw [hx nofun]
    exact hf a h
  | error stop =>
    have hstop : stop ≠ full := fun heq => h (by rw [heq]; rfl)
    rw [hx fun heq => hstop (Except.error.inj heq)]
    rfl

end ContextConfig
