import LlmRuntime.Base.Decoder

/-!
# Scripts that clean up

What a script leaves behind does not depend on whether it ended well. A `finally` goes on from what the
block before it left, however that ended.
-/

namespace EStateM

universe u

variable {ε σ α β : Type u}

/-- The state that is left at the end, thrown or not. -/
def finalState (x : EStateM ε σ α) (s : σ) : σ :=
  match x s with
  | .ok _ s' => s'
  | .error _ s' => s'

theorem finalState_of_ok {x : EStateM ε σ α} {s s' : σ} {a : α} (h : x s = .ok a s') :
    x.finalState s = s' := by
  rw [finalState, h]

theorem finalState_of_error {x : EStateM ε σ α} {s s' : σ} {e : ε} (h : x s = .error e s') :
    x.finalState s = s' := by
  rw [finalState, h]

theorem finalState_bind_of_ok {x : EStateM ε σ α} {s s' : σ} {a : α} (h : x s = .ok a s')
    (f : α → EStateM ε σ β) : (x >>= f).finalState s = (f a).finalState s' := by
  rw [finalState, bind_of_ok h, finalState]

theorem finalState_bind_of_error {x : EStateM ε σ α} {s s' : σ} {e : ε} (h : x s = .error e s')
    (f : α → EStateM ε σ β) : (x >>= f).finalState s = s' :=
  finalState_of_error (bind_of_error f h)

theorem finalState_finally (x : EStateM ε σ α) (y : EStateM ε σ PUnit) (s : σ) :
    (try x finally y : EStateM ε σ α).finalState s = y.finalState (x.finalState s) := by
  show (tryFinally x y).finalState s = _
  cases hx : x s with
  | ok a s' =>
      cases hy : y s' <;>
        simp [tryFinally, tryFinally', Functor.map, EStateM.map, hx, hy, finalState]
  | error e s' =>
      cases hy : y s' <;>
        simp [tryFinally, tryFinally', Functor.map, EStateM.map, hx, hy, finalState]

end EStateM
