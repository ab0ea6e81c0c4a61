import Mathlib.Tactic.Common

/-!
# Computations that may fail

A computation in `EStateM` returns a value or fails, and leaves a state behind either way.
`EStateM.Ensures` says what holds of the outcome from a given state; computations are reasoned about
from one step to the next (`EStateM.Ensures.bind`).
-/

namespace EStateM

universe u

variable {ε σ α β : Type u} {s : σ}

/-- What holds of the value and the state if the computation returns, and of the error and the state
if it fails. -/
def Ensures (x : EStateM ε σ α) (s : σ) (ok : α → σ → Prop) (failed : ε → σ → Prop) : Prop :=
  match x.run s with
  | .ok a s' => ok a s'
  | .error e s' => failed e s'

variable {x : EStateM ε σ α} {f : α → EStateM ε σ β} {ok ok' : α → σ → Prop}
  {failed failed' : ε → σ → Prop} {ok₂ : β → σ → Prop}

theorem ensures_pure {a : α} : Ensures (pure a : EStateM ε σ α) s ok failed ↔ ok a s := Iff.rfl

theorem ensures_throw {e : ε} : Ensures (throw e : EStateM ε σ α) s ok failed ↔ failed e s := Iff.rfl

theorem ensures_get {ok : σ → σ → Prop} :
    Ensures (get : EStateM ε σ σ) s ok failed ↔ ok s s := Iff.rfl

theorem ensures_modify {g : σ → σ} {ok : PUnit → σ → Prop} :
    Ensures (modify g : EStateM ε σ PUnit) s ok failed ↔ ok ⟨⟩ (g s) := Iff.rfl

/-- The second computation goes on from where the first one returned. -/
theorem ensures_bind : Ensures (x >>= f) s ok₂ failed ↔
    Ensures x s (fun a s' => Ensures (f a) s' ok₂ failed) failed := by
  have hrun : (x >>= f).run s = match x.run s with
    | .ok a s' => (f a).run s'
    | .error e s' => .error e s' := rfl
  rw [Ensures, Ensures, hrun]
  cases x.run s <;> rfl

namespace Ensures

theorem mono (h : Ensures x s ok failed) (hok : ∀ a s', ok a s' → ok' a s')
    (hfailed : ∀ e s', failed e s' → failed' e s') : Ensures x s ok' failed' := by
  unfold Ensures at *
  cases hrun : x.run s with
  | ok a s' =>
    rw [hrun] at h
    exact hok a s' h
  | error e s' =>
    rw [hrun] at h
    exact hfailed e s' h

theorem bind (h : Ensures x s ok failed) (hf : ∀ a s', ok a s' → Ensures (f a) s' ok₂ failed) :
    Ensures (x >>= f) s ok₂ failed :=
  ensures_bind.mpr (h.mono hf fun _ _ => id)

/-- What holds after the computation has returned. -/
theorem of_ok {a : α} {s' : σ} (h : Ensures x s ok failed) (hrun : x.run s = .ok a s') : ok a s' := by
  rw [Ensures, hrun] at h
  exact h

/-- What holds after the computation has failed. -/
theorem of_error {e : ε} {s' : σ} (h : Ensures x s ok failed) (hrun : x.run s = .error e s') :
    failed e s' := by
  rw [Ensures, hrun] at h
  exact h

/-- A loop keeps an invariant, and does something for each element. -/
theorem forM {f : α → EStateM ε σ PUnit} {I : σ → Prop} {P : α → Prop} {as : List α} (hs : I s)
    (hf : ∀ a ∈ as, ∀ s, I s → Ensures (f a) s (fun _ s' => I s' ∧ P a) failed) :
    Ensures (as.forM f) s (fun _ s' => I s' ∧ ∀ a ∈ as, P a) failed := by
  induction as generalizing s with
  | nil => exact ⟨hs, fun _ ha => absurd ha List.not_mem_nil⟩
  | cons a as ih =>
    change Ensures (f a >>= fun _ => as.forM f) s _ failed
    refine (hf a List.mem_cons_self s hs).bind fun _ s' hs' => ?_
    refine (ih hs'.1 fun a ha => hf a (List.mem_cons_of_mem _ ha)).mono (fun _ s'' h => ?_)
      fun _ _ => id
    exact ⟨h.1, List.forall_mem_cons.mpr ⟨hs'.2, h.2⟩⟩

end Ensures

end EStateM
