import Mathlib.Logic.Relation

/-!
# Waiting in circles

A relation tells who waits for whom. Nobody waits in a circle if no chain of waiting leads back to
where it began (`Acyclic`). A circle only goes through those who wait, so that it does no harm when
more of them wait for somebody who does not wait (`Acyclic.of_waiting`). When one begins to wait, all
circles there are go through it, and what is left of one leads from somebody it waits for back to it
(`Acyclic.exists_chain`).
-/

open Relation (TransGen ReflTransGen)

namespace WaitGraph

variable {α : Type*} {r r' : α → α → Prop} {c x y : α}

/-- No chain leads back to where it began. -/
def Acyclic (r : α → α → Prop) : Prop := ∀ x, ¬TransGen r x x

/-- The links that lead to somebody who waits are the ones that matter for a circle. -/
theorem transGen_of_waiting (h : ∀ x y z, r' x y → r' y z → r x y) (hxy : TransGen r' x y)
    (hy : ∃ z, r' y z) : TransGen r x y := by
  induction hxy with
  | single hxy =>
    obtain ⟨z, hyz⟩ := hy
    exact .single (h _ _ z hxy hyz)
  | tail _ hab ih =>
    obtain ⟨z, hbz⟩ := hy
    exact .tail (ih ⟨_, hab⟩) (h _ _ z hab hbz)

theorem exists_of_transGen (h : TransGen r x y) : ∃ z, r x z := by
  obtain ⟨z, hxz, -⟩ := TransGen.head'_iff.mp h
  exact ⟨z, hxz⟩

/-- When `c` begins to wait, a chain is one that was there, or it leads to `c`, and goes on from
somebody `c` waits for. -/
theorem transGen_or_exists {waits : α → Prop} (h : ∀ x y, r' x y → r x y ∨ x = c ∧ waits y)
    (hxy : TransGen r' x y) :
    TransGen r x y ∨ ReflTransGen r x c ∧ ∃ z, waits z ∧ ReflTransGen r z y := by
  induction hxy with
  | single hxy =>
    rcases h _ _ hxy with hxy | ⟨rfl, hy⟩
    · exact Or.inl (.single hxy)
    · exact Or.inr ⟨.refl, _, hy, .refl⟩
  | tail _ hab ih =>
    rcases h _ _ hab with hab | ⟨rfl, hb⟩
    · rcases ih with hxa | ⟨hxc, z, hz, hza⟩
      · exact Or.inl (hxa.tail hab)
      · exact Or.inr ⟨hxc, z, hz, hza.tail hab⟩
    · refine Or.inr ⟨?_, _, hb, .refl⟩
      rcases ih with hxa | ⟨hxa, -⟩
      · exact hxa.to_reflTransGen
      · exact hxa

namespace Acyclic

/-- New links to those who do not wait close no circle. -/
theorem of_waiting (hr : Acyclic r) (h : ∀ x y z, r' x y → r' y z → r x y) : Acyclic r' :=
  fun x hx => hr x (transGen_of_waiting h hx (exists_of_transGen hx))

theorem mono (hr : Acyclic r) (h : ∀ x y, r' x y → r x y) : Acyclic r' :=
  hr.of_waiting fun x y _ hxy _ => h x y hxy

/-- A circle that is closed when `c` begins to wait: there is somebody `c` waits for from whom a
chain leads to `c`. -/
theorem exists_chain {waits : α → Prop} (hr : Acyclic r)
    (h : ∀ x y, r' x y → r x y ∨ x = c ∧ waits y) (hx : TransGen r' x x) :
    ∃ y, waits y ∧ ReflTransGen r y c := by
  rcases transGen_or_exists h hx with hx | ⟨hxc, z, hz, hzx⟩
  · exact absurd hx (hr x)
  · exact ⟨z, hz, hzx.trans hxc⟩

end Acyclic

end WaitGraph
