import Mathlib.Data.Option.Basic
import Mathlib.Tactic.ByContra
import Mathlib.Tactic.SplitIfs

/-!
# Runs whose steps meet a condition

A machine takes actions, one at a time, and some actions have no answer in some states. For a
property that only holds of the machine as long as its steps meet a condition, `GuardedRun` is the
run of such steps. An invariant of these runs (`GuardedRun.invariant`) tells that the property
holds until the first step that does not meet the condition (`GuardedRun.exact`).
-/

namespace BlobsDb

variable {σ α : Type*}

/-- The actions lead from one state to another, and each one meets the condition. -/
inductive GuardedRun (step : σ → α → Option σ) (ok : σ → α → Prop) (start : σ) :
    List α → σ → Prop
  | nil : GuardedRun step ok start [] start
  | snoc {as : List α} {s s' : σ} {a : α} (h : GuardedRun step ok start as s) (hok : ok s a)
    (hstep : step s a = some s') : GuardedRun step ok start (as ++ [a]) s'

namespace GuardedRun

variable {step : σ → α → Option σ} {ok ok' : σ → α → Prop} {start s s' : σ} {as : List α}

/-- What the first state has and each step keeps. -/
theorem invariant {I : List α → σ → Prop} (h : GuardedRun step ok start as s) (hstart : I [] start)
    (hkeep : ∀ as s a s', I as s → ok s a → step s a = some s' → I (as ++ [a]) s') : I as s := by
  induction h with
  | nil => exact hstart
  | snoc _ hok hstep ih => exact hkeep _ _ _ _ ih hok hstep

/-- The condition of a run may be replaced by one that follows from it, given an invariant. -/
theorem weaken {I : List α → σ → Prop} (h : GuardedRun step ok start as s) (hstart : I [] start)
    (hkeep : ∀ as s a s', GuardedRun step ok' start as s → I as s → ok s a →
      step s a = some s' → ok' s a ∧ I (as ++ [a]) s') :
    GuardedRun step ok' start as s ∧ I as s := by
  induction h with
  | nil => exact ⟨.nil, hstart⟩
  | snoc _ hok hstep ih =>
    obtain ⟨hok', hI⟩ := hkeep _ _ _ _ ih.1 ih.2 hok hstep
    exact ⟨ih.1.snoc hok' hstep, hI⟩

/-- An invariant of the runs has the property, and a step that does not meet the condition loses
it. -/
theorem exact {I P : List α → σ → Prop} (h : GuardedRun step ok start as s) (hstart : I [] start)
    (hkeep : ∀ as s a s', I as s → ok s a → step s a = some s' → I (as ++ [a]) s')
    (hsound : ∀ as s, I as s → P as s)
    (hlose : ∀ as s a s', I as s → ¬ok s a → step s a = some s' → ¬P (as ++ [a]) s') :
    P as s ∧ ∀ a s', step s a = some s' → (P (as ++ [a]) s' ↔ ok s a) := by
  have hI := h.invariant hstart hkeep
  refine ⟨hsound as s hI, fun a s' hstep => ⟨fun hP => ?_, fun hok => ?_⟩⟩
  · by_contra hok
    exact hlose as s a s' hI hok hstep hP
  · exact hsound _ _ (hkeep as s a s' hI hok hstep)

/-- A run that goes on. -/
theorem trans {as' : List α} {s₁ : σ} (h : GuardedRun step ok start as s)
    (h' : GuardedRun step ok s as' s₁) : GuardedRun step ok start (as ++ as') s₁ := by
  induction h' with
  | nil => rwa [List.append_nil]
  | snoc _ hok hstep ih =>
    rw [← List.append_assoc]
    exact ih.snoc hok hstep

theorem mono (h : GuardedRun step ok start as s) (hok : ∀ s a, ok s a → ok' s a) :
    GuardedRun step ok' start as s := by
  induction h with
  | nil => exact .nil
  | snoc _ h hstep ih => exact ih.snoc (hok _ _ h) hstep

/-- Takes one action after the other, as long as they meet the condition. -/
def play (step : σ → α → Option σ) (ok : σ → α → Prop) [∀ s a, Decidable (ok s a)] :
    List α → σ → Option σ
  | [], s => some s
  | a :: as, s => if ok s a then (step s a).bind (play step ok as) else none

theorem append_play [∀ s a, Decidable (ok s a)] {as' : List α} (h : GuardedRun step ok start as s)
    (hplay : play step ok as' s = some s') : GuardedRun step ok start (as ++ as') s' := by
  induction as' generalizing as s with
  | nil =>
    obtain rfl := Option.some_inj.mp hplay
    rwa [List.append_nil]
  | cons a as' ih =>
    rw [play] at hplay
    split_ifs at hplay with hok
    obtain ⟨s₁, hstep, hplay⟩ := Option.bind_eq_some_iff.mp hplay
    have hrun := ih (h.snoc hok hstep) hplay
    rwa [List.append_assoc] at hrun

theorem of_play [∀ s a, Decidable (ok s a)] (hplay : play step ok as start = some s) :
    GuardedRun step ok start as s :=
  nil.append_play hplay

end GuardedRun

end BlobsDb
