import Mathlib.Data.Seq.Computation
import Mathlib.Logic.Relation

/-!
# Loops whose bodies are computations

`Computation` is the type of computations that may run forever. `loop` repeats a body, which is a
computation itself, on the state it gives until it gives a result. `Again` is one turn of the loop
that goes on, so `mem_loop_iff` says that the results of a loop are those of the bodies that its
turns lead to, and `terminates_loop_iff` when it ends. `terminates_of_measure` is the rule with a
measure.
-/

universe u

namespace JeogiAt.Loops

open Computation Relation

variable {α β σ : Type u}

theorem mem_bind_iff {x : Computation α} {f : α → Computation β} {b : β} :
    b ∈ x >>= f ↔ ∃ a ∈ x, b ∈ f a :=
  ⟨exists_of_mem_bind, fun ⟨_, ha, hb⟩ => mem_bind ha hb⟩

theorem terminates_bind_iff {x : Computation α} {f : α → Computation β} :
    (x >>= f).Terminates ↔ ∃ a ∈ x, (f a).Terminates := by
  simp only [terminates_iff, mem_bind_iff]
  constructor
  · rintro ⟨b, a, ha, hb⟩
    exact ⟨a, ha, b, hb⟩
  · rintro ⟨a, ha, b, hb⟩
    exact ⟨b, a, ha, hb⟩

theorem terminates_bind_of {x : Computation α} {f : α → Computation β} (hx : x.Terminates)
    (hf : ∀ a ∈ x, (f a).Terminates) : (x >>= f).Terminates := by
  obtain ⟨a, ha⟩ := (terminates_iff x).mp hx
  exact terminates_bind_iff.mpr ⟨a, ha, hf a ha⟩

/-- What is left of a turn: a result ends the loop, and a state begins the next turn. -/
def turn (body : σ → Computation (β ⊕ σ)) (c : Computation (β ⊕ σ)) :
    β ⊕ Computation (β ⊕ σ) :=
  match c.destruct with
  | .inl (.inl b) => .inl b
  | .inl (.inr s) => .inr (body s)
  | .inr c => .inr c

def finish (body : σ → Computation (β ⊕ σ)) (c : Computation (β ⊕ σ)) : Computation β :=
  corec (turn body) c

def loop (body : σ → Computation (β ⊕ σ)) (s : σ) : Computation β := finish body (body s)

def Again (body : σ → Computation (β ⊕ σ)) (s s' : σ) : Prop := .inr s' ∈ body s

variable {body : σ → Computation (β ⊕ σ)} {c : Computation (β ⊕ σ)} {s s' : σ} {b : β}

theorem finish_result : finish body (Computation.pure (.inl b)) = Computation.pure b :=
  destruct_eq_pure (by rw [finish, corec_eq, turn, destruct_pure]; rfl)

theorem finish_state : finish body (Computation.pure (.inr s)) = think (loop body s) :=
  destruct_eq_think (by rw [finish, corec_eq, turn, destruct_pure]; rfl)

theorem finish_think : finish body (think c) = think (finish body c) :=
  destruct_eq_think (by rw [finish, corec_eq, turn, destruct_think]; rfl)

theorem pure_ne_think {a : α} {x : Computation α} : Computation.pure a ≠ think x := by
  intro h
  have hdestruct := congrArg destruct h
  rw [destruct_pure, destruct_think] at hdestruct
  cases hdestruct

theorem think_injective {x y : Computation α} (h : think x = think y) : x = y := by
  have hdestruct := congrArg destruct h
  rw [destruct_think, destruct_think] at hdestruct
  exact Sum.inr.inj hdestruct

theorem mem_finish_of_result (h : .inl b ∈ c) : b ∈ finish body c := by
  refine memRecOn (C := fun c => b ∈ finish body c) h ?_ fun c' hc' => ?_
  · rw [finish_result]
    exact ret_mem b
  · rw [finish_think]
    exact think_mem hc'

theorem mem_finish_of_state (h : .inr s ∈ c) (hb : b ∈ loop body s) : b ∈ finish body c := by
  refine memRecOn (C := fun c => b ∈ finish body c) h ?_ fun c' hc' => ?_
  · rw [finish_state]
    exact think_mem hb
  · rw [finish_think]
    exact think_mem hc'

theorem exists_of_mem_finish (h : b ∈ finish body c) :
    .inl b ∈ c ∨ ∃ s s', .inr s ∈ c ∧ ReflTransGen (Again body) s s' ∧ .inl b ∈ body s' := by
  generalize hx : finish body c = x at h
  -- on the steps of the loop, with the computation of the turn generalized
  refine memRecOn (C := fun x => ∀ c, finish body c = x → .inl b ∈ c ∨ ∃ s s', .inr s ∈ c ∧
    ReflTransGen (Again body) s s' ∧ .inl b ∈ body s') h (fun c hc => ?_) (fun x ih c hc => ?_) c hx
  · cases c using Computation.recOn with
    | pure r =>
      cases r with
      | inl b' =>
        rw [finish_result] at hc
        have hmem : b ∈ Computation.pure b' := hc ▸ ret_mem b
        exact .inl (eq_of_pure_mem hmem ▸ ret_mem _)
      | inr s =>
        rw [finish_state] at hc
        exact absurd hc.symm pure_ne_think
    | think c' =>
      rw [finish_think] at hc
      exact absurd hc.symm pure_ne_think
  · cases c using Computation.recOn with
    | pure r =>
      cases r with
      | inl b' =>
        rw [finish_result] at hc
        exact absurd hc pure_ne_think
      | inr s =>
        rw [finish_state] at hc
        rcases ih (body s) (think_injective hc) with hend | ⟨s₁, s₂, hs₁, hrun, hend⟩
        · exact .inr ⟨s, s, ret_mem _, .refl, hend⟩
        · exact .inr ⟨s, s₂, ret_mem _, .head hs₁ hrun, hend⟩
    | think c' =>
      rw [finish_think] at hc
      rcases ih c' (think_injective hc) with hend | ⟨s₁, s₂, hs₁, hrun, hend⟩
      · exact .inl (think_mem hend)
      · exact .inr ⟨s₁, s₂, think_mem hs₁, hrun, hend⟩

/-- The results of a loop are those of the bodies that its turns lead to. -/
theorem mem_loop_iff :
    b ∈ loop body s ↔ ∃ s', ReflTransGen (Again body) s s' ∧ .inl b ∈ body s' := by
  constructor
  · intro h
    rcases exists_of_mem_finish h with hend | ⟨s₁, s₂, hs₁, hrun, hend⟩
    · exact ⟨s, .refl, hend⟩
    · exact ⟨s₂, .head hs₁ hrun, hend⟩
  · rintro ⟨s', hrun, hend⟩
    induction hrun using ReflTransGen.head_induction_on with
    | refl => exact mem_finish_of_result hend
    | head hagain _ ih => exact mem_finish_of_state hagain ih

theorem terminates_loop_iff : (loop body s).Terminates ↔
    ∃ s', ReflTransGen (Again body) s s' ∧ ∃ b, .inl b ∈ body s' := by
  simp only [terminates_iff, mem_loop_iff]
  constructor
  · rintro ⟨b, s', hrun, hend⟩
    exact ⟨s', hrun, b, hend⟩
  · rintro ⟨s', hrun, b, hend⟩
    exact ⟨b, s', hrun, hend⟩

/-- A loop ends if its turns do and a measure decreases from each turn to the next. -/
theorem terminates_of_measure {I : σ → Prop} (μ : σ → ℕ)
    (hturn : ∀ s, I s → ∃ r ∈ body s, ∀ s', r = .inr s' → I s' ∧ μ s' < μ s) (hs : I s) :
    (loop body s).Terminates := by
  induction hμ : μ s using Nat.strong_induction_on generalizing s with
  | _ n ih =>
    obtain ⟨r, hr, hnext⟩ := hturn s hs
    cases r with
    | inl b => exact terminates_loop_iff.mpr ⟨s, .refl, b, hr⟩
    | inr s' =>
      obtain ⟨hs', hlt⟩ := hnext s' rfl
      obtain ⟨s₂, hrun, hend⟩ := terminates_loop_iff.mp (ih (μ s') (hμ ▸ hlt) hs' rfl)
      exact terminates_loop_iff.mpr ⟨s₂, .head hr hrun, hend⟩

end JeogiAt.Loops
