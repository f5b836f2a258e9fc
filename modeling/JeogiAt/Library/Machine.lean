import Mathlib.Data.List.Infix
import Mathlib.Tactic.TypeStar

/-!
# Deterministic machines and the conditions that hold along their runs

A `Machine` answers each input with a next state and an output. `run` and `trace` fold it over a
list of inputs. `Along P s xs` asks that every step of the run satisfies `P`, a predicate of the
state before the step and of its input.

`invariant_along` is the usual rule: what every such step preserves holds at the end of the run.
`length_le_rank` bounds a run whose steps lower a rank.
`forall_trace_iff_along` judges a run by its outputs.
`run_refines` and `run_simulation` compare the runs of two machines.
`Throughout Q xs` judges each element of a list by what is before it.
`prefixes_iff_along` is the exact form of the rule. When, after a run of good steps, a property of
the inputs read so far survives the next step if and only if that step is good, the property holds
of every prefix if and only if the whole run is good.
-/

namespace JeogiAt

theorem forall_prefix_cons {α : Type*} {Q : List α → Prop} {x : α} {xs : List α} :
    (∀ ys, ys <+: x :: xs → Q ys) ↔ Q [] ∧ ∀ ys, ys <+: xs → Q (x :: ys) := by
  constructor
  · intro h
    exact ⟨h [] List.nil_prefix, fun ys hys => h (x :: ys) ((List.prefix_cons_inj x).mpr hys)⟩
  · rintro ⟨hnil, hcons⟩ ys hys
    rcases List.prefix_cons_iff.mp hys with rfl | ⟨rest, rfl, hrest⟩
    · exact hnil
    · exact hcons rest hrest

/-- At each element of a list, `Q` holds of it and of what is before it. -/
def Throughout {α : Type*} (Q : List α → α → Prop) (xs : List α) : Prop :=
  ∀ ys x, ys ++ [x] <+: xs → Q ys x

theorem throughout_nil {α : Type*} {Q : List α → α → Prop} : Throughout Q [] := fun ys x h => by
  cases List.append_ne_nil_of_right_ne_nil ys (List.cons_ne_nil x []) (List.prefix_nil.mp h)

theorem throughout_concat {α : Type*} {Q : List α → α → Prop} {xs : List α} {x : α} :
    Throughout Q (xs ++ [x]) ↔ Throughout Q xs ∧ Q xs x := by
  constructor
  · intro h
    exact ⟨fun ys y hy => h ys y (hy.trans (List.prefix_append xs [x])),
      h xs x List.prefix_rfl⟩
  · rintro ⟨hrun, hlast⟩ ys y h
    rcases List.prefix_concat_iff.mp h with heq | hprefix
    · obtain ⟨rfl, rfl⟩ := List.append_singleton_inj.mp heq
      exact hlast
    · exact hrun ys y hprefix

structure Machine (σ α β : Type*) where
  step : σ → α → σ × β

namespace Machine

variable {σ α β : Type*} (M : Machine σ α β)

def next (s : σ) (x : α) : σ := (M.step s x).1

def output (s : σ) (x : α) : β := (M.step s x).2

def run (s : σ) : List α → σ
  | [] => s
  | x :: xs => run (M.next s x) xs

def trace (s : σ) : List α → List β
  | [] => []
  | x :: xs => M.output s x :: trace (M.next s x) xs

@[simp] theorem run_nil (s : σ) : M.run s [] = s := rfl

@[simp] theorem run_cons (s : σ) (x : α) (xs : List α) :
    M.run s (x :: xs) = M.run (M.next s x) xs := rfl

@[simp] theorem trace_nil (s : σ) : M.trace s [] = [] := rfl

@[simp] theorem trace_cons (s : σ) (x : α) (xs : List α) :
    M.trace s (x :: xs) = M.output s x :: M.trace (M.next s x) xs := rfl

theorem run_append (s : σ) (xs ys : List α) : M.run s (xs ++ ys) = M.run (M.run s xs) ys := by
  induction xs generalizing s with
  | nil => rfl
  | cons x xs ih => simp only [List.cons_append, run_cons, ih]

theorem trace_append (s : σ) (xs ys : List α) :
    M.trace s (xs ++ ys) = M.trace s xs ++ M.trace (M.run s xs) ys := by
  induction xs generalizing s with
  | nil => rfl
  | cons x xs ih => simp only [List.cons_append, trace_cons, run_cons, ih]

theorem run_concat (s : σ) (xs : List α) (x : α) :
    M.run s (xs ++ [x]) = M.next (M.run s xs) x := by
  rw [run_append]
  rfl

theorem trace_concat (s : σ) (xs : List α) (x : α) :
    M.trace s (xs ++ [x]) = M.trace s xs ++ [M.output (M.run s xs) x] := by
  rw [trace_append]
  rfl

/-- Every step of the run from `s` on `xs` satisfies `P`. -/
def Along (P : σ → α → Prop) (s : σ) : List α → Prop
  | [] => True
  | x :: xs => P s x ∧ Along P (M.next s x) xs

variable {M} {P Q : σ → α → Prop} {s : σ} {xs ys : List α}

@[simp] theorem along_nil : M.Along P s [] := trivial

@[simp] theorem along_cons {x : α} :
    M.Along P s (x :: xs) ↔ P s x ∧ M.Along P (M.next s x) xs := Iff.rfl

theorem along_append : M.Along P s (xs ++ ys) ↔ M.Along P s xs ∧ M.Along P (M.run s xs) ys := by
  induction xs generalizing s with
  | nil => simp only [List.nil_append, along_nil, true_and, run_nil]
  | cons x xs ih => simp only [List.cons_append, along_cons, run_cons, ih, and_assoc]

theorem along_concat {x : α} :
    M.Along P s (xs ++ [x]) ↔ M.Along P s xs ∧ P (M.run s xs) x := by
  simp only [along_append, along_cons, along_nil, and_true]

theorem along_input_iff {Q : α → Prop} : M.Along (fun _ x => Q x) s xs ↔ ∀ x ∈ xs, Q x := by
  induction xs generalizing s with
  | nil => simp only [along_nil, List.not_mem_nil, false_imp_iff, implies_true]
  | cons x xs ih => simp only [along_cons, ih, List.forall_mem_cons]

theorem along_iff_forall_prefix :
    M.Along P s xs ↔ ∀ ys x, ys ++ [x] <+: xs → P (M.run s ys) x := by
  change M.Along P s xs ↔ Throughout (fun ys x => P (M.run s ys) x) xs
  induction xs using List.reverseRecOn with
  | nil => exact iff_of_true along_nil throughout_nil
  | append_singleton xs x ih => rw [along_concat, throughout_concat, ih]

theorem invariant_along {I : σ → Prop} (hstep : ∀ s x, I s → P s x → I (M.next s x))
    (hs : I s) (h : M.Along P s xs) : I (M.run s xs) := by
  induction xs generalizing s with
  | nil => exact hs
  | cons x xs ih => exact ih (hstep s x hs h.1) h.2

/-- Where good steps preserve an invariant, what it says of them holds of every step of a good
run. -/
theorem along_of_invariant {I : σ → Prop} (hstep : ∀ s x, I s → P s x → I (M.next s x) ∧ Q s x)
    (hs : I s) (h : M.Along P s xs) : M.Along Q s xs := by
  induction xs generalizing s with
  | nil => exact along_nil
  | cons x xs ih =>
    obtain ⟨hnext, hgood⟩ := hstep s x hs h.1
    exact ⟨hgood, ih hnext h.2⟩

/-- Where good steps keep an invariant and lower a rank, a good run is no longer than the rank. -/
theorem length_le_rank {I : σ → Prop} {rank : σ → ℕ}
    (hstep : ∀ s x, I s → P s x → I (M.next s x) ∧ rank (M.next s x) < rank s)
    (hs : I s) (h : M.Along P s xs) : xs.length ≤ rank s := by
  induction xs generalizing s with
  | nil => exact Nat.zero_le _
  | cons x xs ih =>
    obtain ⟨hnext, hlt⟩ := hstep s x hs h.1
    exact Nat.lt_of_le_of_lt (ih hnext h.2) hlt

theorem invariant_run {I : σ → Prop} (hstep : ∀ s x, I s → I (M.next s x)) (hs : I s)
    (xs : List α) : I (M.run s xs) := by
  induction xs generalizing s with
  | nil => exact hs
  | cons x xs ih => exact ih (hstep s x hs)

theorem invariant_run_of {J I : σ → Prop} (hrest : ∀ s x, J s → J (M.next s x))
    (hstep : ∀ s x, J s → I s → I (M.next s x)) (hJ : J s) (hs : I s) (xs : List α) :
    I (M.run s xs) := by
  have hboth : J (M.run s xs) ∧ I (M.run s xs) :=
    M.invariant_run (I := fun s => J s ∧ I s)
      (fun s x h => ⟨hrest s x h.1, hstep s x h.1 h.2⟩) ⟨hJ, hs⟩ xs
  exact hboth.2

/-- Where, in the states that an invariant allows, an output is right exactly when its step is good,
all outputs of a run are right exactly when all its steps are good. -/
theorem forall_trace_iff_along {I : σ → Prop} {Q : β → Prop}
    (hstep : ∀ s x, I s → I (M.next s x) ∧ (Q (M.output s x) ↔ P s x)) (hs : I s) :
    (∀ y ∈ M.trace s xs, Q y) ↔ M.Along P s xs := by
  induction xs generalizing s with
  | nil => simp only [trace_nil, List.not_mem_nil, false_imp_iff, implies_true, along_nil]
  | cons x xs ih =>
    obtain ⟨hnext, hout⟩ := hstep s x hs
    rw [trace_cons, List.forall_mem_cons, along_cons, hout, ih hnext]

/-- A machine that keeps in step with another one, and whose log grows by the other's output at
every step, logs the other's trace. -/
theorem run_simulation {σ' α' κ : Type*} {N : Machine σ' α' (List κ)} {R : σ → σ' → Prop}
    {f : α' → α} {log : σ → List κ}
    (hstep : ∀ s t x, R s t → R (M.next s (f x)) (N.next t x) ∧
      log (M.next s (f x)) = log s ++ N.output t x)
    {t : σ'} (h : R s t) (xs : List α') :
    R (M.run s (xs.map f)) (N.run t xs) ∧
      log (M.run s (xs.map f)) = log s ++ (N.trace t xs).flatten := by
  induction xs generalizing s t with
  | nil => exact ⟨h, by rw [trace_nil, List.flatten_nil, List.append_nil]; rfl⟩
  | cons x xs ih =>
    obtain ⟨hnext, hlog⟩ := hstep s t x h
    obtain ⟨hrun, hrest⟩ := ih hnext
    refine ⟨hrun, ?_⟩
    rw [List.map_cons, run_cons, hrest, hlog, trace_cons, List.flatten_cons, List.append_assoc]

/-- A machine whose steps are another one's, seen through `R`, has the other one's runs. -/
theorem run_refines {τ : Type*} {N : Machine τ α β} {R : σ → τ → Prop}
    (hstep : ∀ s t x, R s t → R (M.next s x) (N.next t x) ∧ M.output s x = N.output t x)
    {t : τ} (h : R s t) (xs : List α) :
    R (M.run s xs) (N.run t xs) ∧ M.trace s xs = N.trace t xs := by
  induction xs generalizing s t with
  | nil => exact ⟨h, rfl⟩
  | cons x xs ih =>
    obtain ⟨hnext, hout⟩ := hstep s t x h
    obtain ⟨hrun, htrace⟩ := ih hnext
    exact ⟨hrun, by rw [trace_cons, trace_cons, hout, htrace]⟩

/-- The exact rule: a property of the inputs read so far that holds at the start and, after good
steps, survives the next step exactly when that step is good, holds throughout a run exactly when
all its steps are good. It may rest on a fact `F` about the inputs of all these runs. -/
theorem prefixes_iff_along_of {I F : List α → Prop} (h0 : I [])
    (hstep : ∀ ys x, F (ys ++ [x]) → M.Along P s ys → I ys →
      (I (ys ++ [x]) ↔ P (M.run s ys) x))
    (xs : List α) (hF : ∀ ys, ys <+: xs → F ys) :
    (∀ ys, ys <+: xs → I ys) ↔ M.Along P s xs := by
  induction xs using List.reverseRecOn with
  | nil => simpa only [List.prefix_nil, forall_eq, along_nil, iff_true] using h0
  | append_singleton xs x ih =>
    have hsplit : (∀ ys, ys <+: xs ++ [x] → I ys) ↔
        (∀ ys, ys <+: xs → I ys) ∧ I (xs ++ [x]) := by
      simp only [List.prefix_concat_iff, forall_eq_or_imp, and_comm]
    have hrun := ih fun ys hys => hF ys (hys.trans (List.prefix_append xs [x]))
    rw [hsplit, along_concat, hrun]
    exact and_congr_right fun ha =>
      hstep xs x (hF _ List.prefix_rfl) ha (hrun.mpr ha xs List.prefix_rfl)

theorem prefixes_iff_along {I : List α → Prop} (h0 : I [])
    (hstep : ∀ ys x, M.Along P s ys → I ys → (I (ys ++ [x]) ↔ P (M.run s ys) x))
    (xs : List α) : (∀ ys, ys <+: xs → I ys) ↔ M.Along P s xs :=
  prefixes_iff_along_of (F := fun _ => True) h0 (fun ys x _ => hstep ys x) xs fun _ _ => trivial

end Machine

end JeogiAt
