import JeogiAt.Library.Machine
import Mathlib.Data.List.Basic

/-!
# A double buffer

Places in memory that a producer fills and a consumer takes. `memory` is what happens: a fill
overwrites its place, and whoever takes a place gets what is in it. `fifo` is what is meant: the
full places in the order of their fills, of which the oldest is taken first.

The two agree as long as no full place is filled again and only the oldest is taken. `clear` forgets
the full places and leaves the memory.
-/

open scoped List

namespace JeogiAt.DoubleBuffer

variable {ι α : Type*}

inductive Op (ι α : Type*)
  | fill (place : ι) (x : α)
  | take (place : ι)
  | clear

def memory [DecidableEq ι] : Machine (ι → α) (Op ι α) (List α) where
  step m
    | .fill place x => (Function.update m place x, [])
    | .take place => (m, [m place])
    | .clear => (m, [])

def fifo : Machine (List (ι × α)) (Op ι α) (List α) where
  step q
    | .fill place x => (q ++ [(place, x)], [])
    | .take _ => (q.tail, q.head?.toList.map Prod.snd)
    | .clear => ([], [])

def Op.filled : Op ι α → List α
  | .fill _ x => [x]
  | _ => []

def Proper (q : List (ι × α)) : Op ι α → Prop
  | .fill place _ => ∀ x, (place, x) ∉ q
  | .take place => ∃ x rest, q = (place, x) :: rest
  | .clear => True

def Agrees (m : ι → α) (q : List (ι × α)) : Prop := ∀ p ∈ q, m p.1 = p.2

section

variable [DecidableEq ι] {m : ι → α} {q : List (ι × α)}

theorem agrees_next (h : Agrees m q) {op : Op ι α} (hproper : Proper q op) :
    Agrees (memory.next m op) (fifo.next q op) ∧ memory.output m op = fifo.output q op := by
  cases op with
  | fill place x =>
    refine ⟨fun p hp => ?_, rfl⟩
    rcases List.mem_append.mp hp with hold | hnew
    · have hne : p.1 ≠ place := by
        rintro rfl
        exact hproper p.2 hold
      exact (Function.update_of_ne hne x m).trans (h p hold)
    · rw [List.mem_singleton.mp hnew]
      exact Function.update_self place x m
  | take place =>
    obtain ⟨x, rest, rfl⟩ := hproper
    refine ⟨fun p hp => h p (List.mem_cons_of_mem _ hp), ?_⟩
    exact congrArg (fun y => [y]) (h (place, x) List.mem_cons_self)
  | clear => exact ⟨fun p hp => absurd hp List.not_mem_nil, rfl⟩

theorem trace_memory {ops : List (Op ι α)} (h : Agrees m q)
    (hproper : fifo.Along Proper q ops) : memory.trace m ops = fifo.trace q ops := by
  induction ops generalizing m q with
  | nil => rfl
  | cons op ops ih =>
    obtain ⟨hagrees, hout⟩ := agrees_next h hproper.1
    rw [Machine.trace_cons, Machine.trace_cons, hout, ih hagrees hproper.2]

end

/-- What has been taken and what is still there were filled in, in this order. -/
theorem taken_sublist (q : List (ι × α)) (ops : List (Op ι α)) :
    (fifo.trace q ops).flatten ++ (fifo.run q ops).map Prod.snd <+
      q.map Prod.snd ++ ops.flatMap Op.filled := by
  induction ops generalizing q with
  | nil => exact (List.append_nil _).symm ▸ List.Sublist.refl _
  | cons op ops ih =>
    rw [Machine.trace_cons, Machine.run_cons, List.flatten_cons, List.flatMap_cons,
      List.append_assoc]
    have hrest := ih (fifo.next q op)
    cases op with
    | fill place x =>
      have hnext : (fifo.next q (.fill place x)).map Prod.snd = q.map Prod.snd ++ [x] :=
        List.map_append
      rw [hnext, List.append_assoc] at hrest
      exact hrest
    | take place =>
      have hsplit : q.map Prod.snd =
          fifo.output q (.take place) ++ (fifo.next q (.take place)).map Prod.snd := by
        cases q <;> rfl
      rw [hsplit, List.append_assoc]
      exact hrest.append_left _
    | clear => exact hrest.trans (List.sublist_append_right _ _)

/-- Where nothing is forgotten, all that was filled in has been taken or is still there. -/
theorem taken_eq (q : List (ι × α)) {ops : List (Op ι α)} (h : ∀ op ∈ ops, op ≠ .clear) :
    (fifo.trace q ops).flatten ++ (fifo.run q ops).map Prod.snd =
      q.map Prod.snd ++ ops.flatMap Op.filled := by
  induction ops generalizing q with
  | nil => exact (List.append_nil _).symm
  | cons op ops ih =>
    obtain ⟨hop, hops⟩ := List.forall_mem_cons.mp h
    rw [Machine.trace_cons, Machine.run_cons, List.flatten_cons, List.flatMap_cons,
      List.append_assoc, ih _ hops]
    cases op with
    | fill place x => simp [fifo, Machine.next, Machine.output, Op.filled]
    | take place => cases q <;> rfl
    | clear => exact absurd rfl hop

end JeogiAt.DoubleBuffer
