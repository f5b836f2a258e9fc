import Mathlib.Data.List.Nodup
import Mathlib.Tactic.SplitIfs
import Mathlib.Tactic.TypeStar

/-!
# Update or append in a keyed list

`upsert` edits the first entry with a key where it stands, and appends a new entry if there is none.
Where an edit keeps the key, the keys of the list stay as they are or get the new one at the end. So
keys that are unique stay unique, and a second `upsert` of the same key changes what a second edit
of an entry would.
-/

namespace JeogiAt.Upsert

variable {α κ : Type*} [DecidableEq κ] (key : α → κ) (k : κ) (edit : α → α) (new : α)

def upsert : List α → List α
  | [] => [new]
  | a :: as => if key a = k then edit a :: as else a :: upsert as

variable {key k edit new} {as pre post : List α} {a : α}

theorem upsert_absent (h : ∀ a ∈ as, key a ≠ k) : upsert key k edit new as = as ++ [new] := by
  induction as with
  | nil => rfl
  | cons a as ih =>
    rw [List.forall_mem_cons] at h
    rw [upsert, if_neg h.1, ih h.2, List.cons_append]

theorem upsert_split (hpre : ∀ b ∈ pre, key b ≠ k) (ha : key a = k) :
    upsert key k edit new (pre ++ a :: post) = pre ++ edit a :: post := by
  induction pre with
  | nil => exact if_pos ha
  | cons b pre ih =>
    rw [List.forall_mem_cons] at hpre
    rw [List.cons_append, upsert, if_neg hpre.1, ih hpre.2, List.cons_append]

theorem absent_or_split (key : α → κ) (k : κ) (as : List α) :
    (∀ a ∈ as, key a ≠ k) ∨
      ∃ pre a post, as = pre ++ a :: post ∧ (∀ b ∈ pre, key b ≠ k) ∧ key a = k := by
  induction as with
  | nil => exact .inl fun _ h => absurd h List.not_mem_nil
  | cons a as ih =>
    by_cases ha : key a = k
    · exact .inr ⟨[], a, as, rfl, fun _ h => absurd h List.not_mem_nil, ha⟩
    · rcases ih with habsent | ⟨pre, b, post, rfl, hpre, hb⟩
      · exact .inl (List.forall_mem_cons.mpr ⟨ha, habsent⟩)
      · exact .inr ⟨a :: pre, b, post, rfl, List.forall_mem_cons.mpr ⟨ha, hpre⟩, hb⟩

section Keys

variable (hedit : ∀ a, key (edit a) = key a) (hnew : key new = k)

include hedit hnew

theorem map_key_upsert (as : List α) :
    (upsert key k edit new as).map key =
      if k ∈ as.map key then as.map key else as.map key ++ [k] := by
  rcases absent_or_split key k as with habsent | ⟨pre, a, post, rfl, hpre, ha⟩
  · have hnot : k ∉ as.map key := fun hmem => by
      obtain ⟨a, ha, hk⟩ := List.mem_map.mp hmem
      exact habsent a ha hk
    rw [if_neg hnot, upsert_absent habsent, List.map_append, List.map_singleton, hnew]
  · have hmem : k ∈ (pre ++ a :: post).map key :=
      List.mem_map.mpr ⟨a, List.mem_append_right _ List.mem_cons_self, ha⟩
    rw [if_pos hmem, upsert_split hpre ha, List.map_append, List.map_append, List.map_cons,
      List.map_cons, hedit]

theorem mem_map_key_upsert (as : List α) (k' : κ) :
    k' ∈ (upsert key k edit new as).map key ↔ k' ∈ as.map key ∨ k' = k := by
  rw [map_key_upsert hedit hnew]
  split_ifs with hmem
  · refine (or_iff_left_of_imp ?_).symm
    rintro rfl
    exact hmem
  · rw [List.mem_append, List.mem_singleton]

theorem nodup_upsert (h : (as.map key).Nodup) : ((upsert key k edit new as).map key).Nodup := by
  rw [map_key_upsert hedit hnew]
  split_ifs with hmem
  · exact h
  · exact List.Nodup.append h (List.nodup_singleton k) (List.disjoint_singleton.mpr hmem)

theorem upsert_upsert (htwice : ∀ a, edit (edit a) = edit a) (hkeep : edit new = new)
    (as : List α) :
    upsert key k edit new (upsert key k edit new as) = upsert key k edit new as := by
  rcases absent_or_split key k as with habsent | ⟨pre, a, post, rfl, hpre, ha⟩
  · rw [upsert_absent habsent, upsert_split habsent hnew, hkeep]
  · rw [upsert_split hpre ha, upsert_split hpre ((hedit a).trans ha), htwice]

end Keys

end JeogiAt.Upsert
