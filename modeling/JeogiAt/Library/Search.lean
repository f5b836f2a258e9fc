import Mathlib.Data.List.Infix
import Mathlib.Tactic.TypeStar

/-!
# Searching a pattern in a list

`indexOf pat l` is the first place where `pat` occurs in `l`. Occurrences of a pattern without a
border (no proper suffix of it is also a prefix) cannot overlap, and they cannot begin in a text
free of the pattern and end after it, which is what a resynchronising parser relies on.
-/

namespace JeogiAt

variable {α : Type*} {pat l l' : List α} {m n : ℕ}

def OccursAt (pat l : List α) (n : ℕ) : Prop := pat <+: l.drop n

theorem occursAt_drop : OccursAt pat (l.drop m) n ↔ OccursAt pat l (m + n) := by
  rw [OccursAt, OccursAt, List.drop_drop]

theorem OccursAt.le_length (h : OccursAt pat l n) (hpat : pat ≠ []) :
    n + pat.length ≤ l.length := by
  have hlen := h.length_le
  have hpos := List.length_pos_iff.mpr hpat
  rw [List.length_drop] at hlen
  omega

theorem OccursAt.append (h : OccursAt pat l n) (hpat : pat ≠ []) :
    OccursAt pat (l ++ l') n := by
  have hle := h.le_length hpat
  rw [OccursAt, List.drop_append_of_le_length (by omega)]
  exact h.trans (List.prefix_append _ _)

theorem OccursAt.of_append (h : OccursAt pat (l ++ l') n) (hle : n + pat.length ≤ l.length) :
    OccursAt pat l n := by
  rw [OccursAt, List.drop_append_of_le_length (by omega)] at h
  apply List.prefix_of_prefix_length_le h (List.prefix_append _ _)
  rw [List.length_drop]
  omega

theorem infix_iff_occursAt : pat <:+: l ↔ ∃ n, OccursAt pat l n := by
  constructor
  · rintro ⟨s, t, rfl⟩
    refine ⟨s.length, ?_⟩
    rw [OccursAt, List.append_assoc, List.drop_left]
    exact List.prefix_append _ _
  · rintro ⟨n, h⟩
    exact h.isInfix.trans (List.drop_suffix n l).isInfix

def indexOf [DecidableEq α] (pat l : List α) : Option ℕ :=
  l.tails.findIdx? fun t => pat.isPrefixOf t

section

variable [DecidableEq α]

theorem indexOf_eq_some_iff (hpat : pat ≠ []) :
    indexOf pat l = some n ↔ OccursAt pat l n ∧ ∀ m < n, ¬ OccursAt pat l m := by
  rw [indexOf, List.findIdx?_eq_some_iff_getElem]
  simp only [List.getElem_tails, List.isPrefixOf_iff_prefix, List.length_tails]
  constructor
  · rintro ⟨_, h, hmin⟩
    exact ⟨h, hmin⟩
  · rintro ⟨h, hmin⟩
    have hle := h.le_length hpat
    exact ⟨by omega, h, hmin⟩

/-- The first occurrence of `pat` in `l` at `k` or later. -/
def indexOfFrom (pat l : List α) (k : ℕ) : Option ℕ := (indexOf pat (l.drop k)).map (k + ·)

theorem indexOf_eq_none_iff : indexOf pat l = none ↔ ¬ pat <:+: l := by
  rw [indexOf, List.findIdx?_eq_none_iff, infix_iff_occursAt]
  simp only [List.mem_tails, Bool.eq_false_iff, ne_eq, List.isPrefixOf_iff_prefix, OccursAt]
  constructor
  · rintro h ⟨n, hn⟩
    exact h _ (List.drop_suffix n l) hn
  · intro h t ht hp
    obtain ⟨s, rfl⟩ := ht
    refine h ⟨s.length, ?_⟩
    rwa [List.drop_left]

end

/-- No proper suffix of the pattern is one of its prefixes. -/
def Borderless (pat : List α) : Prop := ∀ k, 0 < k → k < pat.length → ¬ pat.drop k <+: pat

theorem Borderless.not_overlap (hb : Borderless pat) (h : OccursAt pat l m)
    (h' : OccursAt pat l n) (hlt : m < n) : m + pat.length ≤ n := by
  by_contra hover
  apply hb (n - m) (by omega) (by omega)
  have hshift : pat.drop (n - m) <+: l.drop n := by
    have hdrop := List.IsPrefix.drop h (n - m)
    rwa [List.drop_drop, show m + (n - m) = n by omega] at hdrop
  apply List.prefix_of_prefix_length_le hshift h'
  rw [List.length_drop]
  exact Nat.sub_le _ _

/-- No occurrence begins in a text free of the pattern, when the pattern comes after it. -/
theorem Borderless.le_of_occursAt (hb : Borderless pat) {junk : List α}
    (hjunk : ¬ pat <:+: junk) (hp : pat <+: l) (h : OccursAt pat (junk ++ l) n) :
    junk.length ≤ n := by
  by_contra hlt
  by_cases hin : n + pat.length ≤ junk.length
  · exact hjunk (infix_iff_occursAt.mpr ⟨n, h.of_append hin⟩)
  · have hnext : OccursAt pat (junk ++ l) junk.length := by
      rwa [OccursAt, List.drop_left]
    have := hb.not_overlap h hnext (Nat.not_le.mp hlt)
    omega

/-- After a text free of the pattern, the first occurrence is the one that follows it. -/
theorem Borderless.indexOf_junk [DecidableEq α] (hb : Borderless pat) (hpat : pat ≠ [])
    {junk : List α} (hjunk : ¬ pat <:+: junk) (hp : pat <+: l) :
    indexOf pat (junk ++ l) = some junk.length := by
  rw [indexOf_eq_some_iff hpat]
  constructor
  · rwa [OccursAt, List.drop_left]
  · intro m hm h
    have := hb.le_of_occursAt hjunk hp h
    omega

theorem Borderless.not_infix_junk (hb : Borderless pat) (hpat : pat ≠ []) {junk : List α}
    (hjunk : ¬ pat <:+: junk) (hp : pat <+: l) (hl' : l' <+: junk ++ l)
    (hlt : l'.length < junk.length + pat.length) : ¬ pat <:+: l' := by
  intro h
  obtain ⟨n, hn⟩ := infix_iff_occursAt.mp h
  have hle := hn.le_length hpat
  obtain ⟨more, hmore⟩ := hl'
  have hocc : OccursAt pat (junk ++ l) n := hmore ▸ hn.append hpat
  have hge := hb.le_of_occursAt hjunk hp hocc
  omega

end JeogiAt
