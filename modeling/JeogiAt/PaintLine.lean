import JeogiAt.GuiPaint

/-!
# The lines that are drawn

The loop of `Paint_DrawLine` follows the walk of a digital line: `Line.At p s` says that the
variables are at the point `p` of it, with the error that belongs there. So it ends, whatever the
end points are, and what it has drawn then is a path in the box of the line. Level and upright lines
are drawn from end to end; others may miss the last column, by one.
-/

namespace JeogiAt.Paint

open DigitalLine

def LineState.point (s : LineState) : ℤ × ℤ := (s.Xpoint.toNat, s.Ypoint.toNat)

namespace Line

variable (l : Line)

def columns : ℕ := l.dx.toNat

def rows : ℕ := (-l.dy).toNat

def xAt (i : ℕ) : ℤ := l.Xstart.toNat + l.xAddway * i

def yAt (j : ℕ) : ℤ := l.Ystart.toNat + l.yAddway * j

def pointAt (p : ℕ × ℕ) : ℤ × ℤ := (l.xAt p.1, l.yAt p.2)

/-- The variables of the loop at a point of the digital line. -/
structure At (p : ℕ × ℕ) (s : LineState) : Prop where
  x : (s.Xpoint.toNat : ℤ) = l.xAt p.1
  y : (s.Ypoint.toNat : ℤ) = l.yAt p.2
  esp : s.Esp = error l.columns l.rows p

theorem dx_eq : l.dx = l.columns := by
  have hpos : 0 ≤ l.dx := by
    unfold dx
    split_ifs <;> omega
  exact (Int.toNat_of_nonneg hpos).symm

theorem dy_eq : l.dy = -l.rows := by
  have hneg : 0 ≤ -l.dy := by
    unfold dy
    split_ifs <;> omega
  have hrows : (l.rows : ℤ) = -l.dy := Int.toNat_of_nonneg hneg
  omega

theorem fuel_eq : l.fuel = l.columns + l.rows + 1 := by
  rw [fuel, dx_eq, dy_eq]
  omega

theorem xAt_cases : l.xAddway = 1 ∧ (l.Xend.toNat : ℤ) = l.Xstart.toNat + l.columns ∨
    l.xAddway = -1 ∧ (l.Xend.toNat : ℤ) = l.Xstart.toNat - l.columns := by
  have hdx := l.dx_eq
  unfold dx at hdx
  unfold xAddway
  simp only [UInt16.lt_iff_toNat_lt]
  split_ifs at hdx ⊢ <;> omega

theorem yAt_cases : l.yAddway = 1 ∧ (l.Yend.toNat : ℤ) = l.Ystart.toNat + l.rows ∨
    l.yAddway = -1 ∧ (l.Yend.toNat : ℤ) = l.Ystart.toNat - l.rows := by
  have hdy := l.dy_eq
  unfold dy at hdy
  unfold yAddway
  simp only [UInt16.lt_iff_toNat_lt]
  split_ifs at hdy ⊢ <;> omega

variable {l}

theorem xAt_eq_end_iff {i : ℕ} : l.xAt i = l.Xend.toNat ↔ i = l.columns := by
  unfold xAt
  rcases l.xAt_cases with ⟨hway, hend⟩ | ⟨hway, hend⟩ <;> rw [hway, hend] <;> omega

theorem yAt_eq_end_iff {j : ℕ} : l.yAt j = l.Yend.toNat ↔ j = l.rows := by
  unfold yAt
  rcases l.yAt_cases with ⟨hway, hend⟩ | ⟨hway, hend⟩ <;> rw [hway, hend] <;> omega

theorem xAt_mem {i : ℕ} (h : i ≤ l.columns) :
    min (l.Xstart.toNat : ℤ) l.Xend.toNat ≤ l.xAt i ∧
      l.xAt i ≤ max (l.Xstart.toNat : ℤ) l.Xend.toNat := by
  unfold xAt
  rcases l.xAt_cases with ⟨hway, hend⟩ | ⟨hway, hend⟩ <;> rw [hway, hend] <;> omega

theorem yAt_mem {j : ℕ} (h : j ≤ l.rows) :
    min (l.Ystart.toNat : ℤ) l.Yend.toNat ≤ l.yAt j ∧
      l.yAt j ≤ max (l.Ystart.toNat : ℤ) l.Yend.toNat := by
  unfold yAt
  rcases l.yAt_cases with ⟨hway, hend⟩ | ⟨hway, hend⟩ <;> rw [hway, hend] <;> omega

theorem xAt_succ (i : ℕ) : l.xAt (i + 1) = l.xAt i + l.xAddway := by
  unfold xAt
  rw [Nat.cast_succ, mul_add, mul_one, add_assoc]

theorem yAt_succ (j : ℕ) : l.yAt (j + 1) = l.yAt j + l.yAddway := by
  unfold yAt
  rw [Nat.cast_succ, mul_add, mul_one, add_assoc]

theorem uword_xAt {i : ℕ} (h : i ≤ l.columns) : ((uword (l.xAt i)).toNat : ℤ) = l.xAt i := by
  have hmem := xAt_mem h
  have hstart := l.Xstart.toNat_lt
  have hend := l.Xend.toNat_lt
  exact toNat_uword (by omega) (by omega)

theorem uword_yAt {j : ℕ} (h : j ≤ l.rows) : ((uword (l.yAt j)).toNat : ℤ) = l.yAt j := by
  have hmem := yAt_mem h
  have hstart := l.Ystart.toNat_lt
  have hend := l.Yend.toNat_lt
  exact toNat_uword (by omega) (by omega)

variable (l) in
theorem at_start : l.At (0, 0) l.start where
  x := by simp [start, xAt]
  y := by simp [start, yAt]
  esp := by
    rw [start, dx_eq, dy_eq, error_eq, height]
    simp [sub_eq_add_neg]

theorem error_across (a b i j : ℕ) : error a b (i + 1, j) = error a b (i, j) - b := by
  rw [error_eq, error_eq, height_across]
  omega

theorem error_up (a b i j : ℕ) : error a b (i, j + 1) = error a b (i, j) + a := by
  rw [error_eq, error_eq, height_up]
  omega

theorem xpoint_eq_end_iff {p : ℕ × ℕ} {s : LineState} (h : l.At p s) :
    s.Xpoint = l.Xend ↔ p.1 = l.columns := by
  rw [← xAt_eq_end_iff, ← h.x, ← UInt16.toNat_inj]
  omega

theorem ypoint_eq_end_iff {p : ℕ × ℕ} {s : LineState} (h : l.At p s) :
    s.Ypoint = l.Yend ↔ p.2 = l.rows := by
  rw [← yAt_eq_end_iff, ← h.y, ← UInt16.toNat_inj]
  omega

/-- The step across of a turn, with what is left of the error. -/
theorem across_at {p : ℕ × ℕ} {s : LineState} (h : l.At p s) (hp : p.1 ≤ l.columns) :
    (if l.dy ≤ 2 * s.Esp then
      if s.Xpoint = l.Xend then none
      else some (uword (s.Xpoint.toNat + l.xAddway), s.Esp + l.dy)
    else some (s.Xpoint, s.Esp)) =
      if Across l.columns l.rows p ∧ p.1 = l.columns then none
      else some (uword (l.xAt (if Across l.columns l.rows p then p.1 + 1 else p.1)),
        rest l.columns l.rows p) := by
  have hcond : l.dy ≤ 2 * s.Esp ↔ Across l.columns l.rows p := by
    rw [dy_eq, h.esp]
    rfl
  have hend := xpoint_eq_end_iff h
  have hstay : uword (l.xAt p.1) = s.Xpoint := by
    have hvalue := (uword_xAt hp).trans h.x.symm
    exact UInt16.toNat_inj.mp (by omega)
  rw [rest]
  by_cases hacross : Across l.columns l.rows p
  · rw [if_pos (hcond.mpr hacross), if_pos hacross, if_pos hacross]
    by_cases hlast : p.1 = l.columns
    · rw [if_pos (hend.mpr hlast), if_pos ⟨hacross, hlast⟩]
    · rw [if_neg (mt hend.mp hlast), if_neg fun hstop => hlast hstop.2, xAt_succ, h.x, h.esp, dy_eq]
      rfl
  · rw [if_neg (mt hcond.mp hacross), if_neg fun hstop => hacross hstop.1, if_neg hacross,
      if_neg hacross, hstay, h.esp]

theorem advance_at {p : ℕ × ℕ} {s : LineState} (h : l.At p s) (hp : p.1 ≤ l.columns)
    (hp' : p.2 ≤ l.rows) (Line_Style : LineStyle) :
    Option.Rel l.At (DigitalLine.advance l.columns l.rows p) (l.advance Line_Style s) := by
  have hup : 2 * rest l.columns l.rows p ≤ l.dx ↔ Up l.columns l.rows p := by
    rw [dx_eq]
    rfl
  have hend := ypoint_eq_end_iff h
  unfold advance
  rw [across_at h hp, DigitalLine.advance]
  dsimp only
  by_cases hcolumn : Across l.columns l.rows p ∧ p.1 = l.columns
  · rw [if_pos (.inl hcolumn), if_pos hcolumn, Option.bind_none]
    exact .none
  rw [if_neg hcolumn, Option.bind_some]
  dsimp only
  by_cases hstop : Up l.columns l.rows p ∧ p.2 = l.rows
  · rw [if_pos (.inr hstop), if_pos (hup.mpr hstop.1), if_pos (hend.mpr hstop.2)]
    exact .none
  rw [if_neg fun hor => hor.elim hcolumn hstop]
  have hx : (if Across l.columns l.rows p then p.1 + 1 else p.1) ≤ l.columns := by
    split_ifs with hacross
    · exact lt_of_le_of_ne hp fun heq => hcolumn ⟨hacross, heq⟩
    · exact hp
  have herror : rest l.columns l.rows p =
      error l.columns l.rows (if Across l.columns l.rows p then p.1 + 1 else p.1, p.2) := by
    rw [rest]
    split_ifs
    · exact (error_across _ _ _ _).symm
    · rfl
  by_cases hrise : Up l.columns l.rows p
  · have hlt : p.2 < l.rows := lt_of_le_of_ne hp' fun heq => hstop ⟨hrise, heq⟩
    rw [if_pos (hup.mpr hrise), if_neg (mt hend.mp hlt.ne), if_pos hrise]
    refine .some ⟨uword_xAt hx, ?_, ?_⟩
    · rw [h.y, ← yAt_succ]
      exact uword_yAt hlt
    · rw [herror, dx_eq, error_up]
  · rw [if_neg (mt hup.mp hrise), if_neg hrise]
    exact .some ⟨uword_xAt hx, h.y, herror⟩

theorem turns_at {fuel : ℕ} {p : ℕ × ℕ} {ps : List (ℕ × ℕ)} {s : LineState} (h : l.At p s)
    (hnear : Near l.columns l.rows p) (hwalk : walk l.columns l.rows fuel p = some ps)
    (Line_Style : LineStyle) :
    ∃ ss, l.turns Line_Style fuel s = some ss ∧ ss.map LineState.point = ps.map l.pointAt := by
  induction fuel generalizing p s ps with
  | zero => cases hwalk
  | succ fuel ih =>
    have hpoint : s.point = l.pointAt p := Prod.ext h.x h.y
    have hturn := advance_at h hnear.fst_le hnear.snd_le Line_Style
    unfold walk at hwalk
    unfold turns
    cases hq : DigitalLine.advance l.columns l.rows p with
    | none =>
      rw [hq] at hwalk hturn
      cases hwalk
      cases hs : l.advance Line_Style s with
      | none => exact ⟨[s], rfl, congrArg ([·]) hpoint⟩
      | some s' => rw [hs] at hturn; cases hturn
    | some q =>
      rw [hq] at hwalk hturn
      obtain ⟨qs, hqs, rfl⟩ := Option.map_eq_some_iff.mp hwalk
      cases hs : l.advance Line_Style s with
      | none => rw [hs] at hturn; cases hturn
      | some s' =>
        rw [hs] at hturn
        obtain ⟨hat⟩ := hturn
        obtain ⟨ss, hss, hall⟩ := ih hat (near_of_advance hnear hq).1 hqs
        refine ⟨s :: ss, congrArg (Option.map (s :: ·)) hss, ?_⟩
        rw [List.map_cons, List.map_cons, hpoint, hall]

theorem turns_add {Line_Style : LineStyle} {fuel : ℕ} {s : LineState} {ss : List LineState}
    (h : l.turns Line_Style fuel s = some ss) (n : ℕ) :
    l.turns Line_Style (fuel + n) s = some ss := by
  induction fuel generalizing s ss with
  | zero => cases h
  | succ fuel ih =>
    rw [Nat.succ_add]
    unfold turns at h ⊢
    cases hs : l.advance Line_Style s with
    | none =>
      rw [hs] at h
      exact h
    | some s' =>
      rw [hs] at h
      obtain ⟨ss', hss', rfl⟩ := Option.map_eq_some_iff.mp h
      exact congrArg (Option.map (s :: ·)) (ih hss')

/-- The loop of a line ends, with a walk of the digital line. -/
theorem exists_turns (l : Line) (Line_Style : LineStyle) :
    ∃ ps ss, walk l.columns l.rows l.fuel (0, 0) = some ps ∧
      l.turns Line_Style l.fuel l.start = some ss ∧
      ss.map LineState.point = ps.map l.pointAt := by
  have hmore : l.columns + l.rows < l.fuel + (0 + 0) := by
    rw [fuel_eq]
    omega
  obtain ⟨ps, hps⟩ := exists_walk near_start hmore
  obtain ⟨ss, hss, hpoints⟩ := turns_at l.at_start near_start hps Line_Style
  exact ⟨ps, ss, hps, hss, hpoints⟩

variable (l) in
/-- From one point to the next: at most one pixel along each axis, towards the end. -/
def Step (P Q : ℤ × ℤ) : Prop :=
  (Q.1 = P.1 ∨ Q.1 = P.1 + l.xAddway) ∧ (Q.2 = P.2 ∨ Q.2 = P.2 + l.yAddway) ∧ Q ≠ P

variable (l) in
/-- How far a point is past the line, towards its end row: `dx` times in `y`, `-dy` times in `x`. -/
def deviation (P : ℤ × ℤ) : ℤ := l.dx * |P.2 - l.Ystart.toNat| + l.dy * |P.1 - l.Xstart.toNat|

variable (l) in
/-- The point is in the box of the line. Measured across the longer direction of the line, it is at
most half a pixel short of the line and at most three halves of a pixel past it, towards the end
row. -/
structure Beside (P : ℤ × ℤ) : Prop where
  left : min (l.Xstart.toNat : ℤ) l.Xend.toNat ≤ P.1
  right : P.1 ≤ max (l.Xstart.toNat : ℤ) l.Xend.toNat
  bottom : min (l.Ystart.toNat : ℤ) l.Yend.toNat ≤ P.2
  top : P.2 ≤ max (l.Ystart.toNat : ℤ) l.Yend.toNat
  lower : -max l.dx (-l.dy) ≤ 2 * l.deviation P
  upper : 2 * l.deviation P ≤ l.dx - 2 * l.dy

variable (l) in
/-- Where the loop breaks. A line of a slope from a half to less than one misses its end point. -/
def lastPoint : ℤ × ℤ :=
  (if -l.dy < l.dx ∧ l.dx ≤ -2 * l.dy then l.Xend.toNat - l.xAddway else l.Xend.toNat,
    l.Yend.toNat)

theorem abs_xAt_sub (i : ℕ) : |l.xAt i - l.Xstart.toNat| = i := by
  have hway : |l.xAddway| = 1 := by
    rcases l.xAt_cases with ⟨hway, -⟩ | ⟨hway, -⟩ <;> rw [hway] <;> rfl
  rw [xAt, add_sub_cancel_left, abs_mul, hway, one_mul, Nat.abs_cast]

theorem abs_yAt_sub (j : ℕ) : |l.yAt j - l.Ystart.toNat| = j := by
  have hway : |l.yAddway| = 1 := by
    rcases l.yAt_cases with ⟨hway, -⟩ | ⟨hway, -⟩ <;> rw [hway] <;> rfl
  rw [yAt, add_sub_cancel_left, abs_mul, hway, one_mul, Nat.abs_cast]

theorem beside_pointAt {p : ℕ × ℕ} (h : Near l.columns l.rows p) : l.Beside (l.pointAt p) := by
  have hdeviation : l.deviation (l.pointAt p) = height l.columns l.rows p := by
    rw [deviation, pointAt, abs_xAt_sub, abs_yAt_sub, dx_eq, dy_eq, height]
    linarith
  obtain ⟨hleft, hright⟩ := xAt_mem h.fst_le
  obtain ⟨hbottom, htop⟩ := yAt_mem h.snd_le
  refine ⟨hleft, hright, hbottom, htop, ?_, ?_⟩
  · rw [hdeviation, dx_eq, dy_eq]
    have hlower := h.lower
    omega
  · rw [hdeviation, dx_eq, dy_eq]
    have hupper := h.upper
    omega

theorem step_pointAt {p q : ℕ × ℕ} (h : King p q) : l.Step (l.pointAt p) (l.pointAt q) := by
  have hx : l.xAddway ≠ 0 := by
    rcases l.xAt_cases with ⟨hway, -⟩ | ⟨hway, -⟩ <;> rw [hway] <;> decide
  have hy : l.yAddway ≠ 0 := by
    rcases l.yAt_cases with ⟨hway, -⟩ | ⟨hway, -⟩ <;> rw [hway] <;> decide
  obtain ⟨hacross, hup, hmoved⟩ := h
  unfold pointAt
  refine ⟨hacross.imp (congrArg l.xAt) fun hq => ?_, hup.imp (congrArg l.yAt) fun hq => ?_,
    fun heq => ?_⟩
  · dsimp only
    rw [hq, xAt_succ]
  · dsimp only
    rw [hq, yAt_succ]
  · obtain ⟨hxeq, hyeq⟩ := Prod.mk.inj heq
    rcases hacross with hq | hq
    · rcases hup with hq' | hq'
      · omega
      · rw [hq', yAt_succ] at hyeq
        omega
    · rw [hq, xAt_succ] at hxeq
      omega

theorem pointAt_last :
    l.pointAt (if l.rows < l.columns ∧ l.columns ≤ 2 * l.rows then l.columns - 1 else l.columns,
      l.rows) = l.lastPoint := by
  have hslope : -l.dy < l.dx ∧ l.dx ≤ -2 * l.dy ↔
      l.rows < l.columns ∧ l.columns ≤ 2 * l.rows := by
    rw [dx_eq, dy_eq]
    omega
  have hend : l.xAt l.columns = l.Xend.toNat := xAt_eq_end_iff.mpr rfl
  have hrow : l.yAt l.rows = l.Yend.toNat := yAt_eq_end_iff.mpr rfl
  rw [pointAt, lastPoint, hrow]
  by_cases hshort : l.rows < l.columns ∧ l.columns ≤ 2 * l.rows
  · obtain ⟨n, hn⟩ := Nat.exists_eq_succ_of_ne_zero (Nat.ne_zero_of_lt hshort.1)
    rw [if_pos hshort, if_pos (hslope.mpr hshort), ← hend, hn, xAt_succ, Nat.succ_sub_one]
    exact Prod.ext (by dsimp only; omega) rfl
  · rw [if_neg hshort, if_neg (mt hslope.mp hshort), hend]

/-- The path of a line, as a list of its points. -/
structure IsPath (l : Line) (points : List (ℤ × ℤ)) : Prop where
  head : points.head? = some l.start.point
  last : points.getLast? = some l.lastPoint
  chain : List.IsChain l.Step points
  beside : ∀ P ∈ points, l.Beside P

theorem isPath_turns {Line_Style : LineStyle} {ss : List LineState}
    (h : l.turns Line_Style l.fuel l.start = some ss) : l.IsPath (ss.map LineState.point) := by
  obtain ⟨ps, ss', hps, hss, hpoints⟩ := l.exists_turns Line_Style
  cases h.symm.trans hss
  obtain ⟨hall, hhead, hchain, -⟩ := walk_rule (I := Near l.columns l.rows)
    (fun p q hp hpq => (near_of_advance hp hpq).1) near_start hps
  rw [hpoints]
  refine ⟨?_, ?_, ?_, fun P hP => ?_⟩
  · rw [List.head?_map, hhead]
    exact congrArg some (Prod.ext l.at_start.x l.at_start.y).symm
  · obtain ⟨q, hq⟩ : ∃ q, ps.getLast? = some q := by
      cases ps with
      | nil => cases hhead
      | cons p ps => exact ⟨_, List.getLast?_cons⟩
    rw [List.getLast?_map, hq, last_of_walk hps hq, Option.map_some, pointAt_last]
  · rw [List.isChain_map]
    exact hchain.imp fun p q hpq => step_pointAt (near_of_advance hpq.1 hpq.2).2
  · obtain ⟨p, hp, rfl⟩ := List.mem_map.mp hP
    exact beside_pointAt (hall p hp)

theorem paintDrawLine_eq {Line_Style : LineStyle} {ss : List LineState}
    (h : l.turns Line_Style l.fuel l.start = some ss) (Color : UInt16) (Line_width : DotPixel) :
    paintDrawLine l.Xstart l.Ystart l.Xend l.Yend Color Line_width Line_Style =
      if l.OffPanel then [] else ss.flatMap (dot Color Line_width Line_Style) := by
  change (if l.OffPanel then [] else
    ((l.turns Line_Style l.fuel l.start).getD []).flatMap (dot Color Line_width Line_Style)) = _
  rw [h, Option.getD_some]

/-- The loop of `Paint_DrawLine` ends for all end points, and draws a path from the start, a pixel
at a time and beside the line, to where it breaks. -/
theorem paintDrawLine_path (l : Line) (Color : UInt16) (Line_width : DotPixel)
    (Line_Style : LineStyle) :
    ∃ ss, (∀ n, l.turns Line_Style (l.fuel + n) l.start = some ss) ∧
      l.IsPath (ss.map LineState.point) ∧
      paintDrawLine l.Xstart l.Ystart l.Xend l.Yend Color Line_width Line_Style =
        if l.OffPanel then [] else ss.flatMap (dot Color Line_width Line_Style) := by
  obtain ⟨-, ss, -, hss, -⟩ := l.exists_turns Line_Style
  exact ⟨ss, turns_add hss, isPath_turns hss, paintDrawLine_eq hss Color Line_width⟩

end Line

end JeogiAt.Paint
