import JeogiAt.UartHandler

/-!
# Leaving the train screen

The main loop handles a packet and calls `MatrixRun_Run` in each turn. The cycle is on from
`MatrixRun_Init` on. So the display is in a dead end after a `MatrixRun_Run` exactly when a command
has put it into one: by selecting the train screen when there is no train event, or by ending the
train event on the train screen.
-/

namespace JeogiAt.Uart

open Audio Decimal Display

/-- A packet handled, the gas readings updated, or a call of `MatrixRun_Run`, with what it finds of
the clock. -/
inductive PanelStep
  | packet (w : Surroundings) (pkt : Packet)
  | sensors (co co2 : ℚ)
  | run (now : UInt32)

namespace Board

variable {W : Type*}

def matrixRun (E : Env W) (b : Board W) (now : UInt32) : Board W :=
  let (display, guide) := b.display.matrixRun now b.g_db_data
  let audio :=
    match guide with
    | some congestion_status => b.audio.guide E congestion_status.get
    | none => b.audio
  { b with display, audio }

def matrixRunInit (b : Board W) (tick tick' tick'' : UInt32) : Board W :=
  { b with display := MatrixRun.boot.matrixRunInit tick tick' tick'' }

end Board

def panel {W : Type*} (E : Env W) : Machine (Board W) PanelStep Unit where
  step b
    | .packet w pkt => ((process E w b pkt).1, ())
    | .sensors co co2 => ({ b with g_db_data := b.g_db_data.setSensorValues co co2 }, ())
    | .run now => (b.matrixRun E now, ())

variable {W : Type*} (E : Env W)

theorem auto_process {b : Board W} (h : b.display.auto_cycle_enabled = true) (w : Surroundings)
    (pkt : Packet) : (process E w b pkt).1.display.auto_cycle_enabled = true := by
  by_cases hctrl : pkt.cmd = cmdDisplayCtrl
  · rw [process_displayCtrl E w b hctrl, processDisplayCtrl_display]
    split_ifs
    · rfl
    · exact (MatrixRun.auto_setScreen _ _ _).trans h
    · exact h
  · by_cases hdest : pkt.cmd = cmdTrainDest
    · rw [process_trainDest E w b hdest, processTrainDest]
      split_ifs
      · exact h
      · exact (MatrixRun.auto_of_cycle (MatrixRun.cycle_setTrainDest _ _ _)).trans h
    · by_cases hled : pkt.cmd = cmdSetLed
      · rw [process_setLed E w b hled, processSetLed]
        split_ifs
        · exact h
        · exact h
        · exact (MatrixRun.auto_of_cycle (MatrixRun.cycle_setCongestionBulk _ _)).trans h
      · rw [process_display E w b hled hdest hctrl]
        exact h

theorem auto_next {b : Board W} (h : b.display.auto_cycle_enabled = true) (x : PanelStep) :
    ((panel E).next b x).display.auto_cycle_enabled = true := by
  cases x with
  | packet w pkt => exact auto_process E h w pkt
  | sensors co co2 => exact h
  | run now => exact (MatrixRun.auto_matrixRun _ now b.g_db_data).trans h

def SelectsTrain (b : Board W) (pkt : Packet) : Prop :=
  pkt.cmd = cmdDisplayCtrl ∧ atoi pkt.text = 4 ∧ b.display.train_event_active = false

def EndsTrain (b : Board W) (pkt : Packet) : Prop :=
  pkt.cmd = cmdTrainDest ∧ pkt.len = 1 ∧ (pkt.destCode = 0 ∨ 2 < pkt.destCode) ∧
    b.display.current_screen = screenTrain

def Safe (b : Board W) : PanelStep → Prop
  | .packet _ pkt => ¬ SelectsTrain b pkt ∧ ¬ EndsTrain b pkt
  | _ => True

variable {b : Board W} (hauto : b.display.auto_cycle_enabled = true)
  (hfree : ¬ b.display.DeadEnd) (w : Surroundings) {pkt : Packet}

include hauto hfree

theorem deadEnd_displayCtrl (hcmd : pkt.cmd = cmdDisplayCtrl) :
    (process E w b pkt).1.display.DeadEnd ↔ SelectsTrain b pkt := by
  rw [process_displayCtrl E w b hcmd, processDisplayCtrl_display, SelectsTrain, hcmd,
    eq_self_iff_true, true_and]
  have htrain : screenTrain.toNat = 3 := rfl
  split_ifs with haction hrange
  · have hzero : atoi [digit 0] = 0 := rfl
    rw [haction, hzero]
    exact iff_of_false (MatrixRun.not_deadEnd_setAutoCycle _ _ _) fun h => absurd h.1 (by omega)
  · have hk := @toNat_screen (atoi pkt.text - 1) (by omega)
    have hle : ¬ screenTrain < UInt8.ofNat (atoi pkt.text - 1).toNat := by
      rw [UInt8.lt_iff_toNat_lt, hk, htrain]
      omega
    have hfour : (atoi pkt.text - 1).toNat = 3 ↔ atoi pkt.text = 4 := by omega
    rw [MatrixRun.deadEnd_setScreen _ hle, hauto, eq_self_iff_true, true_and, ← UInt8.toNat_inj,
      hk, htrain, hfour]
  · exact iff_of_false hfree fun h => hrange (by omega)

theorem deadEnd_trainDest (hcmd : pkt.cmd = cmdTrainDest) :
    (process E w b pkt).1.display.DeadEnd ↔ EndsTrain b pkt := by
  rw [process_trainDest E w b hcmd, EndsTrain, hcmd, eq_self_iff_true, true_and, processTrainDest]
  split_ifs with hlen
  · exact iff_of_false hfree fun h => hlen h.1
  · rw [MatrixRun.deadEnd_setTrainDest, hauto, eq_self_iff_true, true_and, not_not.mp hlen,
      eq_self_iff_true, true_and, and_comm]

/-- With the cycle on, only the two commands lead into a dead end. -/
theorem deadEnd_process_iff (pkt : Packet) :
    (process E w b pkt).1.display.DeadEnd ↔ SelectsTrain b pkt ∨ EndsTrain b pkt := by
  by_cases hctrl : pkt.cmd = cmdDisplayCtrl
  · have hother : ¬ EndsTrain b pkt := fun h => absurd (hctrl.symm.trans h.1) (by decide)
    rw [deadEnd_displayCtrl E hauto hfree w hctrl, or_iff_left hother]
  · by_cases hdest : pkt.cmd = cmdTrainDest
    · have hother : ¬ SelectsTrain b pkt := fun h => hctrl h.1
      rw [deadEnd_trainDest E hauto hfree w hdest, or_iff_right hother]
    · refine iff_of_false ?_ fun h => h.elim (fun h => hctrl h.1) fun h => hdest h.1
      by_cases hled : pkt.cmd = cmdSetLed
      · rw [process_setLed E w b hled, processSetLed]
        split_ifs
        · exact hfree
        · exact hfree
        · rwa [MatrixRun.deadEnd_of_modes (b.display.modes_setCongestionBulk pkt.levels)]
      · rwa [process_display E w b hled hdest hctrl]

theorem deadEnd_next_iff (x : PanelStep) :
    ¬ ((panel E).next b x).display.DeadEnd ↔ Safe b x := by
  cases x with
  | packet w pkt => exact (not_congr (deadEnd_process_iff E hauto hfree w pkt)).trans not_or
  | sensors co co2 => exact iff_of_true hfree trivial
  | run now =>
    exact iff_of_true (mt (MatrixRun.deadEnd_matrixRun _ now b.g_db_data).mp hfree) trivial

omit hauto hfree

theorem deadEnd_run_concat (b : Board W) (ys : List PanelStep) (now : UInt32) :
    ((panel E).run b (ys ++ [.run now])).display.DeadEnd ↔
      ((panel E).run b ys).display.DeadEnd := by
  rw [Machine.run_concat]
  exact MatrixRun.deadEnd_matrixRun _ now _

/-- From `MatrixRun_Init` on, no call of `MatrixRun_Run` at any point of a run leaves the display on
the train screen with the cycle on and without an event, exactly when no command of the run selects
the train screen without an event or ends the event on the train screen. -/
theorem no_dead_end_iff (b : Board W) (tick tick' tick'' : UInt32) (steps : List PanelStep) :
    (∀ ys, ys <+: steps → ∀ now,
        ¬ ((panel E).run (b.matrixRunInit tick tick' tick'') (ys ++ [.run now])).display.DeadEnd) ↔
      (panel E).Along Safe (b.matrixRunInit tick tick' tick'') steps := by
  generalize hstart : b.matrixRunInit tick tick' tick'' = start
  have hauto : start.display.auto_cycle_enabled = true := by rw [← hstart]; rfl
  have hfree : ¬ start.display.DeadEnd := by
    rw [← hstart]
    exact fun hdead => MatrixRun.dashboard_ne_train hdead.2.1
  simp only [deadEnd_run_concat, forall_const]
  refine Machine.prefixes_iff_along hfree (fun ys x _ hfree => ?_) steps
  have hauto' := Machine.invariant_run (fun b x h => auto_next E (b := b) h x) hauto ys
  rw [Machine.run_concat]
  exact deadEnd_next_iff E hauto' hfree x

/-- The train screen is reached, and the event then ended by a destination of 0. -/
theorem train_ended_dead_end :
    ¬ ∀ (E : Env Unit) (b : Board Unit) (tick tick' tick'' : UInt32) (steps : List PanelStep)
        (now : UInt32),
      ¬ ((panel E).run (b.matrixRunInit tick tick' tick'')
        (steps ++ [.run now])).display.DeadEnd := by
  intro hall
  let dest (code : UInt8) : Packet := ⟨cmdTrainDest, 1, Vector.replicate _ code, 0x5D ^^^ code⟩
  have hcode (code : UInt8) : (dest code).destCode = code := Vector.getElem_replicate ..
  have hdest (b : Board Unit) (code : UInt8) : (process noCard .bare b (dest code)).1 =
      { b with display := b.display.setTrainDest code 0 } := by
    have hswitch : process noCard .bare b (dest code) = processTrainDest .bare b (dest code) :=
      process_trainDest noCard .bare b rfl
    have hlen : ¬ (dest code).len ≠ 1 := not_not.mpr rfl
    rw [hswitch, processTrainDest, if_neg hlen, hcode]
    rfl
  refine hall noCard (Device.start ()).board 0 0 0
    [.packet .bare (dest 1), .run 0, .packet .bare (dest 0)] 0 ?_
  rw [deadEnd_run_concat]
  simp only [Machine.run_cons, Machine.run_nil, Machine.next, panel, hdest]
  rw [MatrixRun.deadEnd_setTrainDest]
  exact ⟨rfl, rfl, .inl rfl⟩

end JeogiAt.Uart
