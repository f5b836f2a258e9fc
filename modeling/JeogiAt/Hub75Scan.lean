import JeogiAt.Library.Machine
import JeogiAt.Library.Stores

/-!
# The scan of the panel

`HUB75_RefreshStep_ISR` sends one row of each half of `LED_Buffer` to the panel at every interrupt
of a timer. What it does to the pins is a list of stores, and `Hub75` is a panel that takes them:
each rising edge of the clock shifts the six colour lines in, the latch takes over what was shifted,
and the rows of the address are lit while the output is enabled.

`scan_lit`: at every instant the panel is dark or shows the whole row of one call, and the call
after it shows the next row.
-/

namespace JeogiAt.Paint

open Stores

inductive Pin
  | r1 | g1 | b1 | r2 | g2 | b2 | a | b | c | d | clk | lat | oe
  deriving DecidableEq

def shiftOut (LED_Buffer : ℤ → UInt8) (row : UInt8) (x : ℕ) : List (Pin × Bool) :=
  let top := LED_Buffer (row.toNat * 128 + x)
  let bot := LED_Buffer ((row.toNat + 16) * 128 + x)
  [(.r1, top &&& 0x01 != 0), (.g1, top &&& 0x02 != 0), (.b1, top &&& 0x04 != 0),
    (.r2, bot &&& 0x01 != 0), (.g2, bot &&& 0x02 != 0), (.b2, bot &&& 0x04 != 0),
    (.clk, false), (.clk, true)]

def rowAddress (row : UInt8) : List (Pin × Bool) :=
  [(.a, row &&& 0x01 != 0), (.b, row &&& 0x02 != 0), (.c, row &&& 0x04 != 0),
    (.d, row &&& 0x08 != 0)]

/-- `HUB75_RefreshStep_ISR`, with its `row` before and after. -/
def refreshStepISR (row : UInt8) (LED_Buffer : ℤ → UInt8) : UInt8 × List (Pin × Bool) :=
  let events := [(Pin.oe, true)] ++ (List.range 128).flatMap (shiftOut LED_Buffer row) ++
    rowAddress row ++ [(Pin.lat, true), (Pin.lat, false)] ++ [(Pin.oe, false)]
  let row := row + 1
  (if 16 ≤ row then 0 else row, events)

/-- The calls of the interrupt, each with the buffer that it finds. -/
def scan : Machine UInt8 (ℤ → UInt8) (List (Pin × Bool)) := ⟨refreshStepISR⟩

/-- Red, green and blue. -/
abbrev Colour := Bool × Bool × Bool

/-- A panel with the lines of its upper and of its lower half. -/
structure Hub75 where
  pins : Pin → Bool
  shift : List (Colour × Colour)
  latch : List (Colour × Colour)

namespace Hub75

def lines (p : Hub75) : Colour × Colour :=
  ((p.pins .r1, p.pins .g1, p.pins .b1), (p.pins .r2, p.pins .g2, p.pins .b2))

def step (p : Hub75) (e : Pin × Bool) : Hub75 where
  pins := Function.update p.pins e.1 e.2
  shift := if e = (.clk, true) ∧ p.pins .clk = false then (p.shift ++ [p.lines]).tail else p.shift
  latch := if e = (.lat, true) ∧ p.pins .lat = false then p.shift else p.latch

def run (p : Hub75) (events : List (Pin × Bool)) : Hub75 := events.foldl step p

/-- The address, and the colours of the two rows that it lights. -/
def lit (p : Hub75) : Option (ℕ × List (Colour × Colour)) :=
  if p.pins .oe = true then none
  else
    some ((p.pins .a).toNat + 2 * (p.pins .b).toNat + 4 * (p.pins .c).toNat +
      8 * (p.pins .d).toNat, p.latch)

/-- A chain of 128 columns between two calls, and after `HUB75_Init`. -/
structure Ready (p : Hub75) : Prop where
  shift : p.shift.length = 128
  lat : p.pins .lat = false

end Hub75

def colour (value : UInt8) : Colour :=
  (value &&& 0x01 != 0, value &&& 0x02 != 0, value &&& 0x04 != 0)

def bufferRow (LED_Buffer : ℤ → UInt8) (row : ℕ) : List (Colour × Colour) :=
  (List.range 128).map fun (x : ℕ) =>
    (colour (LED_Buffer (row * 128 + x)), colour (LED_Buffer ((row + 16) * 128 + x)))

theorem length_bufferRow (LED_Buffer : ℤ → UInt8) (row : ℕ) :
    (bufferRow LED_Buffer row).length = 128 := by
  rw [bufferRow, List.length_map, List.length_range]

namespace Hub75

variable {p : Hub75}

theorem run_append (p : Hub75) (l l' : List (Pin × Bool)) : p.run (l ++ l') = (p.run l).run l' :=
  List.foldl_append

theorem pins_run (p : Hub75) (l : List (Pin × Bool)) : (p.run l).pins = write p.pins l := by
  induction l generalizing p with
  | nil => rfl
  | cons e l ih => exact ih (p.step e)

theorem shift_run {l : List (Pin × Bool)} (h : Pin.clk ∉ cells l) (p : Hub75) :
    (p.run l).shift = p.shift := by
  induction l generalizing p with
  | nil => rfl
  | cons e l ih =>
    rw [cells, List.map_cons, List.mem_cons, not_or] at h
    refine (ih h.2 (p.step e)).trans (if_neg fun hedge => h.1 ?_)
    rw [hedge.1]

theorem shift_shiftOut (p : Hub75) (LED_Buffer : ℤ → UInt8) (row : UInt8) (x : ℕ) :
    (p.run (shiftOut LED_Buffer row x)).shift =
      (p.shift ++ [(colour (LED_Buffer (row.toNat * 128 + x)),
        colour (LED_Buffer ((row.toNat + 16) * 128 + x)))]).tail := by
  rfl

theorem cells_shiftOut {q : Pin} (h : q ∈ [Pin.a, .b, .c, .d, .lat, .oe]) (LED_Buffer : ℤ → UInt8)
    (row : UInt8) (x : ℕ) : q ∉ cells (shiftOut LED_Buffer row x) := by
  simp only [shiftOut, cells, List.map_cons, List.map_nil]
  revert q
  decide

theorem shift_row (p : Hub75) (LED_Buffer : ℤ → UInt8) (row : UInt8) (n : ℕ) (hn : n ≤ 128)
    (hp : p.shift.length = 128) :
    (p.run ((List.range n).flatMap (shiftOut LED_Buffer row))).shift =
      p.shift.drop n ++ (bufferRow LED_Buffer row.toNat).take n := by
  induction n with
  | zero => simp [run]
  | succ n ih =>
    have hnext : (bufferRow LED_Buffer row.toNat)[n]? =
        some (colour (LED_Buffer (row.toNat * 128 + n)),
          colour (LED_Buffer ((row.toNat + 16) * 128 + n))) := by
      rw [bufferRow, List.getElem?_map, List.getElem?_range (by omega)]
      rfl
    rw [List.range_succ, List.flatMap_append, List.flatMap_singleton, run_append, shift_shiftOut,
      ih (by omega), List.take_add_one, hnext, Option.toList_some, ← List.append_assoc]
    have hne : p.shift.drop n ≠ [] := by
      rw [ne_eq, List.drop_eq_nil_iff]
      omega
    rw [List.append_assoc, List.tail_append_of_ne_nil hne, List.tail_drop, List.append_assoc]

theorem shift_bufferRow {p : Hub75} (hp : p.shift.length = 128) (LED_Buffer : ℤ → UInt8)
    (row : UInt8) :
    (p.run ((List.range 128).flatMap (shiftOut LED_Buffer row))).shift =
      bufferRow LED_Buffer row.toNat := by
  have hlength := length_bufferRow LED_Buffer row.toNat
  rw [shift_row p LED_Buffer row 128 le_rfl hp, List.drop_of_length_le hp.le,
    List.take_of_length_le hlength.le, List.nil_append]

theorem toNat_rowAddress {row : UInt8} (h : row < 16) :
    (row &&& 0x01 != 0).toNat + 2 * (row &&& 0x02 != 0).toNat + 4 * (row &&& 0x04 != 0).toNat +
      8 * (row &&& 0x08 != 0).toNat = row.toNat := by
  have hrows : ∀ k : Fin 16, (UInt8.ofNat k &&& 0x01 != 0).toNat +
      2 * (UInt8.ofNat k &&& 0x02 != 0).toNat + 4 * (UInt8.ofNat k &&& 0x04 != 0).toNat +
        8 * (UInt8.ofNat k &&& 0x08 != 0).toNat = k := by
    decide
  have hrow := hrows ⟨row.toNat, UInt8.lt_iff_toNat_lt.mp h⟩
  rwa [UInt8.ofNat_toNat] at hrow

/-- After the row is shifted it is latched and lit under its address. -/
theorem lit_latched (p : Hub75) (hlat : p.pins .lat = false) {row : UInt8} (h : row < 16) :
    (p.run (rowAddress row ++ [(Pin.lat, true), (Pin.lat, false)] ++ [(Pin.oe, false)])).lit =
      some (row.toNat, p.shift) := by
  have hlatch : (p.run (rowAddress row ++ [(Pin.lat, true), (Pin.lat, false)] ++
      [(Pin.oe, false)])).latch = p.shift := if_pos ⟨rfl, hlat⟩
  rw [lit, hlatch, ← toNat_rowAddress h]
  rfl

theorem oe_notMem (LED_Buffer : ℤ → UInt8) (row : UInt8) :
    Pin.oe ∉ cells ((List.range 128).flatMap (shiftOut LED_Buffer row) ++ rowAddress row ++
      [(Pin.lat, true), (Pin.lat, false)]) := by
  rw [cells_append, cells_append, List.mem_append, List.mem_append, cells_flatMap,
    List.mem_flatMap]
  rintro ((⟨x, -, hx⟩ | haddress) | hlatch)
  · exact cells_shiftOut (by decide) LED_Buffer row x hx
  · revert haddress
    simp [rowAddress, cells]
  · revert hlatch
    decide

theorem lat_notMem (LED_Buffer : ℤ → UInt8) (row : UInt8) :
    Pin.lat ∉ cells ([(Pin.oe, true)] ++ (List.range 128).flatMap (shiftOut LED_Buffer row)) := by
  rw [cells_append, List.mem_append, cells_flatMap, List.mem_flatMap]
  rintro (hoe | ⟨x, -, hx⟩)
  · revert hoe
    decide
  · exact cells_shiftOut (by decide) LED_Buffer row x hx

theorem dark_during (p : Hub75) (LED_Buffer : ℤ → UInt8) (row : UInt8)
    {l : List (Pin × Bool)} (h : l <+: (refreshStepISR row LED_Buffer).2) (hnil : l ≠ [])
    (hne : l ≠ (refreshStepISR row LED_Buffer).2) : (p.run l).lit = none := by
  obtain ⟨e, l, rfl⟩ := List.exists_cons_of_ne_nil hnil
  have hsplit : (refreshStepISR row LED_Buffer).2 = (Pin.oe, true) ::
      (((List.range 128).flatMap (shiftOut LED_Buffer row) ++ rowAddress row ++
        [(Pin.lat, true), (Pin.lat, false)]) ++ [(Pin.oe, false)]) := rfl
  rw [hsplit, List.cons_prefix_cons] at h
  obtain ⟨rfl, hprefix⟩ := h
  have hmiddle := (List.prefix_concat_iff.mp hprefix).resolve_left fun heq =>
    hne (by rw [hsplit, heq])
  have hoe : ((p.step (.oe, true)).run l).pins .oe = true := by
    rw [pins_run]
    refine (write_of_notMem fun hmem => oe_notMem LED_Buffer row ?_).trans rfl
    obtain ⟨e, he, heq⟩ := List.mem_map.mp hmem
    exact List.mem_map.mpr ⟨e, hmiddle.subset he, heq⟩
  exact if_pos hoe

theorem lit_call {p : Hub75} (hp : p.Ready) (LED_Buffer : ℤ → UInt8) {row : UInt8} (h : row < 16) :
    (p.run (refreshStepISR row LED_Buffer).2).lit =
        some (row.toNat, bufferRow LED_Buffer row.toNat) ∧
      (p.run (refreshStepISR row LED_Buffer).2).Ready := by
  have hsplit : (refreshStepISR row LED_Buffer).2 =
      ([(Pin.oe, true)] ++ (List.range 128).flatMap (shiftOut LED_Buffer row)) ++
        (rowAddress row ++ [(Pin.lat, true), (Pin.lat, false)] ++ [(Pin.oe, false)]) := by
    simp only [refreshStepISR, List.append_assoc]
  have hshift : (p.run ([(Pin.oe, true)] ++
      (List.range 128).flatMap (shiftOut LED_Buffer row))).shift =
        bufferRow LED_Buffer row.toNat := by
    rw [run_append]
    exact shift_bufferRow (p := p.run [(Pin.oe, true)]) hp.shift LED_Buffer row
  have hlat : (p.run ([(Pin.oe, true)] ++
      (List.range 128).flatMap (shiftOut LED_Buffer row))).pins .lat = false := by
    rw [pins_run, write_of_notMem (lat_notMem LED_Buffer row), hp.lat]
  rw [hsplit, run_append]
  refine ⟨?_, ?_, rfl⟩
  · rw [lit_latched _ hlat h, hshift]
  · have hclk : Pin.clk ∉ cells (rowAddress row ++ [(Pin.lat, true), (Pin.lat, false)] ++
        [(Pin.oe, false)]) := by
      simp [rowAddress, cells]
    rw [shift_run hclk, hshift, length_bufferRow]

theorem next_scan {n : ℕ} (LED_Buffer : ℤ → UInt8) :
    scan.next (UInt8.ofNat (n % 16)) LED_Buffer = UInt8.ofNat ((n + 1) % 16) := by
  have hrows : ∀ k : Fin 16, (if 16 ≤ UInt8.ofNat k + 1 then 0 else UInt8.ofNat k + 1) =
      UInt8.ofNat ((k + 1) % 16) := by
    decide
  have hrow := hrows ⟨n % 16, Nat.mod_lt n (by omega)⟩
  rw [Nat.mod_add_mod] at hrow
  exact hrow

theorem run_scan (bufs : List (ℤ → UInt8)) :
    scan.run 0 bufs = UInt8.ofNat (bufs.length % 16) := by
  induction bufs using List.reverseRecOn with
  | nil => rfl
  | append_singleton bufs buf ih => rw [Machine.run_concat, ih, next_scan, List.length_append]; rfl

def scanned (bufs : List (ℤ → UInt8)) : List (Pin × Bool) := (scan.trace 0 bufs).flatten

theorem scanned_concat (bufs : List (ℤ → UInt8)) (buf : ℤ → UInt8) :
    scanned (bufs ++ [buf]) =
      scanned bufs ++ (refreshStepISR (UInt8.ofNat (bufs.length % 16)) buf).2 := by
  rw [scanned, Machine.trace_concat, List.flatten_append, run_scan]
  exact congrArg (scanned bufs ++ ·) (List.flatten_singleton ..)

theorem toNat_row (n : ℕ) :
    UInt8.ofNat (n % 16) < 16 ∧ (UInt8.ofNat (n % 16)).toNat = n % 16 := by
  have hlt := Nat.mod_lt n (show 0 < 16 by omega)
  have hvalue : (UInt8.ofNat (n % 16)).toNat = n % 16 := by
    rw [UInt8.toNat_ofNat']
    omega
  refine ⟨UInt8.lt_iff_toNat_lt.mpr ?_, hvalue⟩
  rw [hvalue]
  exact hlt

theorem Ready.scanned {p : Hub75} (hp : p.Ready) (bufs : List (ℤ → UInt8)) :
    (p.run (scanned bufs)).Ready := by
  induction bufs using List.reverseRecOn with
  | nil => exact hp
  | append_singleton bufs buf ih =>
    rw [scanned_concat, run_append]
    exact (lit_call ih buf (toNat_row bufs.length).1).2

/-- After each call the next row is lit as the call found it. -/
theorem lit_scanned {p : Hub75} (hp : p.Ready) (bufs : List (ℤ → UInt8)) (buf : ℤ → UInt8) :
    (p.run (Hub75.scanned (bufs ++ [buf]))).lit =
      some (bufs.length % 16, bufferRow buf (bufs.length % 16)) := by
  have hrow := toNat_row bufs.length
  rw [scanned_concat, run_append, (lit_call (hp.scanned bufs) buf hrow.1).1, hrow.2]

theorem lit_frame {p : Hub75} (hp : p.Ready) (bufs : List (ℤ → UInt8)) (buf : ℤ → UInt8) {row : ℕ}
    (hrow : row < 16) : ∃ k < 16, (p.run (Hub75.scanned (bufs ++ List.replicate (k + 1) buf))).lit =
      some (row, bufferRow buf row) := by
  refine ⟨(row + 16 - bufs.length % 16) % 16, Nat.mod_lt _ (by omega), ?_⟩
  have hlit := lit_scanned hp
    (bufs ++ List.replicate ((row + 16 - bufs.length % 16) % 16) buf) buf
  rw [List.append_assoc, ← List.replicate_succ', List.length_append, List.length_replicate] at hlit
  have hturn : (bufs.length + (row + 16 - bufs.length % 16) % 16) % 16 = row := by omega
  rw [hlit, hturn]

/-- During a run of the interrupt the panel is dark, or a call has just ended. -/
theorem dark_or_called {p : Hub75} (hdark : p.pins .oe = true) (bufs : List (ℤ → UInt8))
    {l : List (Pin × Bool)} (hl : l <+: Hub75.scanned bufs) : (p.run l).lit = none ∨
      ∃ done buf, done ++ [buf] <+: bufs ∧ l = Hub75.scanned (done ++ [buf]) := by
  induction bufs using List.reverseRecOn with
  | nil =>
    rw [List.prefix_nil.mp hl]
    exact .inl (if_pos hdark)
  | append_singleton bufs buf ih =>
    have hbefore (h : l <+: Hub75.scanned bufs) : (p.run l).lit = none ∨
        ∃ done buf', done ++ [buf'] <+: bufs ++ [buf] ∧ l = Hub75.scanned (done ++ [buf']) :=
      (ih h).imp_right fun ⟨done, buf', hdone, heq⟩ =>
        ⟨done, buf', hdone.trans (List.prefix_append bufs [buf]), heq⟩
    have hsplit := scanned_concat bufs buf
    rw [hsplit] at hl
    rcases List.prefix_or_prefix_of_prefix hl (List.prefix_append _ _) with hin | ⟨q, rfl⟩
    · exact hbefore hin
    · rw [List.prefix_append_right_inj] at hl
      by_cases hnil : q = []
      · rw [hnil, List.append_nil] at hbefore ⊢
        exact hbefore List.prefix_rfl
      · by_cases hwhole : q = (refreshStepISR (UInt8.ofNat (bufs.length % 16)) buf).2
        · exact .inr ⟨bufs, buf, List.prefix_rfl, by rw [hsplit, hwhole]⟩
        · rw [run_append]
          exact .inl (dark_during _ buf _ hl hnil hwhole)

/-- At every instant of a run of the interrupt, whatever is drawn between its calls, the panel is
dark or shows the row of the call that has just ended, as this call found it. The rows take their
turns, and sixteen calls that find the same buffer light all of it. -/
theorem scan_lit {p : Hub75} (hp : p.Ready) (hdark : p.pins .oe = true)
    (bufs : List (ℤ → UInt8)) :
    (∀ l, l <+: Hub75.scanned bufs → (p.run l).lit = none ∨
      ∃ done buf, done ++ [buf] <+: bufs ∧ l = Hub75.scanned (done ++ [buf]) ∧
        (p.run l).lit = some (done.length % 16, bufferRow buf (done.length % 16))) ∧
    ∀ done buf, done ++ List.replicate 16 buf <+: bufs → ∀ row < 16, ∃ k < 16,
      (p.run (Hub75.scanned (done ++ List.replicate (k + 1) buf))).lit =
        some (row, bufferRow buf row) := by
  refine ⟨fun l hl => ?_, fun done buf _ row hrow => lit_frame hp done buf hrow⟩
  refine (dark_or_called hdark bufs hl).imp_right ?_
  rintro ⟨done, buf, hdone, rfl⟩
  exact ⟨done, buf, hdone, rfl, lit_scanned hp done buf⟩

/-- After `HUB75_Init` one call finds a blank buffer, and sixteen more find every pixel white. -/
theorem scan_lit_init :
    let p : Hub75 := ⟨fun q => decide (q = .oe), List.replicate 128 default, []⟩
    ∀ row < 16, ∃ k < 16,
      (p.run (Hub75.scanned ([fun _ => 0] ++ List.replicate (k + 1) fun _ => 0x07))).lit =
        some (row, List.replicate 128 ((true, true, true), (true, true, true))) := by
  intro p row hrow
  obtain ⟨k, hk, hlit⟩ := (@scan_lit p ⟨List.length_replicate, rfl⟩ rfl
    ([fun _ => 0] ++ List.replicate 16 fun _ => 0x07)).2 [fun _ => 0] (fun _ => 0x07)
      List.prefix_rfl row hrow
  refine ⟨k, hk, hlit.trans ?_⟩
  rw [bufferRow, List.map_const', List.length_range]
  rfl

end Hub75

end JeogiAt.Paint
