import JeogiAt.AudioStreamRx
import Mathlib.Algebra.Group.Nat.Defs
import Mathlib.Data.List.Range
import Mathlib.Order.Basic

/-!
# The order and the number of the audio blocks

The main loop takes a ready buffer and then pushes its block; an SPI interrupt may come before,
between or after the two. `AudioStreamRx_TakeReadyBlock` looks at buffer 0 first, whichever buffer
is older, and a block that completes in a buffer not yet taken replaces the one in it without
being counted.

What the main loop would move without further interrupts is `moved` followed by `waiting`.
-/

open scoped List

namespace JeogiAt.Audio

/-- The receiver, the buffer that the main loop has taken and not pushed yet, and the history:
blocks received, moved to the ring, and replaced before they were taken. -/
structure Pipeline where
  rx : AudioStreamRx
  hand : Option (Fin 2)
  received : List Block
  moved : List Block
  refilled : List Block
  pushedBytes : ℕ
  droppedBytes : ℕ

inductive PipelineStep
  | rxCplt (bytes : Vector UInt8 streamRxBlockSize)
  | main
  | read (len : ℕ)

namespace Pipeline

def init : Pipeline := ⟨.init, none, [], [], [], 0, 0⟩

/-- `main` is the next step of `AudioStreamRx_Process`: it takes a ready buffer, or pushes the block
of the one that it has taken. A read waits until both are done. -/
def step (s : Pipeline) : PipelineStep → Pipeline
  | .rxCplt bytes =>
      let block := ⟨bytes, s.received.length⟩
      let doneIndex := s.rx.s_dmaBufIndex
      { s with
        rx := s.rx.rxCpltCallback block
        received := s.received ++ [block]
        refilled := if s.rx.s_readyFlags doneIndex then s.refilled ++ [s.rx.s_spiRxBuf doneIndex]
          else s.refilled }
  | .main =>
      match s.hand with
      | none =>
          let r := s.rx.takeReadyBlock
          { s with rx := r.1, hand := r.2 }
      | some bufIndex =>
          let block := s.rx.s_spiRxBuf bufIndex
          let free := streamRingSize - s.rx.ring.count
          { s with
            rx := s.rx.pushBlock block.bytes.toList
            hand := none
            moved := s.moved ++ [block]
            pushedBytes := s.pushedBytes + min streamRxBlockSize free
            droppedBytes := s.droppedBytes + (streamRxBlockSize - free) }
  | .read len =>
      match s.hand with
      | none => { s with rx := (s.rx.read len).1 }
      | some _ => s

end Pipeline

def pipeline : Machine Pipeline PipelineStep Unit := ⟨fun s x => (s.step x, ())⟩

namespace Pipeline

/-- The blocks that the main loop has yet to move, in the order in which it will. -/
def waiting (s : Pipeline) : List Block :=
  s.hand.toList.map s.rx.s_spiRxBuf ++
    ((if s.rx.s_readyFlags 0 then [s.rx.s_spiRxBuf 0] else []) ++
      (if s.rx.s_readyFlags 1 then [s.rx.s_spiRxBuf 1] else []))

/-- No received block is missing unless its buffer was refilled before it was taken. -/
def Accounted (s : Pipeline) : Prop :=
  ∀ b ∈ s.received, b ∈ s.moved ∨ b ∈ s.waiting ∨ b ∈ s.refilled

/-- The blocks moved are received blocks in the order of reception, each at most once. -/
def OrderKept (s : Pipeline) : Prop := s.moved <+ s.received ∧ s.moved.Nodup ∧ s.Accounted

def Numbered (s : Pipeline) : Prop :=
  s.received.map Block.number = List.range s.received.length

/-- The same of the blocks moved and of those still to be moved. -/
def InOrder (s : Pipeline) : Prop := s.moved ++ s.waiting <+ s.received ∧ s.Accounted

/-- No block completes in buffer 0 with a block waiting in buffer 1, nor in the buffer that the
main loop has taken and not pushed yet. -/
def InTurn (s : Pipeline) : PipelineStep → Prop
  | .rxCplt _ => s.hand ≠ some s.rx.s_dmaBufIndex ∧
      ¬ (s.rx.s_dmaBufIndex = 0 ∧ s.rx.s_readyFlags 1 = true)
  | _ => True

theorem numbered_next {s : Pipeline} (h : s.Numbered) (x : PipelineStep) :
    (pipeline.next s x).Numbered := by
  cases x with
  | rxCplt bytes =>
    simp only [Numbered, Machine.next, pipeline, step, List.map_append, List.map_singleton,
      List.length_append, List.length_singleton, List.range_succ]
    rw [h]
  | main =>
    cases hh : s.hand with
    | none =>
      simp only [Numbered, Machine.next, pipeline, step, hh]
      exact h
    | some i =>
      simp only [Numbered, Machine.next, pipeline, step, hh]
      exact h
  | read len =>
    cases hh : s.hand with
    | none =>
      simp only [Numbered, Machine.next, pipeline, step, hh]
      exact h
    | some i =>
      simp only [Numbered, Machine.next, pipeline, step, hh]
      exact h

theorem numbered_run (steps : List PipelineStep) : (pipeline.run init steps).Numbered :=
  Machine.invariant_run (I := Numbered) (s := init) (fun _ x h => numbered_next h x) rfl steps

theorem lt_of_sublist {s : Pipeline} (h : s.Numbered) {b c : Block}
    (hp : [b, c] <+ s.received) : b.number < c.number := by
  have hsub := hp.map Block.number
  rw [h] at hsub
  have hlt := List.pairwise_lt_range.sublist hsub
  exact List.rel_of_pairwise_cons hlt (List.mem_singleton_self _)

theorem number_lt {s : Pipeline} (h : s.Numbered) {b : Block} (hb : b ∈ s.received) :
    b.number < s.received.length := by
  have hmem := List.mem_map_of_mem (f := Block.number) hb
  rw [h] at hmem
  exact List.mem_range.mp hmem

theorem nodup_received {s : Pipeline} (h : s.Numbered) : s.received.Nodup := by
  apply List.Nodup.of_map Block.number
  rw [h]
  exact List.nodup_range

theorem next_main (s : Pipeline) :
    (pipeline.next s .main).moved ++ (pipeline.next s .main).waiting = s.moved ++ s.waiting ∧
      (pipeline.next s .main).received = s.received ∧
      (pipeline.next s .main).refilled = s.refilled := by
  cases hh : s.hand with
  | none =>
    simp only [Machine.next, pipeline, step, hh, waiting, AudioStreamRx.takeReadyBlock]
    cases h0 : s.rx.s_readyFlags 0 with
    | true => simp
    | false =>
      cases h1 : s.rx.s_readyFlags 1 with
      | true => simp [h0]
      | false => simp [h0, h1]
  | some i =>
    simp only [Machine.next, pipeline, step, hh, waiting, AudioStreamRx.pushBlock_readyFlags,
      AudioStreamRx.pushBlock_spiRxBuf]
    simp

theorem next_read (s : Pipeline) (len : ℕ) :
    (pipeline.next s (.read len)).moved = s.moved ∧
      (pipeline.next s (.read len)).waiting = s.waiting ∧
      (pipeline.next s (.read len)).received = s.received ∧
      (pipeline.next s (.read len)).refilled = s.refilled := by
  cases hh : s.hand with
  | none =>
    simp only [Machine.next, pipeline, step, hh]
    exact ⟨trivial, by simp only [waiting, hh]; rfl, trivial, trivial⟩
  | some i =>
    simp only [Machine.next, pipeline, step, hh]
    exact ⟨trivial, trivial, trivial, trivial⟩

theorem length_waiting_push {s : Pipeline} {i : Fin 2} (h : s.hand = some i) :
    (pipeline.next s .main).waiting.length + 1 = s.waiting.length := by
  have hlength := congrArg List.length (next_main s).1
  have hmoved : (pipeline.next s .main).moved.length = s.moved.length + 1 := by
    simp only [Machine.next, pipeline, step, h, List.length_append, List.length_singleton]
  rw [List.length_append, List.length_append, hmoved] at hlength
  omega

theorem hand_of_take {s : Pipeline} (h : s.hand = none) (hw : s.waiting ≠ []) :
    (∃ i, (pipeline.next s .main).hand = some i) ∧
      (pipeline.next s .main).waiting = s.waiting := by
  have hmoved : (pipeline.next s .main).moved = s.moved := by
    simp only [Machine.next, pipeline, step, h]
  have hsame := (next_main s).1
  rw [hmoved, List.append_cancel_left_eq] at hsame
  refine ⟨?_, hsame⟩
  simp only [Machine.next, pipeline, step, h, AudioStreamRx.takeReadyBlock]
  split_ifs with h0 h1
  · exact ⟨0, rfl⟩
  · exact ⟨1, rfl⟩
  · exact absurd (by simp [waiting, h, h0, h1]) hw

theorem exists_drained (s : Pipeline) :
    ∃ n, (pipeline.run s (List.replicate n .main)).waiting = [] := by
  induction hm : s.waiting.length generalizing s with
  | zero => exact ⟨0, List.eq_nil_of_length_eq_zero hm⟩
  | succ m ih =>
    have hpush (t : Pipeline) (i : Fin 2) (ht : t.hand = some i)
        (hlength : t.waiting.length = m + 1) :
        ∃ n, (pipeline.run t (List.replicate n .main)).waiting = [] := by
      have hnext := length_waiting_push ht
      obtain ⟨n, hn⟩ := ih (pipeline.next t .main) (by omega)
      exact ⟨n + 1, hn⟩
    cases hh : s.hand with
    | some i => exact hpush s i hh hm
    | none =>
      have hw : s.waiting ≠ [] := fun he => by
        rw [he] at hm
        cases hm
      obtain ⟨⟨i, hi⟩, hsame⟩ := hand_of_take hh hw
      obtain ⟨n, hn⟩ := hpush _ i hi (hsame ▸ hm)
      exact ⟨n + 1, hn⟩

theorem run_main (s : Pipeline) (n : ℕ) :
    (pipeline.run s (List.replicate n .main)).moved ++
        (pipeline.run s (List.replicate n .main)).waiting = s.moved ++ s.waiting ∧
      (pipeline.run s (List.replicate n .main)).received = s.received ∧
      (pipeline.run s (List.replicate n .main)).refilled = s.refilled := by
  induction n generalizing s with
  | zero => exact ⟨rfl, rfl, rfl⟩
  | succ n ih =>
    obtain ⟨hall, hreceived, hrefilled⟩ := ih (pipeline.next s .main)
    obtain ⟨hall', hreceived', hrefilled'⟩ := next_main s
    rw [List.replicate_succ, Machine.run_cons, hall, hreceived, hrefilled]
    exact ⟨hall', hreceived', hrefilled'⟩

theorem accounted_iff (s : Pipeline) :
    s.Accounted ↔ ∀ b ∈ s.received, b ∈ s.moved ++ s.waiting ∨ b ∈ s.refilled := by
  simp only [Accounted, List.mem_append, or_assoc]

/-- However far the main loop gets, the order is kept exactly when everything that it would move
is in order. -/
theorem orderKept_main_iff {s : Pipeline} (h : s.Numbered) :
    (∀ n, (pipeline.run s (List.replicate n .main)).OrderKept) ↔ s.InOrder := by
  constructor
  · intro hall
    refine ⟨?_, (hall 0).2.2⟩
    obtain ⟨n, hn⟩ := exists_drained s
    obtain ⟨hmoved, hreceived, -⟩ := run_main s n
    rw [hn, List.append_nil] at hmoved
    rw [← hmoved, ← hreceived]
    exact (hall n).1
  · rintro ⟨hsub, hacc⟩ n
    obtain ⟨hmoved, hreceived, hrefilled⟩ := run_main s n
    have hleft : (pipeline.run s (List.replicate n .main)).moved <+ s.received :=
      (List.sublist_append_left _ _).trans (hmoved ▸ hsub)
    refine ⟨hreceived ▸ hleft, hleft.nodup (nodup_received h), ?_⟩
    rw [accounted_iff] at hacc ⊢
    rwa [hmoved, hreceived, hrefilled]

section Complete

variable (s : Pipeline) (bytes : Vector UInt8 streamRxBlockSize)

/-- What waits after a block has completed in buffer 0: it comes before the one in buffer 1. -/
theorem waiting_rxCplt_zero (hd : s.rx.s_dmaBufIndex = 0) :
    (pipeline.next s (.rxCplt bytes)).waiting =
      s.hand.toList.map (Function.update s.rx.s_spiRxBuf 0 ⟨bytes, s.received.length⟩) ++
        (⟨bytes, s.received.length⟩ ::
          if s.rx.s_readyFlags 1 then [s.rx.s_spiRxBuf 1] else []) := by
  simp [Machine.next, pipeline, step, waiting, AudioStreamRx.rxCpltCallback, hd]

theorem waiting_rxCplt_one (hd : s.rx.s_dmaBufIndex = 1) :
    (pipeline.next s (.rxCplt bytes)).waiting =
      s.hand.toList.map (Function.update s.rx.s_spiRxBuf 1 ⟨bytes, s.received.length⟩) ++
        ((if s.rx.s_readyFlags 0 then [s.rx.s_spiRxBuf 0] else []) ++
          [⟨bytes, s.received.length⟩]) := by
  simp [Machine.next, pipeline, step, waiting, AudioStreamRx.rxCpltCallback, hd]

theorem next_rxCplt :
    (pipeline.next s (.rxCplt bytes)).moved = s.moved ∧
      (pipeline.next s (.rxCplt bytes)).received =
        s.received ++ [⟨bytes, s.received.length⟩] := ⟨rfl, rfl⟩

variable {s}

theorem hand_rxCplt {d : Fin 2} (h : s.hand ≠ some d) (b : Block) :
    s.hand.toList.map (Function.update s.rx.s_spiRxBuf d b) =
      s.hand.toList.map s.rx.s_spiRxBuf := by
  cases hh : s.hand with
  | none => rfl
  | some i =>
    have hne : i ≠ d := fun he => h (hh.trans (congrArg some he))
    simp [hne]

/-- In turn, the new block is the last one to wait, and only a block whose buffer it took is no
longer waiting. -/
theorem waiting_inTurn (h : s.InTurn (.rxCplt bytes)) :
    ∃ kept, (pipeline.next s (.rxCplt bytes)).waiting = kept ++ [⟨bytes, s.received.length⟩] ∧
      kept <+ s.waiting ∧ ∀ b ∈ s.waiting, b ∈ kept ∨
        (s.rx.s_readyFlags s.rx.s_dmaBufIndex = true ∧ b = s.rx.s_spiRxBuf s.rx.s_dmaBufIndex) := by
  obtain ⟨hhand, hturn⟩ := h
  obtain hd | hd : s.rx.s_dmaBufIndex = 0 ∨ s.rx.s_dmaBufIndex = 1 := by omega
  · have hflag : s.rx.s_readyFlags 1 = false := by
      by_contra hne
      exact hturn ⟨hd, (Bool.not_eq_false _).mp hne⟩
    refine ⟨s.hand.toList.map s.rx.s_spiRxBuf, ?_, List.sublist_append_left _ _, ?_⟩
    · rw [waiting_rxCplt_zero s bytes hd, hand_rxCplt (hd ▸ hhand), hflag]
      rfl
    · intro b hb
      rw [hd]
      simp only [waiting, hflag, Bool.false_eq_true, if_false, List.append_nil,
        List.mem_append] at hb
      rcases hb with hb | hb
      · exact .inl hb
      · split_ifs at hb with h0
        · exact .inr ⟨h0, List.mem_singleton.mp hb⟩
        · cases hb
  · refine ⟨s.hand.toList.map s.rx.s_spiRxBuf ++
      (if s.rx.s_readyFlags 0 then [s.rx.s_spiRxBuf 0] else []), ?_, ?_, ?_⟩
    · rw [waiting_rxCplt_one s bytes hd, hand_rxCplt (hd ▸ hhand), List.append_assoc]
    · rw [waiting, ← List.append_assoc]
      exact List.sublist_append_left _ _
    · intro b hb
      rw [hd]
      rw [waiting, ← List.append_assoc, List.mem_append] at hb
      rcases hb with hb | hb
      · exact .inl hb
      · split_ifs at hb with h1
        · exact .inr ⟨h1, List.mem_singleton.mp hb⟩
        · cases hb

theorem inOrder_of_inTurn (h : s.InOrder) (ht : s.InTurn (.rxCplt bytes)) :
    (pipeline.next s (.rxCplt bytes)).InOrder := by
  obtain ⟨hsub, hacc⟩ := h
  obtain ⟨kept, hwaiting, hkept, hlost⟩ := waiting_inTurn bytes ht
  obtain ⟨hmoved, hreceived⟩ := next_rxCplt s bytes
  constructor
  · rw [hmoved, hwaiting, hreceived, ← List.append_assoc]
    have hold := (hkept.append_left s.moved).trans hsub
    exact hold.append (List.Sublist.refl _)
  · intro b hb
    rw [hmoved, hwaiting]
    rw [hreceived, List.mem_append] at hb
    rcases hb with hb | hb
    · rcases hacc b hb with hm | hw | hr
      · exact .inl hm
      · rcases hlost b hw with hk | ⟨hflag, rfl⟩
        · exact .inr (.inl (List.mem_append_left _ hk))
        · right
          right
          simp only [Machine.next, pipeline, step, if_pos hflag]
          exact List.mem_append_right _ (List.mem_singleton_self _)
      · right
        right
        simp only [Machine.next, pipeline, step]
        split_ifs
        · exact List.mem_append_left _ hr
        · exact hr
    · exact .inr (.inl (List.mem_append_right _ hb))

theorem not_before (hn : s.Numbered) (h : (pipeline.next s (.rxCplt bytes)).InOrder) {c : Block}
    (hc : c.number ≤ s.received.length) :
    ¬ [⟨bytes, s.received.length⟩, c] <+ (pipeline.next s (.rxCplt bytes)).waiting := by
  intro hpair
  have hsub := (hpair.trans (List.sublist_append_right _ _)).trans h.1
  have hlt := lt_of_sublist (numbered_next hn (.rxCplt bytes)) hsub
  exact absurd hlt (Nat.not_lt.mpr hc)

theorem inTurn_of_inOrder (hn : s.Numbered) (h : s.InOrder)
    (hnext : (pipeline.next s (.rxCplt bytes)).InOrder) : s.InTurn (.rxCplt bytes) := by
  constructor
  · -- the buffer in hand now holds the new block, and its flag is up once more
    intro hhand
    apply not_before bytes hn hnext (c := ⟨bytes, s.received.length⟩) le_rfl
    obtain hd | hd : s.rx.s_dmaBufIndex = 0 ∨ s.rx.s_dmaBufIndex = 1 := by omega
    · rw [waiting_rxCplt_zero s bytes hd, hhand, hd]
      simp
    · rw [waiting_rxCplt_one s bytes hd, hhand, hd]
      simp
  · rintro ⟨hd, hflag⟩
    have hmem : s.rx.s_spiRxBuf 1 ∈ s.moved ++ s.waiting := by
      simp [waiting, hflag]
    have hnumber := number_lt hn (h.1.subset hmem)
    apply not_before bytes hn hnext (c := s.rx.s_spiRxBuf 1) hnumber.le
    rw [waiting_rxCplt_zero s bytes hd, if_pos hflag]
    exact List.sublist_append_right _ _

end Complete

theorem inOrder_next_iff {s : Pipeline} (hn : s.Numbered) (h : s.InOrder) (x : PipelineStep) :
    (pipeline.next s x).InOrder ↔ s.InTurn x := by
  cases x with
  | rxCplt bytes => exact ⟨inTurn_of_inOrder bytes hn h, inOrder_of_inTurn bytes h⟩
  | main =>
    obtain ⟨hall, hreceived, hrefilled⟩ := next_main s
    refine iff_of_true ⟨?_, ?_⟩ trivial
    · rw [hall, hreceived]
      exact h.1
    · rw [accounted_iff, hall, hreceived, hrefilled, ← accounted_iff]
      exact h.2
  | read len =>
    obtain ⟨hmoved, hwaiting, hreceived, hrefilled⟩ := next_read s len
    refine iff_of_true ⟨?_, ?_⟩ trivial
    · rw [hmoved, hwaiting, hreceived]
      exact h.1
    · rw [accounted_iff, hmoved, hwaiting, hreceived, hrefilled, ← accounted_iff]
      exact h.2

end Pipeline

open Pipeline

/-- The blocks keep their order, however far the main loop gets after any part of the run, exactly
when every block completes in turn. -/
theorem blocks_ordered_iff (steps : List PipelineStep) :
    (∀ ys, ys <+: steps → ∀ n,
        (pipeline.run .init (ys ++ List.replicate n .main)).OrderKept) ↔
      pipeline.Along InTurn .init steps := by
  have hiff (ys : List PipelineStep) :
      (∀ n, (pipeline.run .init (ys ++ List.replicate n .main)).OrderKept) ↔
        (pipeline.run .init ys).InOrder := by
    simp only [Machine.run_append, orderKept_main_iff (numbered_run ys)]
  simp only [hiff]
  apply Machine.prefixes_iff_along (I := fun ys => (pipeline.run .init ys).InOrder)
    ⟨List.Sublist.refl _, fun b hb => absurd hb List.not_mem_nil⟩
  intro ys x _ h
  rw [Machine.run_concat]
  exact inOrder_next_iff (numbered_run ys) h x

/-- Three blocks complete before the main loop gets to run: the third is moved before the second. -/
theorem third_block_before_second :
    ¬ ∀ steps : List PipelineStep, (pipeline.run .init steps).OrderKept := by
  intro hall
  let zero : Vector UInt8 streamRxBlockSize := Vector.replicate _ 0
  have horder (steps : List PipelineStep) : (pipeline.run .init steps).InOrder := by
    apply (orderKept_main_iff (numbered_run steps)).mp
    intro n
    rw [← Machine.run_append]
    exact hall _
  have hturn := inTurn_of_inOrder zero (numbered_run [.rxCplt zero, .rxCplt zero])
    (horder _) (horder [.rxCplt zero, .rxCplt zero, .rxCplt zero])
  apply hturn.2
  simp [pipeline, Machine.run, Machine.next, step, init, AudioStreamRx.init,
    AudioStreamRx.rxCpltCallback]

namespace Pipeline

def NotReady (s : Pipeline) : PipelineStep → Prop
  | .rxCplt _ => s.rx.s_readyFlags s.rx.s_dmaBufIndex = false
  | _ => True

end Pipeline

end JeogiAt.Audio
