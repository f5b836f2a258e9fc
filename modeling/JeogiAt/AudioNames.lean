import JeogiAt.AudioQueue
import JeogiAt.Library.CStrings

/-!
# The audio queue in memory

`AudioQueue` keeps its names as strings. In memory the queue is 16 arrays of 32 bytes, a name is
what stands before the first zero, and `AudioPlayer_Dequeue` copies it to an array of its caller.
`text` takes the one to the other (`toAudioQueue`), so what is known of the strings holds of the
bytes.
-/

namespace JeogiAt.Audio

open CStrings (cString Fits)

structure NameQueue where
  s_audioQueue : List (List UInt8)
  s_queueHead : UInt8
  s_queueTail : UInt8

namespace NameQueue

def init : NameQueue := ⟨List.replicate playerQueueMax (List.replicate playerNameMax 0), 0, 0⟩

def isQueueEmpty (q : NameQueue) : Bool := q.s_queueHead = q.s_queueTail

def isQueueFull (q : NameQueue) : Bool :=
  (q.s_queueTail.toNat + 1) % playerQueueMax = q.s_queueHead.toNat

def clearQueue (q : NameQueue) : NameQueue := { q with s_queueHead := 0, s_queueTail := 0 }

/-- `AudioPlayer_Enqueue`, of the memory at `filename`. -/
def enqueue (q : NameQueue) (filename : List UInt8) : NameQueue × Bool :=
  if q.isQueueFull then (q, false)
  else
    let slot := q.s_audioQueue.getD q.s_queueTail.toNat []
    let slot := CStrings.strncpy slot filename (playerNameMax - 1)
    let slot := slot.set (playerNameMax - 1) 0
    ({ q with
      s_audioQueue := q.s_audioQueue.set q.s_queueTail.toNat slot
      s_queueTail := UInt8.ofNat ((q.s_queueTail.toNat + 1) % playerQueueMax) }, true)

/-- `AudioPlayer_Dequeue`, with the memory at `out` after it. -/
def dequeue (q : NameQueue) (out : List UInt8) : NameQueue × List UInt8 × Bool :=
  if q.isQueueEmpty then (q, out, false)
  else
    let out := CStrings.strncpy out (q.s_audioQueue.getD q.s_queueHead.toNat []) playerNameMax
    let out := out.set (playerNameMax - 1) 0
    ({ q with s_queueHead := UInt8.ofNat ((q.s_queueHead.toNat + 1) % playerQueueMax) }, out, true)

end NameQueue

inductive QueueCall
  | enqueue (filename : List UInt8)
  | dequeue (out : List UInt8)
  | clearQueue

inductive QueueAnswer
  | enqueued (ok : Bool)
  | dequeued (out : List UInt8) (ok : Bool)
  | cleared

def nameQueue : Machine NameQueue QueueCall QueueAnswer where
  step q
    | .enqueue filename => ((q.enqueue filename).1, .enqueued (q.enqueue filename).2)
    | .dequeue out => ((q.dequeue out).1, .dequeued (q.dequeue out).2.1 (q.dequeue out).2.2)
    | .clearQueue => (q.clearQueue, .cleared)

/-- A queue of at most 15 names, each cut to 31 bytes. -/
def nameFifo : Machine (List (List UInt8)) QueueCall QueueAnswer where
  step names
    | .enqueue filename =>
        if names.length < playerQueueMax - 1 then
          (names ++ [(cString filename).take (playerNameMax - 1)], .enqueued true)
        else (names, .enqueued false)
    | .dequeue out =>
        match names with
        | [] => ([], .dequeued out false)
        | name :: names =>
            (names, .dequeued (name.rightpad playerNameMax 0 ++ out.drop playerNameMax) true)
    | .clearQueue => ([], .cleared)

def text (name : List UInt8) : String := String.ofList (name.map Char.ofUInt8)

theorem text_injective : Function.Injective text := by
  have hchar : Function.Injective Char.ofUInt8 := by
    intro a b h
    have hval : a.toUInt32 = b.toUInt32 := congrArg Char.val h
    exact UInt8.toUInt32_inj.mp hval
  exact fun a b h => List.map_injective_iff.mpr hchar (String.ofList_injective h)

theorem text_take (name : List UInt8) :
    text (name.take (playerNameMax - 1)) = strncpy (text name) := by
  rw [text, strncpy, text, String.toList_ofList, List.map_take]

namespace NameQueue

structure WellFormed (q : NameQueue) : Prop where
  length_slots : q.s_audioQueue.length = playerQueueMax
  head_lt : q.s_queueHead.toNat < playerQueueMax
  tail_lt : q.s_queueTail.toNat < playerQueueMax
  slots : ∀ slot ∈ q.s_audioQueue, ∃ name, Fits playerNameMax name ∧
    slot = name.rightpad playerNameMax 0

def toAudioQueue (q : NameQueue) : AudioQueue where
  s_audioQueue := q.s_audioQueue.map fun slot => text (cString slot)
  s_queueHead := q.s_queueHead
  s_queueTail := q.s_queueTail

def ring (q : NameQueue) : RingBuffer (List UInt8) where
  buf := q.s_audioQueue.map cString
  write := q.s_queueTail.toNat
  read := q.s_queueHead.toNat
  count := (q.s_queueTail.toNat + playerQueueMax - q.s_queueHead.toNat) % playerQueueMax

def names (q : NameQueue) : List (List UInt8) := q.ring.contents

variable {q : NameQueue}

theorem contents_toAudioQueue (q : NameQueue) : q.toAudioQueue.contents = q.names.map text := by
  rw [names, RingBuffer.contents, List.map_take, List.map_rotate]
  simp only [ring, List.map_map]
  rfl

theorem wellFormed_toAudioQueue (h : q.WellFormed) : q.toAudioQueue.WellFormed :=
  ⟨(List.length_map _).trans h.length_slots, h.head_lt, h.tail_lt⟩

theorem wellFormed_ring (h : q.WellFormed) : q.ring.WellFormed playerQueueMax := by
  have hring := AudioQueue.wellFormed_ring (wellFormed_toAudioQueue h)
  exact ⟨(List.length_map _).trans h.length_slots, hring.read_lt, hring.count_le, hring.write_eq⟩

theorem length_names (h : q.WellFormed) : q.names.length =
    (q.s_queueTail.toNat + playerQueueMax - q.s_queueHead.toNat) % playerQueueMax :=
  RingBuffer.length_contents (wellFormed_ring h)

theorem isQueueEmpty_iff (h : q.WellFormed) : q.isQueueEmpty = true ↔ q.names = [] := by
  have hiff := AudioQueue.isQueueEmpty_iff (wellFormed_toAudioQueue h)
  rwa [contents_toAudioQueue, List.map_eq_nil_iff] at hiff

theorem isQueueFull_iff (h : q.WellFormed) :
    q.isQueueFull = true ↔ q.names.length = playerQueueMax - 1 := by
  have hiff := AudioQueue.isQueueFull_iff (wellFormed_toAudioQueue h)
  rwa [contents_toAudioQueue, List.length_map] at hiff

theorem length_names_lt (h : q.WellFormed) : q.names.length < playerQueueMax := by
  rw [length_names h]
  exact Nat.mod_lt _ (Nat.zero_lt_succ _)

theorem slot_eq (h : q.WellFormed) {slot : List UInt8} (hslot : slot ∈ q.s_audioQueue) :
    Fits playerNameMax (cString slot) ∧ slot = (cString slot).rightpad playerNameMax 0 := by
  obtain ⟨name, hfits, rfl⟩ := h.slots slot hslot
  have hname := CStrings.cString_rightpad hfits []
  rw [List.append_nil] at hname
  rw [hname]
  exact ⟨hfits, rfl⟩

theorem exists_slot (h : q.WellFormed) {i : ℕ} (hi : i < playerQueueMax) :
    ∃ slot, q.s_audioQueue[i]? = some slot ∧ q.s_audioQueue.getD i [] = slot ∧
      Fits playerNameMax (cString slot) ∧ slot = (cString slot).rightpad playerNameMax 0 := by
  have hget := List.getElem?_eq_getElem (h.length_slots ▸ hi)
  refine ⟨_, hget, ?_, slot_eq h (List.getElem_mem _)⟩
  rw [List.getD_eq_getElem?_getD, hget, Option.getD_some]

theorem getElem?_names (h : q.WellFormed) {k : ℕ} (hk : k < q.names.length) :
    q.names[k]? =
      (q.s_audioQueue[(q.s_queueHead.toNat + k) % playerQueueMax]?).map cString := by
  have hcount : k < q.ring.count := by rwa [length_names h] at hk
  have hget := RingBuffer.getElem?_contents (wellFormed_ring h) k
  rw [if_pos hcount] at hget
  exact hget.trans List.getElem?_map

theorem slot_of_name (h : q.WellFormed) {k : ℕ} (hk : k < q.names.length) :
    q.s_audioQueue[(q.s_queueHead.toNat + k) % playerQueueMax]? =
      (q.names[k]?).map fun name => name.rightpad playerNameMax 0 := by
  obtain ⟨slot, hget, -, -, hpad⟩ := exists_slot h
    (Nat.mod_lt (q.s_queueHead.toNat + k) (Nat.zero_lt_succ _))
  rw [getElem?_names h hk, hget, Option.map_some, Option.map_some, ← hpad]

theorem enqueue_eq (h : q.WellFormed) (filename : List UInt8) :
    q.enqueue filename =
      if q.isQueueFull then (q, false)
      else
        ({ q with
          s_audioQueue := q.s_audioQueue.set q.s_queueTail.toNat
            (((cString filename).take (playerNameMax - 1)).rightpad playerNameMax 0)
          s_queueTail := UInt8.ofNat ((q.s_queueTail.toNat + 1) % playerQueueMax) }, true) := by
  obtain ⟨slot, -, hslot, hfits, hpad⟩ := exists_slot h h.tail_lt
  have hlength : slot.length = playerNameMax := by
    rw [hpad, List.length_rightpad]
    exact max_eq_left hfits.length_lt.le
  have hset : (CStrings.strncpy slot filename (playerNameMax - 1)).set (playerNameMax - 1) 0 =
      ((cString filename).take (playerNameMax - 1)).rightpad playerNameMax 0 ++
        slot.drop playerNameMax :=
    CStrings.set_strncpy le_rfl (Nat.le_succ _)
      (Nat.lt_of_lt_of_le (hlength.symm ▸ Nat.lt_succ_self _) (Nat.le_max_right ..)) filename
  rw [List.drop_eq_nil_of_le hlength.le, List.append_nil] at hset
  simp only [enqueue, hslot, hset]

theorem dequeue_eq (h : q.WellFormed) (out : List UInt8) :
    q.dequeue out =
      if q.isQueueEmpty then (q, out, false)
      else
        ({ q with s_queueHead := UInt8.ofNat ((q.s_queueHead.toNat + 1) % playerQueueMax) },
          q.s_audioQueue.getD q.s_queueHead.toNat [] ++ out.drop playerNameMax, true) := by
  obtain ⟨slot, -, hslot, hfits, hpad⟩ := exists_slot h h.head_lt
  have hset : (CStrings.strncpy out slot playerNameMax).set (playerNameMax - 1) 0 =
      ((cString slot).take (playerNameMax - 1)).rightpad playerNameMax 0 ++
        out.drop playerNameMax :=
    CStrings.set_strncpy (Nat.le_succ _) le_rfl
      (Nat.lt_of_lt_of_le (Nat.lt_succ_self _) (Nat.le_max_left ..)) slot
  have hle : (cString slot).length ≤ playerNameMax - 1 := Nat.le_of_lt_succ hfits.length_lt
  rw [List.take_of_length_le hle, ← hpad] at hset
  simp only [dequeue, hslot, hset]

theorem wellFormed_init : init.WellFormed where
  length_slots := List.length_replicate
  head_lt := Nat.zero_lt_succ _
  tail_lt := Nat.zero_lt_succ _
  slots _ hslot := ⟨[], ⟨Nat.zero_lt_succ _, List.not_mem_nil⟩, List.eq_of_mem_replicate hslot⟩

theorem wellFormed_clearQueue (h : q.WellFormed) : q.clearQueue.WellFormed where
  length_slots := h.length_slots
  head_lt := Nat.zero_lt_succ _
  tail_lt := Nat.zero_lt_succ _
  slots := h.slots

theorem wellFormed_enqueue (h : q.WellFormed) (filename : List UInt8) :
    (q.enqueue filename).1.WellFormed := by
  rw [enqueue_eq h]
  split_ifs
  · exact h
  · refine ⟨(List.length_set ..).trans h.length_slots, h.head_lt, ?_, ?_⟩
    · rw [AudioQueue.toNat_succ]
      exact Nat.mod_lt _ (Nat.zero_lt_succ _)
    · intro slot hslot
      rcases List.mem_or_eq_of_mem_set hslot with hold | rfl
      · exact h.slots slot hold
      · exact ⟨_, CStrings.fits_take filename _, rfl⟩

theorem wellFormed_dequeue (h : q.WellFormed) (out : List UInt8) :
    (q.dequeue out).1.WellFormed := by
  rw [dequeue_eq h]
  split_ifs
  · exact h
  · refine ⟨h.length_slots, ?_, h.tail_lt, h.slots⟩
    rw [AudioQueue.toNat_succ]
    exact Nat.mod_lt _ (Nat.zero_lt_succ _)

theorem toAudioQueue_enqueue (h : q.WellFormed) (filename : List UInt8) :
    (q.enqueue filename).1.toAudioQueue =
      (q.toAudioQueue.enqueue (text (cString filename))).1 := by
  have hname : cString (((cString filename).take (playerNameMax - 1)).rightpad playerNameMax 0) =
      (cString filename).take (playerNameMax - 1) := by
    have hread := CStrings.cString_rightpad (CStrings.fits_take filename (playerNameMax - 1)) []
    rwa [List.append_nil] at hread
  have hfull : q.toAudioQueue.isQueueFull = q.isQueueFull := rfl
  rw [enqueue_eq h, AudioQueue.enqueue, hfull]
  split_ifs
  · rfl
  · simp only [toAudioQueue, List.map_set, hname, text_take]

theorem toAudioQueue_dequeue (h : q.WellFormed) (out : List UInt8) :
    (q.dequeue out).1.toAudioQueue = q.toAudioQueue.dequeue.1 := by
  have hempty : q.toAudioQueue.isQueueEmpty = q.isQueueEmpty := rfl
  rw [dequeue_eq h, AudioQueue.dequeue, hempty]
  split_ifs <;> rfl

theorem names_enqueue (h : q.WellFormed) (filename : List UInt8) :
    (q.enqueue filename).1.names =
      if q.names.length < playerQueueMax - 1 then
        q.names ++ [(cString filename).take (playerNameMax - 1)]
      else q.names := by
  apply List.map_injective_iff.mpr text_injective
  rw [← contents_toAudioQueue, toAudioQueue_enqueue h,
    AudioQueue.contents_enqueue (wellFormed_toAudioQueue h), contents_toAudioQueue, List.length_map]
  split_ifs
  · rw [List.map_append, List.map_singleton, text_take]
  · rfl

theorem names_dequeue (h : q.WellFormed) (out : List UInt8) :
    (q.dequeue out).1.names = q.names.tail := by
  apply List.map_injective_iff.mpr text_injective
  rw [← contents_toAudioQueue, toAudioQueue_dequeue h,
    AudioQueue.contents_dequeue (wellFormed_toAudioQueue h), contents_toAudioQueue, List.map_tail]

theorem names_clearQueue (h : q.WellFormed) : q.clearQueue.names = [] := by
  apply List.eq_nil_of_length_eq_zero
  rw [length_names (wellFormed_clearQueue h)]
  exact Nat.mod_self playerQueueMax

theorem enqueue_snd (h : q.WellFormed) (filename : List UInt8) :
    (q.enqueue filename).2 = decide (q.names.length < playerQueueMax - 1) := by
  have hlt := length_names_lt h
  have hiff := isQueueFull_iff h
  rw [enqueue]
  split_ifs with hfull
  · have heq := hiff.mp hfull
    exact (decide_eq_false (by omega)).symm
  · have hne := mt hiff.mpr hfull
    exact (decide_eq_true (by omega)).symm

theorem dequeue_snd (h : q.WellFormed) (out : List UInt8) :
    (q.dequeue out).2 =
      match q.names with
      | [] => (out, false)
      | name :: _ => (name.rightpad playerNameMax 0 ++ out.drop playerNameMax, true) := by
  have hiff := isQueueEmpty_iff h
  cases hnames : q.names with
  | nil => rw [dequeue, if_pos (hiff.mpr hnames)]
  | cons name rest =>
    have hne : ¬ q.isQueueEmpty = true := fun hempty =>
      List.cons_ne_nil name rest (hnames.symm.trans (hiff.mp hempty))
    have hslot := slot_of_name h (k := 0) (hnames ▸ Nat.zero_lt_succ _)
    rw [Nat.add_zero, Nat.mod_eq_of_lt h.head_lt, hnames, List.getElem?_cons_zero,
      Option.map_some] at hslot
    rw [dequeue_eq h, if_neg hne, List.getD_eq_getElem?_getD, hslot, Option.getD_some]

theorem step_refines (h : q.WellFormed) (call : QueueCall) :
    (nameQueue.next q call).WellFormed ∧
      (nameQueue.next q call).names = nameFifo.next q.names call ∧
      nameQueue.output q call = nameFifo.output q.names call := by
  cases call with
  | enqueue filename =>
    refine ⟨wellFormed_enqueue h filename, (names_enqueue h filename).trans ?_,
      (congrArg QueueAnswer.enqueued (enqueue_snd h filename)).trans ?_⟩
    · simp only [Machine.next, nameFifo]
      split_ifs <;> rfl
    · simp only [Machine.output, nameFifo]
      split_ifs with hlt
      · rw [decide_eq_true hlt]
      · rw [decide_eq_false hlt]
  | dequeue out =>
    have hsnd := dequeue_snd h out
    refine ⟨wellFormed_dequeue h out, (names_dequeue h out).trans ?_, ?_⟩
    · simp only [Machine.next, nameFifo]
      cases q.names <;> rfl
    · simp only [Machine.output, nameQueue, nameFifo, hsnd]
      cases q.names <;> rfl
  | clearQueue => exact ⟨wellFormed_clearQueue h, names_clearQueue h, rfl⟩

end NameQueue

structure QueueLaw (q : NameQueue) (names : List (List UInt8)) : Prop where
  head_lt : q.s_queueHead.toNat < playerQueueMax
  tail_lt : q.s_queueTail.toNat < playerQueueMax
  length_eq : (names.length : ℤ) =
    ((q.s_queueTail.toNat : ℤ) - q.s_queueHead.toNat) % playerQueueMax
  length_le : names.length ≤ playerQueueMax - 1
  enqueue_iff : ∀ filename, (q.enqueue filename).2 = true ↔ names.length < playerQueueMax - 1
  refused : ∀ filename, (q.enqueue filename).2 = false → (q.enqueue filename).1 = q
  oldest : ∀ out name, names.head? = some name → ∃ out',
    (q.dequeue out).2 = (out', true) ∧ cString out' = name ∧
      out'[playerNameMax - 1]? = some 0
  stored : ∀ k < names.length, q.s_audioQueue[(q.s_queueHead.toNat + k) % playerQueueMax]? =
    (names[k]?).map fun name => name.rightpad playerNameMax 0
  unaltered : ∀ call, ∀ k < names.length,
    (nameQueue.next q call).s_audioQueue[(q.s_queueHead.toNat + k) % playerQueueMax]? =
      q.s_audioQueue[(q.s_queueHead.toNat + k) % playerQueueMax]?

namespace NameQueue

variable {q : NameQueue}

theorem refused_enqueue (filename : List UInt8) (h : (q.enqueue filename).2 = false) :
    (q.enqueue filename).1 = q := by
  rw [enqueue] at h ⊢
  split_ifs at h ⊢
  rfl

theorem fits_of_mem (h : q.WellFormed) {name : List UInt8} (hname : name ∈ q.names) :
    Fits playerNameMax name := by
  obtain ⟨k, hk, rfl⟩ := List.getElem_of_mem hname
  have hget := getElem?_names h hk
  rw [List.getElem?_eq_getElem hk] at hget
  obtain ⟨slot, hslot, heq⟩ := Option.map_eq_some_iff.mp hget.symm
  exact heq ▸ (slot_eq h (List.mem_of_getElem? hslot)).1

theorem dequeue_oldest (h : q.WellFormed) (out : List UInt8) {name : List UInt8}
    (hname : q.names.head? = some name) : ∃ out', (q.dequeue out).2 = (out', true) ∧
      cString out' = name ∧ out'[playerNameMax - 1]? = some 0 := by
  obtain ⟨rest, hcons⟩ := List.head?_eq_some_iff.mp hname
  have hfits := fits_of_mem h (List.mem_of_mem_head? hname)
  have hsnd := dequeue_snd h out
  rw [hcons] at hsnd
  have hend : name[playerNameMax - 1]? = none :=
    List.getElem?_eq_none (Nat.le_of_lt_succ hfits.length_lt)
  refine ⟨_, hsnd, CStrings.cString_rightpad hfits _, ?_⟩
  rw [CStrings.getElem?_rightpad hfits.length_lt.le, if_pos (by decide), hend, Option.getD_none]

theorem next_slot (h : q.WellFormed) (call : QueueCall) {k : ℕ} (hk : k < q.names.length) :
    (nameQueue.next q call).s_audioQueue[(q.s_queueHead.toNat + k) % playerQueueMax]? =
      q.s_audioQueue[(q.s_queueHead.toNat + k) % playerQueueMax]? := by
  have hhead := h.head_lt
  have htail := h.tail_lt
  rw [length_names h] at hk
  cases call with
  | enqueue filename =>
    simp only [Machine.next, nameQueue, enqueue_eq h]
    split_ifs
    · rfl
    · apply List.getElem?_set_ne
      simp only [playerQueueMax] at hhead htail hk ⊢
      omega
  | dequeue out =>
    simp only [Machine.next, nameQueue, dequeue_eq h]
    split_ifs <;> rfl
  | clearQueue => rfl

theorem queueLaw (h : q.WellFormed) : QueueLaw q q.names where
  head_lt := h.head_lt
  tail_lt := h.tail_lt
  length_eq := by
    have hhead := h.head_lt
    have htail := h.tail_lt
    rw [length_names h]
    simp only [playerQueueMax] at hhead htail ⊢
    omega
  length_le := Nat.le_of_lt_succ (length_names_lt h)
  enqueue_iff filename := by rw [enqueue_snd h, decide_eq_true_iff]
  refused := refused_enqueue
  oldest out _ := dequeue_oldest h out
  stored _ := slot_of_name h
  unaltered call _ := next_slot h call

end NameQueue

/-- The queue in memory is a bounded queue of names: after all calls its indices tell the names,
and its answers are theirs. -/
theorem nameQueue_refines (calls : List QueueCall) :
    QueueLaw (nameQueue.run .init calls) (nameFifo.run [] calls) ∧
      nameQueue.trace .init calls = nameFifo.trace [] calls := by
  have hinit : NameQueue.init.names = [] :=
    List.eq_nil_of_length_eq_zero (NameQueue.length_names NameQueue.wellFormed_init)
  obtain ⟨⟨hwf, hnames⟩, htrace⟩ := Machine.run_refines (M := nameQueue) (N := nameFifo)
    (R := fun q names => q.WellFormed ∧ q.names = names)
    (fun q names call h => by
      obtain ⟨hwf, hnext, hout⟩ := NameQueue.step_refines h.1 call
      exact h.2 ▸ ⟨⟨hwf, hnext⟩, hout⟩)
    ⟨NameQueue.wellFormed_init, hinit⟩ calls
  exact ⟨hnames ▸ NameQueue.queueLaw hwf, htrace⟩

end JeogiAt.Audio
