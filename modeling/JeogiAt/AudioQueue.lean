import JeogiAt.Library.RingBuffer
import Mathlib.Data.List.FinRange

/-!
# The audio queue and its announcements

The queue of `audio_player.c` holds up to 15 file names in 16 slots. `Audio_Guide` enqueues an
announcement name by name and does not look at the results, so an announcement that meets a
queue with too few free slots, but not with none, is cut off.

`contents` reads the queue as a list. `guideEnqueue_contents`: what `Audio_Guide` leaves there is as
much of the announcement as fits.
-/

namespace JeogiAt.Audio

abbrev playerQueueMax : ℕ := 16
abbrev playerNameMax : ℕ := 32

def strncpy (s : String) : String := String.ofList (s.toList.take (playerNameMax - 1))

theorem strncpy_eq {s : String} (h : s.length ≤ playerNameMax - 1) : strncpy s = s := by
  rw [strncpy, List.take_of_length_le (by rwa [String.length_toList]), String.ofList_toList]

structure AudioQueue where
  s_audioQueue : List String
  s_queueHead : UInt8
  s_queueTail : UInt8

namespace AudioQueue

def empty : AudioQueue := ⟨List.replicate playerQueueMax "", 0, 0⟩

def isQueueEmpty (q : AudioQueue) : Bool := q.s_queueHead = q.s_queueTail

def isQueueFull (q : AudioQueue) : Bool :=
  (q.s_queueTail.toNat + 1) % playerQueueMax = q.s_queueHead.toNat

def clearQueue (q : AudioQueue) : AudioQueue := { q with s_queueHead := 0, s_queueTail := 0 }

def enqueue (q : AudioQueue) (filename : String) : AudioQueue × Bool :=
  if q.isQueueFull then (q, false)
  else
    ({ q with
      s_audioQueue := q.s_audioQueue.set q.s_queueTail.toNat (strncpy filename)
      s_queueTail := UInt8.ofNat ((q.s_queueTail.toNat + 1) % playerQueueMax) }, true)

def dequeue (q : AudioQueue) : AudioQueue × Option String :=
  if q.isQueueEmpty then (q, none)
  else
    ({ q with s_queueHead := UInt8.ofNat ((q.s_queueHead.toNat + 1) % playerQueueMax) },
      some (strncpy (q.s_audioQueue.getD q.s_queueHead.toNat "")))

structure WellFormed (q : AudioQueue) : Prop where
  length_slots : q.s_audioQueue.length = playerQueueMax
  head_lt : q.s_queueHead.toNat < playerQueueMax
  tail_lt : q.s_queueTail.toNat < playerQueueMax

/-- The queue as a ring buffer: the number of names is the distance of the two indices. -/
def ring (q : AudioQueue) : RingBuffer String where
  buf := q.s_audioQueue
  write := q.s_queueTail.toNat
  read := q.s_queueHead.toNat
  count := (q.s_queueTail.toNat + playerQueueMax - q.s_queueHead.toNat) % playerQueueMax

def contents (q : AudioQueue) : List String := q.ring.contents

variable {q : AudioQueue}

theorem wellFormed_ring (h : q.WellFormed) : q.ring.WellFormed playerQueueMax := by
  have hhead := h.head_lt
  have htail := h.tail_lt
  refine ⟨h.length_slots, hhead, (Nat.mod_lt _ (Nat.zero_lt_succ _)).le, ?_⟩
  simp only [ring, playerQueueMax] at hhead htail ⊢
  omega

theorem length_contents (h : q.WellFormed) : q.contents.length =
    (q.s_queueTail.toNat + playerQueueMax - q.s_queueHead.toNat) % playerQueueMax :=
  RingBuffer.length_contents (wellFormed_ring h)

theorem getElem?_contents (h : q.WellFormed) (k : ℕ) : q.contents[k]? =
    if k < q.contents.length then q.s_audioQueue[(q.s_queueHead.toNat + k) % playerQueueMax]?
    else none := by
  rw [length_contents h]
  exact RingBuffer.getElem?_contents (wellFormed_ring h) k

theorem length_contents_lt (h : q.WellFormed) : q.contents.length < playerQueueMax := by
  rw [length_contents h]
  exact Nat.mod_lt _ (Nat.zero_lt_succ _)

theorem isQueueEmpty_iff (h : q.WellFormed) : q.isQueueEmpty = true ↔ q.contents = [] := by
  have hhead := h.head_lt
  have htail := h.tail_lt
  rw [← List.length_eq_zero_iff, length_contents h, isQueueEmpty, decide_eq_true_iff,
    ← UInt8.toNat_inj]
  simp only [playerQueueMax] at hhead htail ⊢
  omega

theorem isQueueFull_iff (h : q.WellFormed) :
    q.isQueueFull = true ↔ q.contents.length = playerQueueMax - 1 := by
  have hhead := h.head_lt
  have htail := h.tail_lt
  rw [length_contents h, isQueueFull, decide_eq_true_iff]
  simp only [playerQueueMax] at hhead htail ⊢
  omega

theorem toNat_succ (i : UInt8) : (UInt8.ofNat ((i.toNat + 1) % playerQueueMax)).toNat =
    (i.toNat + 1) % playerQueueMax := by
  rw [UInt8.toNat_ofNat']
  simp only [playerQueueMax]
  omega

theorem wellFormed_empty : empty.WellFormed :=
  ⟨List.length_replicate, Nat.zero_lt_succ _, Nat.zero_lt_succ _⟩

theorem wellFormed_enqueue (h : q.WellFormed) (filename : String) :
    (q.enqueue filename).1.WellFormed := by
  unfold enqueue
  split_ifs
  · exact h
  · refine ⟨(List.length_set ..).trans h.length_slots, h.head_lt, ?_⟩
    rw [toNat_succ]
    exact Nat.mod_lt _ (Nat.zero_lt_succ _)

theorem wellFormed_dequeue (h : q.WellFormed) : q.dequeue.1.WellFormed := by
  unfold dequeue
  split_ifs
  · exact h
  · refine ⟨h.length_slots, ?_, h.tail_lt⟩
    rw [toNat_succ]
    exact Nat.mod_lt _ (Nat.zero_lt_succ _)

theorem enqueue_of_not_full (h : q.isQueueFull = false) (filename : String) :
    (q.enqueue filename).1.s_audioQueue =
        q.s_audioQueue.set q.s_queueTail.toNat (strncpy filename) ∧
      (q.enqueue filename).1.s_queueHead = q.s_queueHead ∧
      (q.enqueue filename).1.s_queueTail.toNat = (q.s_queueTail.toNat + 1) % playerQueueMax := by
  unfold enqueue
  rw [if_neg (Bool.not_eq_true _ ▸ h)]
  exact ⟨rfl, rfl, toNat_succ _⟩

theorem length_enqueue (h : q.WellFormed) (hfull : q.isQueueFull = false) (filename : String) :
    (q.enqueue filename).1.contents.length = q.contents.length + 1 := by
  have hhead := h.head_lt
  have htail := h.tail_lt
  obtain ⟨-, hhead', htail'⟩ := enqueue_of_not_full hfull filename
  have hne : (q.s_queueTail.toNat + 1) % playerQueueMax ≠ q.s_queueHead.toNat := by
    simpa [isQueueFull] using hfull
  rw [length_contents (wellFormed_enqueue h filename), length_contents h, hhead', htail']
  simp only [playerQueueMax] at hhead htail hne ⊢
  omega

theorem contents_enqueue_of_not_full (h : q.WellFormed) (hfull : q.isQueueFull = false)
    (filename : String) : (q.enqueue filename).1.contents = q.contents ++ [strncpy filename] := by
  have hhead := h.head_lt
  have htail := h.tail_lt
  have hslots := h.length_slots
  have hcount := length_contents h
  obtain ⟨hset, hhead', -⟩ := enqueue_of_not_full hfull filename
  apply List.ext_getElem?
  intro k
  rw [getElem?_contents (wellFormed_enqueue h filename), length_enqueue h hfull, hset, hhead',
    List.getElem?_set, List.getElem?_append, getElem?_contents h]
  simp only [playerQueueMax] at hhead htail hslots hcount ⊢
  by_cases hk : k < q.contents.length
  · rw [if_pos (by omega), if_neg (by omega), if_pos hk, if_pos hk]
  · by_cases hlast : k = q.contents.length
    · rw [if_pos (by omega), if_pos (by omega), if_pos (by omega), if_neg hk, hlast, Nat.sub_self]
      rfl
    · rw [if_neg (by omega), if_neg hk, List.getElem?_eq_none]
      rw [List.length_singleton]
      omega

theorem contents_enqueue (h : q.WellFormed) (filename : String) :
    (q.enqueue filename).1.contents =
      if q.contents.length < playerQueueMax - 1 then q.contents ++ [strncpy filename]
      else q.contents := by
  have hlt := length_contents_lt h
  have hiff := isQueueFull_iff h
  simp only [playerQueueMax, Nat.reduceSub] at hlt hiff ⊢
  by_cases hfull : q.isQueueFull = true
  · have heq := hiff.mp hfull
    rw [if_neg (by omega), enqueue, if_pos hfull]
  · have hne := mt hiff.mpr hfull
    rw [if_pos (by omega), contents_enqueue_of_not_full h (Bool.not_eq_true _ ▸ hfull)]

theorem contents_dequeue (h : q.WellFormed) : q.dequeue.1.contents = q.contents.tail := by
  have hhead := h.head_lt
  have htail := h.tail_lt
  have hcount := length_contents h
  have hwf := wellFormed_dequeue h
  by_cases hempty : q.isQueueEmpty = true
  · rw [dequeue, if_pos hempty, (isQueueEmpty_iff h).mp hempty]
    rfl
  · have hpos : q.contents.length ≠ 0 := fun hz =>
      hempty ((isQueueEmpty_iff h).mpr (List.length_eq_zero_iff.mp hz))
    have hhead' : q.dequeue.1.s_queueHead.toNat = (q.s_queueHead.toNat + 1) % playerQueueMax := by
      rw [dequeue, if_neg hempty]
      exact toNat_succ _
    have hrest : q.dequeue.1.s_queueTail = q.s_queueTail ∧
        q.dequeue.1.s_audioQueue = q.s_audioQueue := by
      rw [dequeue, if_neg hempty]
      exact ⟨rfl, rfl⟩
    have hcount' := length_contents hwf
    rw [hhead', hrest.1] at hcount'
    apply List.ext_getElem?
    intro k
    rw [getElem?_contents hwf, hhead', hrest.2, List.getElem?_tail, getElem?_contents h]
    simp only [playerQueueMax] at hhead htail hcount hcount' ⊢
    by_cases hk : k + 1 < q.contents.length
    · rw [if_pos (by omega), if_pos hk]
      congr 1
      omega
    · rw [if_neg (by omega), if_neg hk]

def guideName (i : Fin 8) : String := "guide_" ++ toString (i.val + 1) ++ ".wav"

/-- One turn of the loop of `Audio_Guide`, with `has_zero` and `all_two`. -/
def guideZone (congestion : Fin 8 → UInt8) (s : AudioQueue × Bool × Bool) (i : Fin 8) :
    AudioQueue × Bool × Bool :=
  let (q, has_zero, all_two) := s
  let all_two := if congestion i ≠ 2 then false else all_two
  if congestion i = 0 then
    let q := if has_zero then q else (q.enqueue "guide_start.wav").1
    ((q.enqueue (guideName i)).1, true, all_two)
  else (q, has_zero, all_two)

/-- `Audio_Guide` up to `AudioPlayer_PlayNextFromQueue`. -/
def guideEnqueue (q : AudioQueue) (congestion : Fin 8 → UInt8) : AudioQueue :=
  let (q, has_zero, all_two) := (List.finRange 8).foldl (guideZone congestion) (q, false, true)
  if has_zero then (q.enqueue "guide_end.wav").1
  else if all_two then (q.enqueue "warning.wav").1
  else q

def announcement (congestion : Fin 8 → UInt8) : List String :=
  let zones := (List.finRange 8).filter fun i => congestion i = 0
  if zones ≠ [] then "guide_start.wav" :: zones.map guideName ++ ["guide_end.wav"]
  else if ∀ i, congestion i = 2 then ["warning.wav"]
  else []

def enqueueAll (q : AudioQueue) (names : List String) : AudioQueue :=
  names.foldl (fun q name => (q.enqueue name).1) q

theorem foldl_guideZone (congestion : Fin 8 → UInt8) (q : AudioQueue) (is : List (Fin 8)) :
    is.foldl (guideZone congestion) (q, false, true) =
      (q.enqueueAll (if is.filter (congestion · = 0) ≠ [] then
          "guide_start.wav" :: (is.filter (congestion · = 0)).map guideName else []),
        decide (is.filter (congestion · = 0) ≠ []), decide (∀ i ∈ is, congestion i = 2)) := by
  induction is using List.reverseRecOn with
  | nil => rfl
  | append_singleton is i ih =>
    have hall : (∀ j ∈ is ++ [i], congestion j = 2) ↔
        (∀ j ∈ is, congestion j = 2) ∧ congestion i = 2 := by
      simp only [List.mem_append, List.mem_singleton, or_imp, forall_and, forall_eq]
    have htwo : (if congestion i ≠ 2 then false else decide (∀ j ∈ is, congestion j = 2)) =
        decide (∀ j ∈ is ++ [i], congestion j = 2) := by
      by_cases h2 : congestion i = 2
      · simp only [h2, ne_eq, not_true_eq_false, if_false, hall, and_true]
      · simp only [h2, ne_eq, not_false_eq_true, if_true, hall, and_false, decide_false]
    rw [List.foldl_concat, ih, guideZone]
    dsimp only
    rw [htwo, List.filter_append]
    by_cases h0 : congestion i = 0
    · have hone : [i].filter (congestion · = 0) = [i] :=
        List.filter_eq_self.mpr fun j hj => by
          rw [List.mem_singleton.mp hj]
          exact decide_eq_true h0
      rw [if_pos h0, hone]
      by_cases hzones : is.filter (congestion · = 0) = []
      · simp [hzones, enqueueAll]
      · simp [hzones, enqueueAll]
    · have hnone : [i].filter (congestion · = 0) = [] :=
        List.filter_eq_nil_iff.mpr fun j hj => by
          rw [List.mem_singleton.mp hj]
          exact decide_eq_false h0 ▸ Bool.false_ne_true
      rw [if_neg h0, hnone, List.append_nil]

theorem guideEnqueue_eq (q : AudioQueue) (congestion : Fin 8 → UInt8) :
    q.guideEnqueue congestion = q.enqueueAll (announcement congestion) := by
  unfold guideEnqueue
  rw [foldl_guideZone]
  dsimp only [announcement]
  by_cases hzones : (List.finRange 8).filter (congestion · = 0) = []
  · rw [if_neg (not_not_intro hzones), if_neg (not_not_intro hzones)]
    by_cases hall : ∀ i, congestion i = 2
    · simp [hall, enqueueAll]
    · simp [hzones, hall, enqueueAll]
  · rw [if_pos hzones, if_pos hzones]
    simp [hzones, enqueueAll]

theorem length_name_le (congestion : Fin 8 → UInt8) :
    ∀ name ∈ announcement congestion, name.length ≤ playerNameMax - 1 := by
  have hguide : ∀ i, (guideName i).length ≤ playerNameMax - 1 := by decide
  intro name hname
  unfold announcement at hname
  dsimp only at hname
  split_ifs at hname
  · rcases List.mem_append.mp hname with hname | hname
    · rcases List.mem_cons.mp hname with rfl | hname
      · decide
      · obtain ⟨i, -, rfl⟩ := List.mem_map.mp hname
        exact hguide i
    · rw [List.mem_singleton.mp hname]
      decide
  · rw [List.mem_singleton.mp hname]
    decide
  · cases hname

theorem wellFormed_enqueueAll (h : q.WellFormed) (names : List String) :
    (q.enqueueAll names).WellFormed := by
  induction names generalizing q with
  | nil => exact h
  | cons name names ih => exact ih (wellFormed_enqueue h name)

theorem contents_enqueueAll (h : q.WellFormed) {names : List String}
    (hnames : ∀ name ∈ names, name.length ≤ playerNameMax - 1) :
    (q.enqueueAll names).contents =
      q.contents ++ names.take (playerQueueMax - 1 - q.contents.length) := by
  induction names generalizing q with
  | nil => rw [List.take_nil, List.append_nil]; rfl
  | cons name names ih =>
    obtain ⟨hname, hrest⟩ := List.forall_mem_cons.mp hnames
    have hlt := length_contents_lt h
    have hnext := contents_enqueue h name
    rw [strncpy_eq hname] at hnext
    rw [enqueueAll, List.foldl_cons, ← enqueueAll, ih (wellFormed_enqueue h name) hrest, hnext]
    by_cases hroom : q.contents.length < playerQueueMax - 1
    · rw [if_pos hroom, List.length_append, List.length_singleton, List.append_assoc]
      obtain ⟨room, hr⟩ : ∃ room, playerQueueMax - 1 - q.contents.length = room + 1 :=
        ⟨playerQueueMax - 1 - q.contents.length - 1, by omega⟩
      have hr' : playerQueueMax - 1 - (q.contents.length + 1) = room := by omega
      rw [hr, hr', List.take_succ_cons]
      rfl
    · have hzero : playerQueueMax - 1 - q.contents.length = 0 := by omega
      rw [if_neg hroom, hzero, List.take_zero, List.take_zero]

theorem contents_guideEnqueue (h : q.WellFormed) (congestion : Fin 8 → UInt8) :
    (q.guideEnqueue congestion).contents = q.contents ++
      (announcement congestion).take (playerQueueMax - 1 - q.contents.length) := by
  rw [guideEnqueue_eq, contents_enqueueAll h (length_name_le congestion)]

end AudioQueue

inductive QueueStep
  | guide (congestion : Fin 8 → UInt8)
  | dequeue

def audioQueue : Machine AudioQueue QueueStep Unit where
  step q
    | .guide congestion => (q.guideEnqueue congestion, ())
    | .dequeue => (q.dequeue.1, ())

namespace AudioQueue

def WholeAnnouncements (names : List String) : Prop :=
  ∃ (first : Fin 8 → UInt8) (k : ℕ) (rest : List (Fin 8 → UInt8)),
    names = (announcement first).drop k ++ (rest.map announcement).flatten

/-- A guide that fits is appended, and one that does not leaves the queue unchanged. -/
def GuideKept (q : AudioQueue) : QueueStep → Prop
  | .guide congestion => (q.guideEnqueue congestion).contents =
      if q.contents.length + (announcement congestion).length ≤ playerQueueMax - 1 then
        q.contents ++ announcement congestion
      else q.contents
  | .dequeue => True

/-- The announcement fits into the free slots, or there is none. -/
def AllOrNothing (q : AudioQueue) : QueueStep → Prop
  | .guide congestion =>
      q.contents.length + (announcement congestion).length ≤ playerQueueMax - 1 ∨
        q.contents.length = playerQueueMax - 1
  | .dequeue => True

theorem wellFormed_run (steps : List QueueStep) : (audioQueue.run empty steps).WellFormed := by
  apply Machine.invariant_run (I := WellFormed)
  · intro q x h
    cases x with
    | guide congestion =>
      simp only [Machine.next, audioQueue, guideEnqueue_eq]
      exact wellFormed_enqueueAll h _
    | dequeue => exact wellFormed_dequeue h
  · exact wellFormed_empty

def Closing (name : String) : Prop := name = "guide_end.wav" ∨ name = "warning.wav"

theorem announcement_cases (congestion : Fin 8 → UInt8) :
    announcement congestion = [] ∨ ∃ body last,
      announcement congestion = body ++ [last] ∧ Closing last ∧ ∀ name ∈ body, ¬ Closing name := by
  have hguide : ∀ i, ¬ (guideName i = "guide_end.wav" ∨ guideName i = "warning.wav") := by decide
  unfold announcement
  dsimp only
  split_ifs
  · right
    refine ⟨_, _, rfl, .inl rfl, ?_⟩
    intro name hname
    rcases List.mem_cons.mp hname with rfl | hname
    · unfold Closing
      decide
    · obtain ⟨i, -, rfl⟩ := List.mem_map.mp hname
      exact hguide i
  · right
    exact ⟨[], _, rfl, .inr rfl, fun _ h => absurd h List.not_mem_nil⟩
  · exact .inl rfl

def EndsClosing (names : List String) : Prop := ∀ name ∈ names.getLast?, Closing name

theorem EndsClosing.append {xs ys : List String} (hx : EndsClosing xs) (hy : EndsClosing ys) :
    EndsClosing (xs ++ ys) := by
  intro name hname
  rw [List.getLast?_append] at hname
  rcases Option.or_eq_some_iff.mp hname with hlast | ⟨-, hlast⟩
  · exact hy name hlast
  · exact hx name hlast

theorem endsClosing_drop (congestion : Fin 8 → UInt8) (k : ℕ) :
    EndsClosing ((announcement congestion).drop k) := by
  intro name hname
  rw [List.getLast?_drop] at hname
  split_ifs at hname
  · cases hname
  · rcases announcement_cases congestion with hnil | ⟨body, last, hsplit, hlast, -⟩
    · rw [hnil] at hname
      cases hname
    · rw [hsplit, List.getLast?_concat] at hname
      cases hname
      exact hlast

theorem endsClosing_flatten (rest : List (Fin 8 → UInt8)) :
    EndsClosing (rest.map announcement).flatten := by
  induction rest with
  | nil => exact fun _ h => by cases h
  | cons congestion rest ih => exact (endsClosing_drop congestion 0).append ih

theorem WholeAnnouncements.endsClosing {names : List String} (h : WholeAnnouncements names) :
    EndsClosing names := by
  obtain ⟨first, k, rest, rfl⟩ := h
  exact (endsClosing_drop first k).append (endsClosing_flatten rest)

theorem WholeAnnouncements.tail {names : List String} (h : WholeAnnouncements names) :
    WholeAnnouncements names.tail := by
  obtain ⟨first, k, rest, rfl⟩ := h
  induction rest generalizing first k with
  | nil =>
    refine ⟨first, k + 1, [], ?_⟩
    simp only [List.map_nil, List.flatten_nil, List.append_nil, List.tail_drop]
  | cons congestion rest ih =>
    by_cases hnil : (announcement first).drop k = []
    · rw [hnil, List.nil_append]
      exact ih congestion 0
    · refine ⟨first, k + 1, congestion :: rest, ?_⟩
      rw [List.tail_append_of_ne_nil hnil, List.tail_drop]

/-- A guide keeps the announcements whole exactly when it is all or nothing. -/
theorem whole_guide_iff {q : AudioQueue} (hwf : q.WellFormed) (h : WholeAnnouncements q.contents)
    (congestion : Fin 8 → UInt8) :
    WholeAnnouncements (q.guideEnqueue congestion).contents ↔
      q.AllOrNothing (.guide congestion) := by
  have hlt := length_contents_lt hwf
  rw [contents_guideEnqueue hwf]
  simp only [playerQueueMax, AllOrNothing, Nat.reduceSub] at hlt ⊢
  constructor
  · intro hwhole
    by_contra hcut
    rcases announcement_cases congestion with hnil | ⟨body, last, hsplit, -, hbody⟩
    · rw [hnil, List.length_nil] at hcut
      omega
    · rw [hsplit, List.length_append, List.length_singleton] at hcut
      rw [hsplit, List.take_append_of_le_length (by omega)] at hwhole
      have hne : body.take (15 - q.contents.length) ≠ [] := by
        rw [← List.length_pos_iff, List.length_take]
        omega
      apply hbody _ (List.mem_of_mem_take (List.getLast_mem hne))
      apply hwhole.endsClosing
      rw [List.getLast?_append, List.getLast?_eq_some_getLast hne]
      rfl
  · rintro (hfits | hfull)
    · obtain ⟨first, k, rest, hcontents⟩ := h
      refine ⟨first, k, rest ++ [congestion], ?_⟩
      rw [List.take_of_length_le (by omega), hcontents]
      simp
    · rw [hfull, Nat.sub_self, List.take_zero, List.append_nil]
      exact h

theorem guideKept_iff {q : AudioQueue} (hwf : q.WellFormed) (x : QueueStep) :
    q.GuideKept x ↔ q.AllOrNothing x := by
  have hlt := length_contents_lt hwf
  cases x with
  | dequeue => exact Iff.rfl
  | guide congestion =>
    simp only [GuideKept, AllOrNothing, contents_guideEnqueue hwf]
    simp only [playerQueueMax, Nat.reduceSub] at hlt ⊢
    by_cases hfits : q.contents.length + (announcement congestion).length ≤ 15
    · rw [if_pos hfits, List.take_of_length_le (by omega)]
      exact iff_of_true rfl (.inl hfits)
    · rw [if_neg hfits, List.append_right_eq_self, ← List.length_eq_zero_iff, List.length_take]
      omega

end AudioQueue

open AudioQueue

/-- The queue holds whole announcements, behind what is left of one, throughout a run exactly when
every guide fits or meets a full queue; and so does it take every guide whole or not at all. -/
theorem announcements_whole_iff (steps : List QueueStep) :
    ((∀ ys, ys <+: steps → WholeAnnouncements (audioQueue.run .empty ys).contents) ↔
      audioQueue.Along AllOrNothing .empty steps) ∧
    ((∀ ys x, ys ++ [x] <+: steps → (audioQueue.run .empty ys).GuideKept x) ↔
      audioQueue.Along AllOrNothing .empty steps) := by
  constructor
  · apply Machine.prefixes_iff_along (I := fun ys =>
      WholeAnnouncements (audioQueue.run .empty ys).contents) ⟨fun _ => 1, 0, [], rfl⟩
    intro ys x _ h
    rw [Machine.run_concat]
    cases x with
    | guide congestion => exact whole_guide_iff (wellFormed_run ys) h congestion
    | dequeue =>
      refine iff_of_true ?_ trivial
      have hnext : (audioQueue.next (audioQueue.run .empty ys) .dequeue).contents =
          (audioQueue.run .empty ys).contents.tail := contents_dequeue (wellFormed_run ys)
      rw [hnext]
      exact h.tail
  · rw [Machine.along_iff_forall_prefix]
    exact forall₂_congr fun ys x => forall_congr' fun _ => guideKept_iff (wellFormed_run ys) x

/-- Two announcements for eight empty zones: the second one loses its last five names. -/
theorem second_announcement_cut :
    ¬ ∀ steps : List QueueStep, WholeAnnouncements (audioQueue.run .empty steps).contents := by
  intro hall
  obtain ⟨zero, hlength⟩ : ∃ congestion, (announcement congestion).length = 10 :=
    ⟨fun _ => 0, by decide⟩
  have hcontents : (audioQueue.run .empty [.guide zero]).contents = announcement zero := by
    have hguide := contents_guideEnqueue wellFormed_empty zero
    have hempty : empty.contents = [] :=
      List.eq_nil_of_length_eq_zero (length_contents wellFormed_empty)
    rw [hempty, List.length_nil, List.nil_append, List.take_of_length_le (by rw [hlength]; decide)]
      at hguide
    exact hguide
  have hwhole := hall ([.guide zero] ++ [.guide zero])
  rw [Machine.run_concat] at hwhole
  have hcut := (whole_guide_iff (wellFormed_run [.guide zero]) (hall _) zero).mp hwhole
  rw [AllOrNothing, hcontents, hlength] at hcut
  revert hcut
  decide

end JeogiAt.Audio
