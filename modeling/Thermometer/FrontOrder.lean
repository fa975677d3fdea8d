import Thermometer.FrontEnd
import Thermometer.Lib.Runs

namespace Thermometer.FrontOrder

open Lib.Partition Lib.Runs QueueBuffer QueueDelay FrontEnd

section Contents

variable {α β : Type} {b : CircularBuffer α} {f : α → α} {item x : α} {n count : Nat}

def contents (b : CircularBuffer α) : List α := (List.range' b.head b.occupancy).map b.get

theorem occupancy_eq (b : CircularBuffer α) : b.occupancy = b.tail - b.head := rfl

theorem contents_put (h : b.full = false) : contents (b.put item h) = contents b ++ [item] := by
  have hle := b.head_le
  have hsucc : (b.put item h).occupancy = b.occupancy + 1 := by
    rw [occupancy_eq, occupancy_eq, put_tail, put_head]
    omega
  have hend : b.head + b.occupancy = b.tail := Nat.add_sub_cancel' hle
  rw [contents, hsucc, put_head, List.range'_1_concat, List.map_append, hend, List.map_singleton,
    put_get_tail, contents]
  congr 1
  apply List.map_congr_left
  intro n hn
  rw [List.mem_range'_1, hend] at hn
  exact put_get h hn.1 hn.2

theorem contents_drop (h : b.empty = false) : contents b = b.front :: contents (b.drop h) := by
  have hpos := remaining h
  have hcount : b.occupancy = (b.drop h).occupancy + 1 := by
    rw [occupancy_eq, occupancy_eq, drop_tail, drop_head]
    omega
  rw [contents, hcount, List.range'_succ, List.map_cons]
  rfl

theorem front_mem (h : b.empty = false) : b.front ∈ contents b := contents_drop h ▸ List.mem_cons_self

theorem get_mem (hge : b.head ≤ n) (hlt : n < b.tail) : b.get n ∈ contents b := by
  apply List.mem_map_of_mem
  rw [List.mem_range'_1, occupancy_eq]
  omega

theorem mem_modify (h : x ∈ contents (b.modify f n)) :
    x ∈ contents b ∨ (b.get n ∈ contents b ∧ x = f (b.get n)) := by
  obtain ⟨m, hm, rfl⟩ := List.mem_map.mp h
  by_cases hslot : m % b.size = n % b.size
  · right
    have hsame : b.get m = b.get n := congrArg b.entry hslot
    refine ⟨hsame ▸ List.mem_map_of_mem hm, ?_⟩
    show Function.update b.entry (n % b.size) (f (b.get n)) (m % b.size) = f (b.get n)
    rw [hslot, Function.update_self]
  · left
    rw [modify_get_of_ne hslot]
    exact List.mem_map_of_mem hm

theorem map_modify {g : α → β} (hg : ∀ x, g (f x) = g x) (b : CircularBuffer α) (n : Nat) :
    (contents (b.modify f n)).map g = (contents b).map g := by
  rw [contents, contents, List.map_map, List.map_map]
  apply List.map_congr_left
  intro m _
  show g ((b.modify f n).get m) = g (b.get m)
  by_cases hslot : m % b.size = n % b.size
  · have hsame : b.get m = b.get n := congrArg b.entry hslot
    have hnew : (b.modify f n).get m = f (b.get n) := by
      show Function.update b.entry (n % b.size) (f (b.get n)) (m % b.size) = f (b.get n)
      rw [hslot, Function.update_self]
    rw [hnew, hg, hsame]
  · rw [modify_get_of_ne hslot]

theorem modifyFrom_rule {J : CircularBuffer α → Prop} (hJ : ∀ b n, J b → J (b.modify f n)) (hb : J b) :
    J (b.modifyFrom f count n) := by
  induction count generalizing b n with
  | zero => exact hb
  | succ count ih => exact ih (hJ b n hb)

end Contents

structure Ready (q : DelayQueue Instr) : Prop where
  ge : q.buf.head ≤ q.endReady
  le : q.endReady ≤ q.buf.tail

section Queues

variable {q : DelayQueue Instr} {x : Instr} {delay : Int}

theorem ready_initial (size latency : Nat) : Ready (.initial size latency) := ⟨le_rfl, le_rfl⟩

theorem Ready.put (h : Ready q) (hfull : q.buf.full = false) : Ready (q.put x delay hfull) :=
  ⟨h.ge, h.le.trans (Nat.le_succ _)⟩

theorem Ready.nonempty (h : Ready q) (hready : q.hasReady = true) : q.buf.empty = false := by
  have hge := h.ge
  have hle := h.le
  have hne : q.buf.head ≠ q.endReady := bne_iff_ne.mp hready
  apply beq_eq_false_iff_ne.mpr
  rw [occupancy_eq]
  omega

theorem Ready.drop (h : Ready q) (hready : q.hasReady = true) (hempty : q.buf.empty = false) :
    Ready (q.drop hempty) := by
  have hge := h.ge
  have hne : q.buf.head ≠ q.endReady := bne_iff_ne.mp hready
  refine ⟨?_, h.le⟩
  show q.buf.head + 1 ≤ q.endReady
  omega

theorem exists_push (hfull : q.buf.full = false) (ready : Bool) (x : Instr) :
    ∃ delay, push q ready x = some (q.put x delay hfull) := by
  rw [push]
  split_ifs
  · exact ⟨0, dif_pos hfull⟩
  · exact ⟨q.latency, dif_pos hfull⟩

theorem search_le {p : Nat → Bool} {fuel first len : Nat} : search p fuel first len ≤ first + len := by
  induction fuel generalizing first len with
  | zero => exact Nat.le_add_right _ _
  | succ fuel ih =>
      rw [search]
      split_ifs with hlen hp
      · omega
      · have hle := @ih (first + len / 2 + 1) (len - len / 2 - 1)
        omega
      · have hle := @ih first (len / 2)
        omega

theorem ready_operate (q : DelayQueue Instr) : Ready q.operate := by
  have hle := q.buf.head_le
  have hsearch : delayIt (countDown q.delays) ≤ (countDown q.delays).head +
      ((countDown q.delays).tail - (countDown q.delays).head) := search_le
  have hhead : (countDown q.delays).head = q.buf.head := forEach_head.trans q.head_eq
  have htail : (countDown q.delays).tail = q.buf.tail := forEach_tail.trans q.tail_eq
  refine ⟨Nat.le_add_right _ _, ?_⟩
  show q.buf.head + (delayIt (countDown q.delays) - (countDown q.delays).head) ≤ q.buf.tail
  rw [hhead, htail] at hsearch
  rw [hhead]
  omega

end Queues

section Rules

variable {I : State → Prop} {c : Config} {s : State}

/-- What moves one instruction to the decode buffer keeps, the whole loop keeps, and no push or pop
of it fails. -/
theorem sendToDecode_rule
    (hI : ∀ s delay (he : s.ifetchBuffer.empty = false) (hf : s.decodeBuffer.buf.full = false), I s →
      s.ifetchBuffer.front.translated = .completed → s.ifetchBuffer.front.fetched = .completed →
      I { s with
          decodeBuffer := s.decodeBuffer.put s.ifetchBuffer.front delay hf
          ifetchBuffer := s.ifetchBuffer.drop he })
    (bandwidth : Nat) (hs : I s) : ∃ t, sendToDecode bandwidth s = some t ∧ I t := by
  induction bandwidth generalizing s with
  | zero => exact ⟨s, rfl, hs⟩
  | succ bandwidth ih =>
      rw [sendToDecode]
      by_cases hcond : s.ifetchBuffer.empty = false ∧ s.decodeBuffer.buf.full = false ∧
          s.ifetchBuffer.front.translated = .completed ∧ s.ifetchBuffer.front.fetched = .completed
      · obtain ⟨he, hf, ht, hfetched⟩ := hcond
        obtain ⟨delay, hpush⟩ := exists_push hf (!s.warmupComplete || s.ifetchBuffer.front.decoded != .idle)
          s.ifetchBuffer.front
        have hpop : s.ifetchBuffer.popFront = some (s.ifetchBuffer.drop he) := dif_pos he
        simp only [he, hf, ht, hfetched, and_self, if_true, hpush, hpop, Option.bind_eq_bind, Option.bind_some]
        exact ih (hI s delay he hf hs ht hfetched)
      · rw [if_neg hcond]
        exact ⟨s, rfl, hs⟩

theorem sendToDispatch_rule (hready : ∀ s, I s → Ready s.decodeBuffer)
    (hI : ∀ s delay (he : s.decodeBuffer.buf.empty = false) (hf : s.dispatchBuffer.buf.full = false), I s →
      s.decodeBuffer.hasReady = true →
      I { updateDib c s s.decodeBuffer.buf.front.ip with
          dispatchBuffer := s.dispatchBuffer.put s.decodeBuffer.buf.front delay hf
          decodeBuffer := s.decodeBuffer.drop he })
    (bandwidth : Nat) (hs : I s) : ∃ t, sendToDispatch c bandwidth s = some t ∧ I t := by
  induction bandwidth generalizing s with
  | zero => exact ⟨s, rfl, hs⟩
  | succ bandwidth ih =>
      rw [sendToDispatch]
      by_cases hcond : s.decodeBuffer.hasReady = true ∧ s.dispatchBuffer.buf.full = false
      · obtain ⟨hr, hf⟩ := hcond
        have he := (hready s hs).nonempty hr
        obtain ⟨delay, hpush⟩ := exists_push hf (!s.warmupComplete) s.decodeBuffer.buf.front
        have hpop : s.decodeBuffer.popFront = some (s.decodeBuffer.drop he) := dif_pos he
        simp only [hr, hf, and_self, if_true, updateDib, hpush, hpop, Option.bind_eq_bind, Option.bind_some]
        exact ih (hI s delay he hf hs hr)
      · rw [if_neg hcond]
        exact ⟨s, rfl, hs⟩

theorem sendToRob_rule (hready : ∀ s, I s → Ready s.dispatchBuffer)
    (hI : ∀ s (he : s.dispatchBuffer.buf.empty = false), I s → s.dispatchBuffer.hasReady = true →
      I { s with
          dispatchBuffer := s.dispatchBuffer.drop he
          entered := s.entered ++ [s.dispatchBuffer.buf.front] })
    (bandwidth room : Nat) (hs : I s) : ∃ t, sendToRob bandwidth room s = some t ∧ I t := by
  induction bandwidth generalizing s room with
  | zero => exact ⟨s, rfl, hs⟩
  | succ bandwidth ih =>
      cases room with
      | zero => exact ⟨s, rfl, hs⟩
      | succ room =>
          rw [sendToRob]
          by_cases hr : s.dispatchBuffer.hasReady = true
          · have he := (hready s hs).nonempty hr
            have hpop : s.dispatchBuffer.popFront = some (s.dispatchBuffer.drop he) := dif_pos he
            simp only [if_pos hr, hpop, Option.bind_eq_bind, Option.bind_some]
            exact ih room (hI s he hs hr)
          · rw [if_neg hr]
            exact ⟨s, rfl, hs⟩

variable {J : CircularBuffer Instr → Prop} {accepts : Instr → Bool} {mark : Instr → Instr}

theorem serveDependents_rule (hJ : ∀ b n, J b → accepts (b.get n) = true → J (b.modify mark n))
    (deps : List Nat) (bandwidth : Nat) {b : CircularBuffer Instr} (hb : J b) :
    J (serveDependents accepts mark deps bandwidth b).1 := by
  induction deps generalizing bandwidth b with
  | nil => exact hb
  | cons n deps ih =>
      cases bandwidth with
      | zero => exact hb
      | succ bandwidth =>
          rw [serveDependents]
          split_ifs with hcond
          · exact ih bandwidth (hJ b n hb hcond)
          · exact ih (bandwidth + 1) hb

/-- Whatever the packets say of whom they are for, all that they do are writes to instructions that
they match. -/
theorem serveReturns_rule (accepts : Return → Instr → Bool)
    (mark : Return → Instr → Instr) {Q : Nat → Nat → Prop}
    (hJ : ∀ p b n, Q p.address p.data → J b → accepts p (b.get n) = true → J (b.modify (mark p) n))
    (cycle toRead bandwidth : Nat) {b : CircularBuffer Instr} {ps : List Return} (hb : J b)
    (hps : ∀ p ∈ ps, Q p.address p.data) :
    J (serveReturns accepts mark cycle toRead bandwidth (b, ps)).1 ∧
      ∀ p ∈ (serveReturns accepts mark cycle toRead bandwidth (b, ps)).2, Q p.address p.data := by
  induction toRead generalizing bandwidth b ps with
  | zero => exact ⟨hb, hps⟩
  | succ toRead ih =>
      cases ps with
      | nil => exact ⟨hb, hps⟩
      | cons p rest =>
          rw [serveReturns]
          split_ifs with hcond
          · apply ih
            · exact serveDependents_rule (fun b n => hJ p b n (hps p List.mem_cons_self)) _ _ hb
            · intro r hr
              split_ifs at hr
              · exact hps r (List.mem_cons_of_mem p hr)
              · rcases List.mem_cons.mp hr with rfl | hr
                · exact hps p List.mem_cons_self
                · exact hps r (List.mem_cons_of_mem p hr)
          · exact ⟨hb, hps⟩

end Rules

def beforeFetch (s : State) : List Instr := contents s.ifetchBuffer

/-- The instructions that have been decoded, in the order in which they were. -/
def afterDecode (s : State) : List Instr := s.entered ++ contents s.dispatchBuffer.buf

def afterFetch (s : State) : List Instr := afterDecode s ++ contents s.decodeBuffer.buf

/-- All instructions that have been read, those furthest in the pipeline first. -/
def inOrder (s : State) : List Instr := afterFetch s ++ beforeFetch s

def key (x : Instr) : Nat × Nat := (x.ip, x.instrId)

structure Ordered (c : Config) (s : State) : Prop where
  order : (inOrder s).map key = s.traceRead.zipIdx
  count : s.instrUniqueId = s.traceRead.length
  size : s.ifetchBuffer.size = c.ifetchSize
  room : s.instrsToReadThisCycle ≤ c.ifetchSize - s.ifetchBuffer.occupancy
  decodeReady : Ready s.decodeBuffer
  dispatchReady : Ready s.dispatchBuffer

section Steps

variable {c : Config} {s : State}

theorem ordered_initial (c : Config) : Ordered c (.initial c) :=
  ⟨rfl, rfl, rfl, Nat.zero_le _, ready_initial _ _, ready_initial _ _⟩

structure SameKeys (b b' : CircularBuffer Instr) : Prop where
  keys : (contents b').map key = (contents b).map key
  head : b'.head = b.head
  tail : b'.tail = b.tail
  size : b'.size = b.size

theorem SameKeys.modify {b b' : CircularBuffer Instr} {f : Instr → Instr} (h : SameKeys b b') (n : Nat)
    (hf : ∀ x, key (f x) = key x) : SameKeys b (b'.modify f n) :=
  ⟨(map_modify hf b' n).trans h.keys, h.head, h.tail, h.size⟩

theorem SameKeys.refl (b : CircularBuffer Instr) : SameKeys b b := ⟨rfl, rfl, rfl, rfl⟩

theorem Ordered.mark {t : State} (h : Ordered c s) (hb : SameKeys s.ifetchBuffer t.ifetchBuffer)
    (hleft : afterFetch t = afterFetch s) (hread : t.traceRead = s.traceRead)
      (hid : t.instrUniqueId = s.instrUniqueId)
    (hto : t.instrsToReadThisCycle = s.instrsToReadThisCycle) (hdec : t.decodeBuffer = s.decodeBuffer)
    (hdis : t.dispatchBuffer = s.dispatchBuffer) : Ordered c t := by
  refine ⟨?_, ?_, hb.size.trans h.size, ?_, hdec ▸ h.decodeReady, hdis ▸ h.dispatchReady⟩
  · have horder := h.order
    rw [inOrder, List.map_append, beforeFetch] at horder ⊢
    rw [hb.keys, hleft, hread]
    exact horder
  · rw [hid, hread]
    exact h.count
  · rw [hto, occupancy_eq, hb.head, hb.tail]
    exact h.room

theorem checkDib_frame (c : Config) (s : State) (n : Nat) :
    ∃ b d, checkDib c s n = { s with ifetchBuffer := b, dib := d } ∧
    SameKeys s.ifetchBuffer b := by
  rw [checkDib]
  cases findWay c (s.dib (dibIndex c (s.ifetchBuffer.get n).ip)) (s.ifetchBuffer.get n).ip with
  | none => exact ⟨s.ifetchBuffer, s.dib, rfl, .refl _⟩
  | some way => exact ⟨_, _, rfl, (SameKeys.refl _).modify n (fun _ => rfl)⟩

theorem Ordered.checkDib (h : Ordered c s) (n : Nat) : Ordered c (checkDib c s n) := by
  obtain ⟨b, d, heq, hb⟩ := checkDib_frame c s n
  rw [heq]
  exact h.mark hb rfl rfl rfl rfl rfl rfl

theorem sameKeys_range {f : Instr → Instr} (hf : ∀ x, key (f x) = key x) (b : CircularBuffer Instr)
    (count n : Nat) :
    SameKeys b (b.modifyFrom f count n) :=
  modifyFrom_rule (J := SameKeys b) (fun _ n h => h.modify n hf) (.refl b)

theorem Ordered.requestTranslation (h : Ordered c s) (accepts : Bool) :
    Ordered c (requestTranslation s accepts) := by
  rw [FrontEnd.requestTranslation]
  split_ifs
  · exact h.mark (sameKeys_range (f := askTranslation) (fun _ => rfl) _ _ _) rfl rfl rfl rfl rfl rfl
  · exact h

theorem Ordered.requestLine (h : Ordered c s) (accepts : Bool) : Ordered c (requestLine s accepts) := by
  rw [FrontEnd.requestLine]
  split_ifs
  · exact h.mark (sameKeys_range (f := askLine) (fun _ => rfl) _ _ _) rfl rfl rfl rfl rfl rfl
  · exact h

theorem Ordered.toDecode (h : Ordered c s) {delay : Int} (he : s.ifetchBuffer.empty = false)
    (hf : s.decodeBuffer.buf.full = false) :
    Ordered c { s with
      decodeBuffer := s.decodeBuffer.put s.ifetchBuffer.front delay hf
      ifetchBuffer := s.ifetchBuffer.drop he } := by
  refine ⟨?_, h.count, h.size, h.room.trans ?_, h.decodeReady.put hf, h.dispatchReady⟩
  · rw [← h.order]
    simp only [inOrder, afterFetch, afterDecode, beforeFetch, DelayQueue.put, contents_put, contents_drop he,
      List.append_assoc, List.singleton_append]
  · show c.ifetchSize - (s.ifetchBuffer.tail - s.ifetchBuffer.head) ≤
      c.ifetchSize - (s.ifetchBuffer.tail - (s.ifetchBuffer.head + 1))
    omega

theorem Ordered.toDispatch (h : Ordered c s) {delay : Int} (he : s.decodeBuffer.buf.empty = false)
    (hf : s.dispatchBuffer.buf.full = false) (hr : s.decodeBuffer.hasReady = true) (ip : Nat) :
    Ordered c { updateDib c s ip with
      dispatchBuffer := s.dispatchBuffer.put s.decodeBuffer.buf.front delay hf
      decodeBuffer := s.decodeBuffer.drop he } := by
  refine ⟨?_, h.count, h.size, h.room, h.decodeReady.drop hr he, h.dispatchReady.put hf⟩
  rw [updateDib, ← h.order]
  simp only [inOrder, afterFetch, afterDecode, beforeFetch, DelayQueue.put, DelayQueue.drop, contents_put,
    contents_drop he, List.append_assoc, List.singleton_append]

theorem Ordered.toRob (h : Ordered c s) (he : s.dispatchBuffer.buf.empty = false)
    (hr : s.dispatchBuffer.hasReady = true) :
    Ordered c { s with
      dispatchBuffer := s.dispatchBuffer.drop he
      entered := s.entered ++ [s.dispatchBuffer.buf.front] } := by
  refine ⟨?_, h.count, h.size, h.room, h.decodeReady, h.dispatchReady.drop hr he⟩
  rw [← h.order]
  simp only [inOrder, afterFetch, afterDecode, beforeFetch, DelayQueue.drop, contents_drop he,
    List.append_assoc,
    List.singleton_append]

theorem Ordered.readTrace (h : Ordered c s) (ip : Nat) (ends stalled : Bool) :
    ∃ t, readTrace c s ip ends stalled = some t ∧ Ordered c t := by
  rw [FrontEnd.readTrace]
  by_cases hskip : s.instrsToReadThisCycle = 0 ∧ (s.ifetchBuffer.full = true ∨ stalled = true)
  · rw [if_pos hskip]
    exact ⟨s, rfl, h⟩
  rw [if_neg hskip]
  have hroom := h.room
  have hhead := s.ifetchBuffer.head_le
  have htail := s.ifetchBuffer.tail_le
  have hwidth := c.fetchWidth_pos
  rw [occupancy_eq] at hroom
  rw [h.size] at htail
  have hfull : s.ifetchBuffer.full = false := by
    cases hfull : s.ifetchBuffer.full with
    | false => rfl
    | true =>
        have hzero : s.instrsToReadThisCycle ≠ 0 := fun hzero => hskip ⟨hzero, .inl hfull⟩
        have heq : s.ifetchBuffer.tail - s.ifetchBuffer.head = s.ifetchBuffer.size := beq_iff_eq.mp hfull
        rw [h.size] at heq
        omega
  have hpush : s.ifetchBuffer.pushBack ⟨s.instrUniqueId, ip, 0, .idle, .idle, .idle⟩ =
      some (s.ifetchBuffer.put ⟨s.instrUniqueId, ip, 0, .idle, .idle, .idle⟩ hfull) := dif_pos hfull
  rw [initInstruction, hpush, Option.map_some]
  refine ⟨_, rfl, ?_, ?_, h.size, ?_, h.decodeReady, h.dispatchReady⟩
  · have horder := h.order
    rw [inOrder, List.map_append] at horder
    simp only [inOrder, afterFetch, afterDecode, beforeFetch, contents_put, List.map_append] at horder ⊢
    rw [← List.append_assoc, horder, List.zipIdx_append, h.count, List.map_singleton,
      List.zipIdx_singleton, Nat.zero_add]
    rfl
  · simp only [List.length_append, List.length_singleton, h.count]
  · show (if ends = true then 0 else
        (if s.instrsToReadThisCycle = 0 then min c.fetchWidth
          (c.ifetchSize - (s.ifetchBuffer.tail - s.ifetchBuffer.head))
          else s.instrsToReadThisCycle) - 1) ≤ c.ifetchSize - (s.ifetchBuffer.tail + 1 - s.ifetchBuffer.head)
    split_ifs <;> omega

theorem Ordered.scanDib (h : Ordered c s) : Ordered c (scanDib c s) := by
  rw [FrontEnd.scanDib]
  generalize List.range' s.ifetchBuffer.head (min s.ifetchBuffer.occupancy c.fetchWidth) = ns
  induction ns generalizing s with
  | nil => exact h
  | cons n ns ih => exact ih (h.checkDib n)

theorem Ordered.step (h : Ordered c s) (ev : Event) : ∃ t, step c s ev = some t ∧ Ordered c t := by
  cases ev with
  | cycle => exact ⟨_, rfl, h.order, h.count, h.size, h.room, h.decodeReady, h.dispatchReady⟩
  | finishWarmup => exact ⟨_, rfl, h.order, h.count, h.size, h.room, h.decodeReady, h.dispatchReady⟩
  | read ip ends stalled => exact h.readTrace ip ends stalled
  | fetch itlbAccepts l1iAccepts =>
      simp only [FrontEnd.step, fetchInstruction]
      split_ifs
      · exact ⟨s, rfl, h⟩
      · exact sendToDecode_rule (fun _ _ he hf hs _ _ => hs.toDecode he hf) _
          ((h.scanDib.requestTranslation itlbAccepts).requestLine l1iAccepts)
  | decode =>
      simp only [FrontEnd.step, decodeInstruction]
      split_ifs
      · exact ⟨s, rfl, h⟩
      · obtain ⟨t, ht, hord⟩ := sendToDispatch_rule (c := c) (fun _ hs => hs.decodeReady)
          (fun _ _ he hf hs hr => hs.toDispatch he hf hr _) c.decodeWidth h
        rw [ht]
        exact ⟨_, rfl, hord.order, hord.count, hord.size, hord.room, ready_operate _, hord.dispatchReady⟩
  | dispatch room =>
      simp only [FrontEnd.step, dispatchInstruction]
      split_ifs
      · exact ⟨s, rfl, h⟩
      · obtain ⟨t, ht, hord⟩ := sendToRob_rule (fun _ hs => hs.dispatchReady) (fun _ he hs hr => hs.toRob he hr)
          c.dispatchWidth room h
        rw [ht]
        exact ⟨_, rfl, hord.order, hord.count, hord.size, hord.room, hord.decodeReady, ready_operate _⟩
  | memoryReturn =>
      refine ⟨_, rfl, ?_⟩
      have hitlb := (serveReturns_rule samePage markTranslated (J := SameKeys s.ifetchBuffer)
        (Q := fun _ _ => True) (fun _ _ n _ hb _ => hb.modify n (fun _ => rfl)) s.currentCoreCycle c.itlbMaxRead
        c.fetchWidth (.refl _) (fun p (_ : p ∈ s.itlbProcessed) => trivial)).1
      have hl1i := (serveReturns_rule sameLine markFetched (J := SameKeys s.ifetchBuffer)
        (Q := fun _ _ => True) (fun _ _ n _ hb _ => hb.modify n (fun _ => rfl)) s.currentCoreCycle c.l1iMaxRead
        c.fetchWidth hitlb (fun p (_ : p ∈ s.l1iProcessed) => trivial)).1
      exact h.mark hl1i rfl rfl rfl rfl rfl rfl
  | itlbReturns p => exact ⟨_, rfl, h.order, h.count, h.size, h.room, h.decodeReady, h.dispatchReady⟩
  | l1iReturns p => exact ⟨_, rfl, h.order, h.count, h.size, h.room, h.decodeReady, h.dispatchReady⟩

end Steps

/-- Whatever the caches do and whenever each stage has its turn, no buffer of the front end is
overrun, and the instructions that were read enter the reorder buffer once each, in the order of the
trace. -/
theorem program_order (c : Config) (evs : List Event) :
    ∃ s, run (step c) (.initial c) evs = some s ∧ (inOrder s).map (fun x => (x.ip, x.instrId)) =
      s.traceRead.zipIdx := by
  obtain ⟨s, hs, hord⟩ := run_total (I := Ordered c) (fun _ ev (_ : ev ∈ evs) h => h.step ev)
    (ordered_initial c)
  exact ⟨s, hs, hord.order⟩

end Thermometer.FrontOrder
