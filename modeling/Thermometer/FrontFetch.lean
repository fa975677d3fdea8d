import Thermometer.FrontOrder

namespace Thermometer.FrontFetch

open Lib.Runs QueueBuffer QueueDelay FrontEnd FrontOrder

variable {c : Config} {translate : Nat → Nat} {done done' : List Instr} {lines lines' : List Nat}
  {s : State} {x y : Instr}

/-- The physical address of `ip`, where `translate` gives the frame of a page. -/
def physical (translate : Nat → Nat) (ip : Nat) : Nat :=
  translate (ip >>> log2PageSize) <<< log2PageSize ||| (ip &&& (1 <<< log2PageSize - 1))

/-- The line at the physical address of the instruction has been returned. -/
structure Fetched (translate : Nat → Nat) (lines : List Nat) (x : Instr) : Prop where
  address : x.instructionPa = physical translate x.ip
  line : x.instructionPa >>> log2BlockSize ∈ lines

def Hit (c : Config) (done : List Instr) (x : Instr) : Prop :=
  ∃ y ∈ done, window c y.ip = window c x.ip ∧ y.instrId < x.instrId

structure Waiting (c : Config) (translate : Nat → Nat) (done : List Instr) (lines : List Nat)
  (x : Instr) : Prop where
  begun : x.decoded = .completed → x.fetched ≠ .idle
  hit : x.decoded = .completed → Hit c done x
  address : x.decoded ≠ .completed → x.translated = .completed → x.instructionPa = physical translate x.ip
  line : x.decoded ≠ .completed → x.fetched = .completed → Fetched translate lines x

def Served (c : Config) (translate : Nat → Nat) (done : List Instr) (lines : List Nat) (x : Instr) : Prop :=
  Hit c done x ∨ Fetched translate lines x

theorem Hit.mono (h : Hit c done x) (hsub : done ⊆ done') : Hit c done' x := by
  obtain ⟨y, hy, hwindow, hid⟩ := h
  exact ⟨y, hsub hy, hwindow, hid⟩

theorem Fetched.mono (h : Fetched translate lines x) (hsub : lines ⊆ lines') : Fetched translate lines' x :=
  ⟨h.address, hsub h.line⟩

theorem Waiting.mono (h : Waiting c translate done lines x) (hdone : done ⊆ done') (hlines : lines ⊆ lines') :
    Waiting c translate done' lines' x :=
  ⟨h.begun, fun hd => (h.hit hd).mono hdone, h.address, fun hd hf => (h.line hd hf).mono hlines⟩

theorem Served.mono (h : Served c translate done lines x) (hdone : done ⊆ done') (hlines : lines ⊆ lines') :
    Served c translate done' lines' x :=
  h.imp (Hit.mono · hdone) (Fetched.mono · hlines)

theorem Waiting.served (h : Waiting c translate done lines x) (hfetched : x.fetched = .completed) :
    Served c translate done lines x := by
  by_cases hd : x.decoded = .completed
  · exact .inl (h.hit hd)
  · exact .inr (h.line hd hfetched)

theorem waiting_new (c : Config) (translate : Nat → Nat) (done : List Instr) (lines : List Nat) (n ip : Nat) :
    Waiting c translate done lines ⟨n, ip, 0, .idle, .idle, .idle⟩ := by
  refine ⟨?_, ?_, ?_, ?_⟩
  · intro hd
    cases hd
  · intro hd
    cases hd
  · intro _ ht
    cases ht
  · intro _ hf
    cases hf

section Marks

theorem Waiting.markDecoded (hhit : Hit c done x) : Waiting c translate done lines (markDecoded x) := by
  refine ⟨?_, fun _ => hhit, fun hd => absurd rfl hd, fun hd => absurd rfl hd⟩
  intro _ hidle
  cases hidle

theorem Waiting.askTranslation (h : Waiting c translate done lines x) :
    Waiting c translate done lines (askTranslation x) := by
  refine ⟨h.begun, h.hit, ?_, fun hd hf => ⟨(h.line hd hf).address, (h.line hd hf).line⟩⟩
  intro _ ht
  cases ht

theorem Waiting.askLine (h : Waiting c translate done lines x) :
    Waiting c translate done lines (askLine x) := by
  refine ⟨?_, h.hit, h.address, ?_⟩
  · intro _ hidle
    cases hidle
  · intro _ hf
    cases hf

theorem Waiting.markTranslated {p : Return} (h : Waiting c translate done lines x)
    (hp : p.data = translate p.address)
    (haccepts : samePage p x = true) : Waiting c translate done lines (markTranslated p x) := by
  rw [samePage, Bool.and_eq_true, beq_iff_eq] at haccepts
  have hpa : (FrontEnd.markTranslated p x).instructionPa = physical translate x.ip := by
    show p.data <<< log2PageSize ||| (x.ip &&& (1 <<< log2PageSize - 1)) = physical translate x.ip
    rw [hp, ← haccepts.1, physical]
  refine ⟨h.begun, h.hit, fun _ _ => hpa, ?_⟩
  intro hd hf
  have hold := h.line hd hf
  refine ⟨hpa, ?_⟩
  rw [hpa, ← hold.address]
  exact hold.line

theorem Waiting.markFetched {p : Return} (h : Waiting c translate done lines x) (hp : p.address ∈ lines)
    (haccepts : sameLine p x = true) : Waiting c translate done lines (markFetched p x) := by
  rw [sameLine, Bool.and_eq_true, Bool.and_eq_true, beq_iff_eq, beq_iff_eq] at haccepts
  obtain ⟨⟨hline, -⟩, ht⟩ := haccepts
  refine ⟨?_, h.hit, h.address, ?_⟩
  · intro _ hidle
    cases hidle
  · intro hd _
    refine ⟨h.address hd ht, ?_⟩
    show x.instructionPa >>> log2BlockSize ∈ lines
    rw [hline]
    exact hp

end Marks

/-- Every mark and every packet of the front end stands for what has happened. -/
structure Genuine (c : Config) (translate : Nat → Nat) (s : State) : Prop where
  ordered : Ordered c s
  waiting : ∀ x ∈ beforeFetch s, Waiting c translate (afterDecode s) s.linesReturned x
  served : ∀ x ∈ afterFetch s, Served c translate (afterDecode s) s.linesReturned x
  dib : ∀ set way, (s.dib set way).valid = true → ∃ y ∈ afterDecode s, y.ip = (s.dib set way).addr
  itlb : ∀ p ∈ s.itlbProcessed, p.data = translate p.address
  l1i : ∀ p ∈ s.l1iProcessed, p.address ∈ s.linesReturned
  asked : ∀ r ∈ s.l1iRequests, r.fullAddr = physical translate r.ip

theorem genuine_initial (c : Config) (translate : Nat → Nat) : Genuine c translate (.initial c) := by
  refine ⟨ordered_initial c, ?_, ?_, ?_, ?_, ?_, ?_⟩
  · intro x hx
    cases hx
  · intro x hx
    cases hx
  · intro set way hvalid
    cases hvalid
  · intro p hp
    cases hp
  · intro p hp
    cases hp
  · intro r hr
    cases hr

theorem older (h : Ordered c s) (hy : y ∈ afterFetch s) (hx : x ∈ beforeFetch s) : y.instrId < x.instrId := by
  have hids : (inOrder s).map Instr.instrId = List.range s.traceRead.length := by
    have hsnd := congrArg (List.map Prod.snd) h.order
    rw [List.map_map, List.zipIdx_map_snd, ← List.range_eq_range'] at hsnd
    exact hsnd
  have hpairs : ((inOrder s).map Instr.instrId).Pairwise (· < ·) := hids ▸ List.pairwise_lt_range
  rw [inOrder, List.map_append, List.pairwise_append] at hpairs
  exact hpairs.2.2 _ (List.mem_map_of_mem hy) _ (List.mem_map_of_mem hx)

theorem findWay_some {set : Nat → DibEntry} {ip way : Nat} (h : findWay c set ip = some way) :
    (set way).valid = true ∧ window c (set way).addr = window c ip := by
  have hsome := List.find?_some h
  rw [Bool.and_eq_true, beq_iff_eq] at hsome
  exact hsome

theorem useWay_entry (c : Config) (set : Nat → DibEntry) (way w : Nat) :
    (useWay c set way w).valid = (set w).valid ∧ (useWay c set way w).addr = (set w).addr := by
  rw [useWay]
  by_cases hw : w = way
  · subst hw
    simp only [Function.update_self]
    split_ifs <;> exact ⟨rfl, rfl⟩
  · simp only [Function.update_of_ne hw]
    split_ifs <;> exact ⟨rfl, rfl⟩

theorem findIf_found {b : CircularBuffer Instr} {p : Instr → Bool} {first : Nat}
    (hne : findIf b p first ≠ b.tail) :
    first ≤ findIf b p first ∧ findIf b p first < b.tail ∧ p (b.get (findIf b p first)) = true := by
  rw [findIf] at hne ⊢
  cases hfind : (List.range' first (b.tail - first)).find? (fun n => p (b.get n)) with
  | none =>
      rw [hfind] at hne
      exact absurd rfl hne
  | some n =>
      have hmem := List.mem_of_find?_eq_some hfind
      rw [List.mem_range'_1] at hmem
      have hp := List.find?_some hfind
      refine ⟨hmem.1, ?_, hp⟩
      show n < b.tail
      omega

section Steps

theorem waiting_modify {b : CircularBuffer Instr} {f : Instr → Instr} {n : Nat}
    (h : ∀ x ∈ contents b, Waiting c translate done lines x)
    (hf : Waiting c translate done lines (b.get n) → Waiting c translate done lines (f (b.get n))) :
    ∀ x ∈ contents (b.modify f n), Waiting c translate done lines x := by
  intro x hx
  rcases mem_modify hx with hold | ⟨hmem, rfl⟩
  · exact h x hold
  · exact hf (h _ hmem)

theorem Genuine.checkDib (h : Genuine c translate s) {n : Nat} (hge : s.ifetchBuffer.head ≤ n)
    (hlt : n < s.ifetchBuffer.tail) : Genuine c translate (checkDib c s n) := by
  have hordered := h.ordered.checkDib n
  rw [FrontEnd.checkDib] at hordered ⊢
  cases hway : findWay c (s.dib (dibIndex c (s.ifetchBuffer.get n).ip)) (s.ifetchBuffer.get n).ip with
  | none => exact h
  | some way =>
      rw [hway] at hordered
      obtain ⟨hvalid, hwindow⟩ := findWay_some hway
      obtain ⟨y, hy, hip⟩ := h.dib _ _ hvalid
      have hhit : Hit c (afterDecode s) (s.ifetchBuffer.get n) :=
        ⟨y, hy, hip ▸ hwindow, older h.ordered (List.mem_append_left _ hy) (get_mem hge hlt)⟩
      refine ⟨hordered, ?_, h.served, ?_, h.itlb, h.l1i, h.asked⟩
      · exact waiting_modify h.waiting (fun _ => .markDecoded hhit)
      · intro set w hv
        by_cases hset : set = dibIndex c (s.ifetchBuffer.get n).ip
        · subst hset
          simp only [Function.update_self] at hv ⊢
          obtain ⟨hvalid', haddr⟩ := useWay_entry c (s.dib (dibIndex c (s.ifetchBuffer.get n).ip)) way w
          rw [hvalid'] at hv
          rw [haddr]
          exact h.dib _ w hv
        · simp only [Function.update_of_ne hset] at hv ⊢
          exact h.dib set w hv

theorem Genuine.scanDib (h : Genuine c translate s) : Genuine c translate (scanDib c s) := by
  have hall : ∀ ns : List Nat, (∀ n ∈ ns, s.ifetchBuffer.head ≤ n ∧ n < s.ifetchBuffer.tail) →
      Genuine c translate (ns.foldl (FrontEnd.checkDib c) s) := by
    intro ns
    induction ns generalizing s with
    | nil => exact fun _ => h
    | cons n ns ih =>
        intro hns
        obtain ⟨b, d, heq, hb⟩ := checkDib_frame c s n
        obtain ⟨hge, hlt⟩ := hns n List.mem_cons_self
        apply ih (h.checkDib hge hlt)
        intro m hm
        rw [heq, hb.head, hb.tail]
        exact hns m (List.mem_cons_of_mem n hm)
  apply hall
  intro n hn
  rw [List.mem_range'_1, occupancy_eq] at hn
  omega

theorem scanDib_range (c : Config) (s : State) : (scanDib c s).ifetchBuffer.head = s.ifetchBuffer.head ∧
    (scanDib c s).ifetchBuffer.tail = s.ifetchBuffer.tail := by
  rw [FrontEnd.scanDib]
  generalize List.range' s.ifetchBuffer.head (min s.ifetchBuffer.occupancy c.fetchWidth) = ns
  induction ns generalizing s with
  | nil => exact ⟨rfl, rfl⟩
  | cons n ns ih =>
      obtain ⟨b, d, heq, hb⟩ := checkDib_frame c s n
      obtain ⟨hhead, htail⟩ := ih (FrontEnd.checkDib c s n)
      rw [List.foldl_cons, hhead, htail, heq]
      exact ⟨hb.head, hb.tail⟩

theorem Genuine.requestTranslation (h : Genuine c translate s) (accepts : Bool) :
    Genuine c translate (requestTranslation s accepts) := by
  have hordered := h.ordered.requestTranslation accepts
  rw [FrontEnd.requestTranslation] at hordered ⊢
  split_ifs at hordered ⊢
  · refine ⟨hordered, ?_, h.served, h.dib, h.itlb, h.l1i, h.asked⟩
    exact modifyFrom_rule
      (J := fun b => ∀ x ∈ contents b, Waiting c translate (afterDecode s) s.linesReturned x)
      (fun _ _ hb => waiting_modify hb Waiting.askTranslation) h.waiting
  · exact h

theorem Genuine.requestLine (h : Genuine c translate s)
    (hne : s.ifetchBuffer.head < s.ifetchBuffer.tail) (accepts : Bool) :
    Genuine c translate (requestLine s accepts) := by
  have hordered := h.ordered.requestLine accepts
  rw [FrontEnd.requestLine] at hordered ⊢
  split_ifs at hordered ⊢ with hcond
  · refine ⟨hordered, ?_, h.served, h.dib, h.itlb, h.l1i, ?_⟩
    · exact modifyFrom_rule
        (J := fun b => ∀ x ∈ contents b, Waiting c translate (afterDecode s) s.linesReturned x)
        (fun _ _ hb => waiting_modify hb Waiting.askLine) h.waiting
    · intro r hr
      rcases List.mem_append.mp hr with hr | hr
      · exact h.asked r hr
      · have hfound : findIf s.ifetchBuffer (fun x => x.translated == .completed && x.fetched == .idle)
            s.ifetchBuffer.head ≠ s.ifetchBuffer.tail := by
          intro heq
          rw [heq] at hcond
          rcases hcond.1 with hlast | hfirst
          · apply hlast
            rw [findIf, Nat.sub_self]
            rfl
          · omega
        obtain ⟨hge, hlt, hp⟩ := findIf_found hfound
        rw [Bool.and_eq_true, beq_iff_eq, beq_iff_eq] at hp
        have hwaiting := h.waiting _ (get_mem hge hlt)
        rw [List.mem_singleton.mp hr]
        exact hwaiting.address (fun hd => hwaiting.begun hd hp.2) hp.1
  · exact h

theorem Genuine.toDecode (h : Genuine c translate s) {delay : Int} (he : s.ifetchBuffer.empty = false)
    (hf : s.decodeBuffer.buf.full = false) (hfetched : s.ifetchBuffer.front.fetched = .completed) :
    Genuine c translate { s with
      decodeBuffer := s.decodeBuffer.put s.ifetchBuffer.front delay hf
      ifetchBuffer := s.ifetchBuffer.drop he } := by
  refine ⟨h.ordered.toDecode he hf, ?_, ?_, h.dib, h.itlb, h.l1i, h.asked⟩
  · intro x hx
    apply h.waiting
    rw [beforeFetch, contents_drop he]
    exact List.mem_cons_of_mem _ hx
  · intro x hx
    simp only [afterFetch, DelayQueue.put, contents_put, ← List.append_assoc] at hx
    rcases List.mem_append.mp hx with hx | hx
    · exact h.served x hx
    · rw [List.mem_singleton.mp hx]
      exact (h.waiting _ (front_mem he)).served hfetched

theorem Genuine.toDispatch (h : Genuine c translate s) {delay : Int} (he : s.decodeBuffer.buf.empty = false)
    (hf : s.dispatchBuffer.buf.full = false) (hr : s.decodeBuffer.hasReady = true) :
    Genuine c translate { updateDib c s s.decodeBuffer.buf.front.ip with
      dispatchBuffer := s.dispatchBuffer.put s.decodeBuffer.buf.front delay hf
      decodeBuffer := s.decodeBuffer.drop he } := by
  have hafter : afterDecode { updateDib c s s.decodeBuffer.buf.front.ip with
      dispatchBuffer := s.dispatchBuffer.put s.decodeBuffer.buf.front delay hf
      decodeBuffer := s.decodeBuffer.drop he } = afterDecode s ++ [s.decodeBuffer.buf.front] := by
    simp only [afterDecode, updateDib, DelayQueue.put, contents_put, List.append_assoc]
  have hsub : afterDecode s ⊆ afterDecode s ++ [s.decodeBuffer.buf.front] := List.subset_append_left _ _
  refine ⟨h.ordered.toDispatch he hf hr _, ?_, ?_, ?_, h.itlb, h.l1i, h.asked⟩
  · intro x hx
    rw [hafter]
    exact (h.waiting x hx).mono hsub (List.Subset.refl _)
  · intro x hx
    rw [hafter]
    refine (h.served x ?_).mono hsub (List.Subset.refl _)
    simp only [afterFetch] at hx
    rw [hafter] at hx
    rw [afterFetch, contents_drop he, List.append_cons]
    exact hx
  · intro set way hv
    rw [hafter]
    simp only [updateDib] at hv ⊢
    by_cases hset : set = dibIndex c s.decodeBuffer.buf.front.ip
    · subst hset
      simp only [Function.update_self] at hv ⊢
      generalize (findWay c (s.dib (dibIndex c s.decodeBuffer.buf.front.ip)) s.decodeBuffer.buf.front.ip).getD
        (dibVictim c (s.dib (dibIndex c s.decodeBuffer.buf.front.ip))) = used at hv ⊢
      by_cases hway : way = used
      · subst hway
        rw [Function.update_self]
        exact ⟨s.decodeBuffer.buf.front, List.mem_append_right _ List.mem_cons_self, rfl⟩
      · rw [Function.update_of_ne hway] at hv ⊢
        obtain ⟨hvalid, haddr⟩ := useWay_entry c (s.dib (dibIndex c s.decodeBuffer.buf.front.ip)) used way
        obtain ⟨y, hy, hip⟩ := h.dib _ way (hvalid ▸ hv)
        exact ⟨y, hsub hy, hip.trans haddr.symm⟩
    · simp only [Function.update_of_ne hset] at hv ⊢
      obtain ⟨y, hy, hip⟩ := h.dib set way hv
      exact ⟨y, hsub hy, hip⟩

theorem Genuine.toRob (h : Genuine c translate s) (he : s.dispatchBuffer.buf.empty = false)
    (hr : s.dispatchBuffer.hasReady = true) :
    Genuine c translate { s with
      dispatchBuffer := s.dispatchBuffer.drop he
      entered := s.entered ++ [s.dispatchBuffer.buf.front] } := by
  have hafter : afterDecode { s with
      dispatchBuffer := s.dispatchBuffer.drop he
      entered := s.entered ++ [s.dispatchBuffer.buf.front] } = afterDecode s := by
    simp only [afterDecode, DelayQueue.drop, contents_drop he, List.append_assoc, List.singleton_append]
  refine ⟨h.ordered.toRob he hr, ?_, ?_, ?_, h.itlb, h.l1i, h.asked⟩
  · rw [hafter]
    exact h.waiting
  · rw [afterFetch, hafter]
    exact h.served
  · rw [hafter]
    exact h.dib

theorem Genuine.readTrace (h : Genuine c translate s) (ip : Nat) (ends stalled : Bool) :
    ∃ t, readTrace c s ip ends stalled = some t ∧ Genuine c translate t := by
  obtain ⟨t, ht, hordered⟩ := h.ordered.readTrace ip ends stalled
  refine ⟨t, ht, ?_⟩
  rw [FrontEnd.readTrace] at ht
  split_ifs at ht
  · obtain rfl := Option.some.inj ht
    exact h
  · rw [initInstruction, Option.map_eq_some_iff] at ht
    obtain ⟨b, hpush, rfl⟩ := ht
    refine ⟨hordered, ?_, h.served, h.dib, h.itlb, h.l1i, h.asked⟩
    intro x hx
    rw [CircularBuffer.pushBack] at hpush
    split_ifs at hpush with hfull
    obtain rfl := Option.some.inj hpush
    simp only [beforeFetch, contents_put] at hx
    rcases List.mem_append.mp hx with hx | hx
    · exact h.waiting x hx
    · rw [List.mem_singleton.mp hx]
      exact waiting_new c translate _ _ _ ip

theorem Genuine.memoryReturn (h : Genuine c translate s) : Genuine c translate (handleMemoryReturn c s) := by
  obtain ⟨t, ht, hordered⟩ := h.ordered.step .memoryReturn
  obtain rfl := Option.some.inj ht
  have hitlb := serveReturns_rule samePage markTranslated
    (J := fun b => ∀ x ∈ contents b, Waiting c translate (afterDecode s) s.linesReturned x)
      (Q := fun address data => data = translate address)
    (fun p b n hp hb haccepts => waiting_modify hb (fun hx => hx.markTranslated hp haccepts))
    s.currentCoreCycle c.itlbMaxRead c.fetchWidth h.waiting h.itlb
  have hl1i := serveReturns_rule sameLine markFetched
    (J := fun b => ∀ x ∈ contents b, Waiting c translate (afterDecode s) s.linesReturned x)
      (Q := fun address _ => address ∈ s.linesReturned)
    (fun p b n hp hb haccepts => waiting_modify hb (fun hx => hx.markFetched hp haccepts))
    s.currentCoreCycle c.l1iMaxRead c.fetchWidth hitlb.1 h.l1i
  exact ⟨hordered, hl1i.1, h.served, h.dib, hitlb.2, hl1i.2, h.asked⟩

theorem Genuine.step (h : Genuine c translate s) (ev : Event)
    (hev : ∀ p, ev = .itlbReturns p → p.data = translate p.address) :
    ∃ t, step c s ev = some t ∧ Genuine c translate t := by
  obtain ⟨t, ht, hordered⟩ := h.ordered.step ev
  cases ev with
  | cycle =>
      obtain rfl := Option.some.inj ht
      exact ⟨_, rfl, hordered, h.waiting, h.served, h.dib, h.itlb, h.l1i, h.asked⟩
  | finishWarmup =>
      obtain rfl := Option.some.inj ht
      exact ⟨_, rfl, hordered, h.waiting, h.served, h.dib, h.itlb, h.l1i, h.asked⟩
  | read ip ends stalled => exact h.readTrace ip ends stalled
  | fetch itlbAccepts l1iAccepts =>
      simp only [FrontEnd.step, fetchInstruction]
      split_ifs with hempty
      · exact ⟨s, rfl, h⟩
      · have hpos := remaining (b := s.ifetchBuffer) (Bool.eq_false_iff.mpr hempty)
        have hscan := h.scanDib
        obtain ⟨hhead, htail⟩ := scanDib_range c s
        have hne : (FrontEnd.requestTranslation (FrontEnd.scanDib c s) itlbAccepts).ifetchBuffer.head <
            (FrontEnd.requestTranslation (FrontEnd.scanDib c s) itlbAccepts).ifetchBuffer.tail := by
          rw [FrontEnd.requestTranslation]
          split_ifs
          · rw [(modifyFrom_frame _).2.1, (modifyFrom_frame _).2.2, hhead, htail]
            exact hpos
          · rw [hhead, htail]
            exact hpos
        exact sendToDecode_rule (fun _ _ he hf hs _ hfetched => hs.toDecode he hf hfetched) _
          ((hscan.requestTranslation itlbAccepts).requestLine hne l1iAccepts)
  | decode =>
      simp only [FrontEnd.step, decodeInstruction]
      split_ifs
      · exact ⟨s, rfl, h⟩
      · obtain ⟨t, ht, hgen⟩ := sendToDispatch_rule (c := c) (fun _ hs => hs.ordered.decodeReady)
          (fun _ _ he hf hs hr => hs.toDispatch he hf hr) c.decodeWidth h
        have hord := hgen.ordered
        rw [ht]
        exact ⟨_, rfl, ⟨hord.order, hord.count, hord.size, hord.room, ready_operate _, hord.dispatchReady⟩,
          hgen.waiting, hgen.served, hgen.dib, hgen.itlb, hgen.l1i, hgen.asked⟩
  | dispatch room =>
      simp only [FrontEnd.step, dispatchInstruction]
      split_ifs
      · exact ⟨s, rfl, h⟩
      · obtain ⟨t, ht, hgen⟩ := sendToRob_rule (fun _ hs => hs.ordered.dispatchReady)
          (fun _ he hs hr => hs.toRob he hr) c.dispatchWidth room h
        have hord := hgen.ordered
        rw [ht]
        exact ⟨_, rfl, ⟨hord.order, hord.count, hord.size, hord.room, hord.decodeReady, ready_operate _⟩,
          hgen.waiting, hgen.served, hgen.dib, hgen.itlb, hgen.l1i, hgen.asked⟩
  | memoryReturn => exact ⟨_, rfl, h.memoryReturn⟩
  | itlbReturns p =>
      obtain rfl := Option.some.inj ht
      refine ⟨_, rfl, hordered, h.waiting, h.served, h.dib, ?_, h.l1i, h.asked⟩
      intro r hr
      rcases List.mem_append.mp hr with hr | hr
      · exact h.itlb r hr
      · rw [List.mem_singleton.mp hr]
        exact hev p rfl
  | l1iReturns p =>
      obtain rfl := Option.some.inj ht
      have hsub : s.linesReturned ⊆ s.linesReturned ++ [p.address] := List.subset_append_left _ _
      refine ⟨_, rfl, hordered, ?_, ?_, h.dib, h.itlb, ?_, h.asked⟩
      · exact fun x hx => (h.waiting x hx).mono (List.Subset.refl _) hsub
      · exact fun x hx => (h.served x hx).mono (List.Subset.refl _) hsub
      · intro r hr
        rcases List.mem_append.mp hr with hr | hr
        · exact hsub (h.l1i r hr)
        · rw [List.mem_singleton.mp hr]
          exact List.mem_append_right _ List.mem_cons_self

end Steps

/-- Behind every instruction that has left the fetch buffer stands one of its window whose own line
was returned. -/
theorem Genuine.fetched (h : Genuine c translate s) (hx : x ∈ afterFetch s) :
    ∃ y ∈ afterFetch s, window c y.ip = window c x.ip ∧ y.instrId ≤ x.instrId ∧
      Fetched translate s.linesReturned y := by
  induction hn : x.instrId using Nat.strong_induction_on generalizing x with
  | _ n ih =>
      rcases h.served x hx with ⟨y, hy, hwindow, hid⟩ | hfetched
      · obtain ⟨z, hz, hwindow', hid', hfetched⟩ := ih y.instrId (hn ▸ hid) (List.mem_append_left _ hy) rfl
        exact ⟨z, hz, hwindow'.trans hwindow, by omega, hfetched⟩
      · exact ⟨x, hx, rfl, hn.le, hfetched⟩

/-- With an instruction TLB that answers each page by its frame, in whatever order and however late,
all lines asked of the instruction cache lie at the translations of the addresses they are for, and
nothing is decoded of a window of which no line was returned: however the slots of the fetch buffer
were passed on since the packets were sent. -/
theorem fetched_before_decoded (c : Config) (translate : Nat → Nat) (evs : List Event)
    (hevs : ∀ p, Event.itlbReturns p ∈ evs → p.data = translate p.address) :
    ∃ s, run (step c) (.initial c) evs = some s ∧ (∀ r ∈ s.l1iRequests, r.fullAddr = physical translate r.ip) ∧
      ∀ x ∈ afterFetch s, ∃ y ∈ afterFetch s, window c y.ip = window c x.ip ∧ y.instrId ≤ x.instrId ∧
        Fetched translate s.linesReturned y := by
  obtain ⟨s, hs, hgen⟩ := run_total (I := Genuine c translate)
    (fun s ev (hmem : ev ∈ evs) h => h.step ev (fun p heq => hevs p (heq ▸ hmem))) (genuine_initial c translate)
  exact ⟨s, hs, hgen.asked, fun x hx => hgen.fetched hx⟩

def smallFront : Config where
  ifetchSize := 2
  decodeSize := 2
  decodeLatency := 1
  dispatchSize := 2
  dispatchLatency := 1
  fetchWidth := 1
  decodeWidth := 1
  dispatchWidth := 1
  itlbMaxRead := 1
  l1iMaxRead := 1
  log2DibWindowSize := 4
  dibSet := 1
  dibWay := 1
  fetchWidth_pos := Nat.one_pos
  dibSet_pos := Nat.one_pos
  dibWay_pos := Nat.one_pos

/-- The first instruction is fetched, where page 1 lies in frame 2, and the second one finds its window decoded. The
third has the slot of the first, whose packets come once more before its own. -/
def threeInstructions : List Event :=
  [.read 4160 true false, .fetch true true, .itlbReturns ⟨1, 2, 0, [0]⟩, .memoryReturn, .fetch true true,
    .l1iReturns ⟨129, 0, 0, [0]⟩, .memoryReturn, .fetch true true, .decode, .decode, .read 4164 true false, .fetch true true,
    .read 8256 true false, .fetch true true, .itlbReturns ⟨1, 2, 0, [0]⟩, .l1iReturns ⟨129, 0, 0, [0]⟩, .memoryReturn,
    .itlbReturns ⟨2, 3, 0, [2]⟩, .memoryReturn, .fetch true true, .l1iReturns ⟨193, 0, 0, [2]⟩, .memoryReturn,
    .fetch true true]

theorem fetched_before_decoded_three : ∃ s, run (step smallFront) (.initial smallFront) threeInstructions = some s ∧
    s.l1iRequests.map Request.fullAddr = [8256, 12352] ∧ (afterFetch s).map Instr.ip = [4160, 4164, 8256] ∧
      (∀ r ∈ s.l1iRequests, r.fullAddr = physical (· + 1) r.ip) ∧
      ∀ x ∈ afterFetch s, ∃ y ∈ afterFetch s, window smallFront y.ip = window smallFront x.ip ∧ y.instrId ≤ x.instrId ∧
        Fetched (· + 1) s.linesReturned y := by
  obtain ⟨s, hs, hasked, hfetched⟩ := fetched_before_decoded smallFront (· + 1) threeInstructions (by
    intro p hp
    simp only [threeInstructions, List.mem_cons, List.not_mem_nil, reduceCtorEq, Event.itlbReturns.injEq,
      false_or, or_false] at hp
    rcases hp with rfl | rfl | rfl <;> rfl)
  have hcode : (run (step smallFront) (.initial smallFront) threeInstructions).map (fun s =>
      (s.l1iRequests.map Request.fullAddr, (afterFetch s).map Instr.ip)) =
        some ([8256, 12352], [4160, 4164, 8256]) := by decide +kernel
  rw [hs] at hcode
  obtain ⟨hrequests, hips⟩ := Prod.mk.inj (Option.some.inj hcode)
  exact ⟨s, hs, hrequests, hips, hasked, hfetched⟩

end Thermometer.FrontFetch
