import Thermometer.LsqRetire
import Thermometer.StorePipeline

namespace Thermometer.StoreInvariant

open Lib.Rings Lib.Runs Lib.Traversal Lib.Windows Lib.Contents Lib.SlotRings StoreOrder StorePath StoreFrame StorePipeline

open LoadStoreQueue (Instr RobEntry LsqEntry numInstrDestinations addStoreQueue checkLoad)

open LsqRetire (cleared cleared_keeps cleared_destination)

open ReorderBuffer (Stage numInstrSources)

def writes (log : List Passage) : List Store :=
  log.filterMap (fun | .written x => some x | .released _ => none)

def releases (log : List Passage) : List Store :=
  log.filterMap (fun | .written _ => none | .released x => some x)

def tickets (s : State) : List Nat :=
  s.lsq.sta ++ (storesFrom s.lsq.program.length s.fetched).map Store.instrId

/-- The pipeline with a ring of `size` slots that has read the instructions `read`, while the stores of the instruction
at the head that `gone` lists have left. -/
structure Inv (size : Nat) (read : List Instr) (gone : List (Fin numInstrDestinations)) (s : State) : Prop where
  capacity : s.sta.size = size
  program : s.lsq.program ++ s.fetched = read
  ring : Holds s.sta (tickets s)
  path : Ordered gone (releases s.log) (writes s.log) (pathOf s.lsq)
  passed : ∀ {l x r}, s.log = l ++ .released x :: r → .written x ∈ l

variable {s t : State} {read : List Instr} {gone : List (Fin numInstrDestinations)} {lsq : LoadStoreQueue.State}
  {size n q current i : Nat}  {d : Fin numInstrDestinations} {x : Store} {z : Instr} {log : List Passage}

section Log

theorem mem_writes : x ∈ writes log ↔ .written x ∈ log := by
  rw [writes, List.mem_filterMap]
  constructor
  · rintro ⟨p, hp, hx⟩
    cases p with
    | written y => exact Option.some.inj hx ▸ hp
    | released y => cases hx
  · intro hx
    exact ⟨_, hx, rfl⟩

theorem writes_written : writes (log ++ [.written x]) = writes log ++ [x] := List.filterMap_append

theorem writes_released : writes (log ++ [.released x]) = writes log := by
  rw [writes, List.filterMap_append]
  exact List.append_nil _

theorem releases_written : releases (log ++ [.written x]) = releases log := by
  rw [releases, List.filterMap_append]
  exact List.append_nil _

theorem releases_released : releases (log ++ [.released x]) = releases log ++ [x] := List.filterMap_append

theorem passed_append {p : Passage} (h : ∀ {l x r}, log = l ++ .released x :: r → .written x ∈ l)
    (hp : ∀ x, p = .released x → .written x ∈ log) {l r : List Passage} (heq : log ++ [p] = l ++ .released x :: r) :
    .written x ∈ l := by
  rcases List.eq_nil_or_concat r with rfl | ⟨r, c, rfl⟩
  · obtain ⟨rfl, hlast⟩ := List.append_inj' heq rfl
    exact hp x (List.cons.inj hlast).1
  · rw [List.concat_eq_append, ← List.cons_append, ← List.append_assoc] at heq
    exact h (List.append_inj' heq rfl).1

end Log

theorem Inv.of_path (h : Inv size read gone s) (hp : pathOf lsq = pathOf s.lsq) : Inv size read gone { s with lsq := lsq } := by
  have hsta : lsq.sta = s.lsq.sta := congrArg Path.sta hp
  have hprogram : lsq.program = s.lsq.program := congrArg Path.program hp
  refine ⟨h.capacity, ?_, ?_, ?_, h.passed⟩
  · rw [hprogram]
    exact h.program
  · rw [tickets, hsta, hprogram]
    exact h.ring
  · rw [hp]
    exact h.path

section Number

variable {sta : SlotRing Nat} {queue : List Nat}

/-- The loop that numbers the stores of one instruction never writes over a ticket. -/
def Fits (n : Nat) (x : Instr) (sta : SlotRing Nat) : Prop :=
  EveryStep (numberStore n x) sta (fun _ sta i => x.destinationMemory i ≠ 0 → sta.entry sta.tail = none)
    (List.finRange numInstrDestinations)

theorem numberStores_size {rest : List (Fin numInstrDestinations)} {sta' : SlotRing Nat}
    (h : run (numberStore n z) sta rest = some sta') : sta'.size = sta.size := by
  refine run_preserves (I := fun r => r.size = sta.size) ?_ rfl h
  intro r r' i _ hr hi
  rw [numberStore] at hi
  split_ifs at hi
  · rw [← Option.some.inj hi]
    exact hr
  · rw [← Option.some.inj hi]
    exact hr

theorem numberStores_holds (rest : List (Fin numInstrDestinations)) (h : Holds sta queue)
    (hfits : EveryStep (numberStore n z) sta (fun _ sta i => z.destinationMemory i ≠ 0 → sta.entry sta.tail = none) rest) :
    ∃ sta', run (numberStore n z) sta rest = some sta' ∧
      Holds sta' (queue ++ (rest.filter (fun i => z.destinationMemory i ≠ 0)).map (fun _ => n)) := by
  induction rest using List.reverseRecOn with
  | nil =>
      refine ⟨sta, rfl, ?_⟩
      rw [List.filter_nil, List.map_nil, List.append_nil]
      exact h
  | append_singleton rest i ih =>
      obtain ⟨u, hu, hholds⟩ := ih hfits.of_append
      have hfree := hfits.last hu
      rw [run_append, hu, List.filter_append, List.map_append]
      show ∃ sta', run (numberStore n z) u [i] = some sta' ∧ _
      rw [run_cons, numberStore]
      by_cases hz : z.destinationMemory i = 0
      · refine ⟨u, ?_, ?_⟩
        · rw [if_pos hz]
          rfl
        · rw [List.filter_cons_of_neg (by simpa using hz), List.filter_nil, List.map_nil, List.append_nil]
          exact hholds
      · have hfree := hfree hz
        refine ⟨u.push n, ?_, ?_⟩
        · rw [if_neg hz, if_neg (fun hc => hc.1 hfree)]
          rfl
        · rw [List.filter_cons_of_pos (by simpa using hz), List.filter_nil, ← List.append_assoc]
          exact hholds.push hfree n

theorem init_inv (h : Inv size read [] s) (hfits : Fits s.uniqueId z s.sta) :
    ∃ t, initInstruction s z = some t ∧ Inv size (read ++ [z]) [] t ∧ t.lsq = s.lsq := by
  obtain ⟨sta, hrun, hholds⟩ := numberStores_holds _ h.ring hfits
  have hsize : sta.size = size := (numberStores_size hrun).trans h.capacity
  refine ⟨{ s with sta := sta, fetched := s.fetched ++ [z] }, ?_, ⟨hsize, ?_, ?_, h.path, h.passed⟩, rfl⟩
  · rw [initInstruction]
    exact congrArg (Option.map _) hrun
  · show s.lsq.program ++ (s.fetched ++ [z]) = read ++ [z]
    rw [← List.append_assoc, h.program]
  · have htickets : (storesOf s.uniqueId z).map Store.instrId =
        ((List.finRange numInstrDestinations).filter (fun i => z.destinationMemory i ≠ 0)).map (fun _ => s.uniqueId) :=
      List.map_map
    rw [← htickets] at hholds
    show Holds sta (s.lsq.sta ++ (storesFrom s.lsq.program.length (s.fetched ++ [z])).map Store.instrId)
    rw [storesFrom_append, List.map_append, storesFrom, storesFrom, List.append_nil, ← List.append_assoc]
    exact hholds

end Number

section Dispatch

theorem dispatch_inv (h : Inv size read [] s) : Inv size read [] (dispatchInstruction s) := by
  rw [dispatchInstruction]
  split
  · exact h
  · rename_i x rest hfetched
    split_ifs with hroom
    · have hpath := pathOf_dispatch hroom x
      have hsta : (LoadStoreQueue.dispatchInstruction s.lsq x).sta =
          s.lsq.sta ++ (storesOf s.lsq.program.length x).map Store.instrId := congrArg Path.sta hpath
      have hprogram : (LoadStoreQueue.dispatchInstruction s.lsq x).program = s.lsq.program ++ [x] :=
        congrArg Path.program hpath
      refine ⟨h.capacity, ?_, ?_, ?_, h.passed⟩
      · rw [hprogram, ← h.program, hfetched, List.append_assoc]
        rfl
      · have hring := h.ring
        rw [tickets, hfetched, storesFrom, List.map_append, ← List.append_assoc] at hring
        rw [tickets, hsta, hprogram, List.length_append]
        exact hring
      · rw [hpath]
        exact h.path.dispatch hroom x
    · exact h

end Dispatch

section Enter

/-- An instruction in the reorder buffer has the ticket at the head of the ring exactly when it has the first of those
dispatched. -/
theorem front_iff (h : Inv size read gone s) (hi : Live s.lsq.rob current) :
    s.sta.entry s.sta.head = some (s.lsq.rob.entry current).instrId ↔
      s.lsq.sta.head? = some (s.lsq.rob.entry current).instrId := by
  have hlt : (s.lsq.rob.entry current).instrId < s.lsq.program.length := h.path.numbered.lt hi
  rw [h.ring.front, tickets]
  cases hsta : s.lsq.sta with
  | cons n rest => rfl
  | nil =>
      rw [List.nil_append]
      refine iff_of_false (fun he => ?_) nofun
      obtain ⟨x, hx, hxi⟩ := List.mem_map.mp (List.mem_of_head? he)
      have hge := (instrId_of_mem hx).1
      omega

theorem tail_free (h : Inv size read gone s) (hroom : s.lsq.sq.occupancy < s.lsq.sq.size) :
    (s.lsq.sq.entry s.lsq.sq.tail).virtualAddress = 0 :=
  congrArg Store.virtualAddress (h.path.sq.blank _ (not_live_tail h.path.sq hroom))

theorem addStoreQueue_some (current : Nat) (d : Fin numInstrDestinations) (h : Inv size read gone s)
    (hroom : s.lsq.sq.occupancy < s.lsq.sq.size) : ∃ lsq, addStoreQueue s.lsq current d = some lsq := by
  rw [addStoreQueue, if_neg (fun hne => hne (tail_free h hroom))]
  exact ⟨_, rfl⟩

theorem enter_inv (h : Inv size read [] s) (hi : Live s.lsq.rob current)
    (hdest : (s.lsq.rob.entry current).destinationMemory d ≠ 0)
    (hadded : (s.lsq.rob.entry current).destinationAdded d = false) (hroom : s.lsq.sq.occupancy < s.lsq.sq.size)
    (hfront : s.sta.entry s.sta.head = some (s.lsq.rob.entry current).instrId)
    (hbefore : ∀ c, c < d → (s.lsq.rob.entry current).destinationMemory c ≠ 0 →
      (s.lsq.rob.entry current).destinationAdded c = true) (hadd : addStoreQueue s.lsq current d = some lsq) :
    Inv size read [] { s with lsq := lsq, sta := s.sta.pop } := by
  have hpath := pathOf_addStoreQueue hadd
  have hsta : lsq.sta = s.lsq.sta.tail := congrArg Path.sta hpath
  have hprogram : lsq.program = s.lsq.program := congrArg Path.program hpath
  have hfirst := (front_iff h hi).mp hfront
  refine ⟨h.capacity, ?_, ?_, ?_, h.passed⟩
  · rw [hprogram]
    exact h.program
  · have hring := h.ring
    rw [tickets, ← List.cons_head?_tail hfirst] at hring
    rw [tickets, hsta, hprogram]
    exact hring.pop
  · rw [hpath]
    exact h.path.enter hi hdest hadded hroom hfirst hbefore

/-- What stops one store of an instruction stops those after it. -/
theorem checkStores_inv (rest : List (Fin numInstrDestinations)) (h : Inv size read [] s) (hi : Live s.lsq.rob current)
    (hsorted : rest.Pairwise (fun c d => c < d))
    (hrest : Tried (fun c => (s.lsq.rob.entry current).destinationMemory c ≠ 0)
      (fun c => (s.lsq.rob.entry current).destinationAdded c = true) rest
      (s.lsq.sq.occupancy < s.lsq.sq.size ∧ s.sta.entry s.sta.head = some (s.lsq.rob.entry current).instrId)) :
    ∃ t, rest.foldlM (checkStore current) s = some t ∧ Inv size read [] t ∧ Live t.lsq.rob current ∧
      rest.foldlM (LoadStoreQueue.checkStore current) s.lsq = some t.lsq := by
  induction rest generalizing s with
  | nil => exact ⟨s, rfl, h, hi, rfl⟩
  | cons d rest ih =>
      rw [List.foldlM_cons, List.foldlM_cons, checkStore, LoadStoreQueue.checkStore]
      by_cases hgo : (s.lsq.rob.entry current).destinationMemory d ≠ 0 ∧
          (s.lsq.rob.entry current).destinationAdded d = false ∧ s.lsq.sq.occupancy < s.lsq.sq.size ∧
          s.sta.entry s.sta.head = some (s.lsq.rob.entry current).instrId
      · obtain ⟨hdest, hadded, hroom, hfront⟩ := hgo
        obtain ⟨lsq, hadd⟩ := addStoreQueue_some current d h hroom
        have hpath := pathOf_addStoreQueue hadd
        have hentry : textOf (lsq.rob.entry current) = Text.enter d s.lsq.sq.tail (textOf (s.lsq.rob.entry current)) :=
          (congrArg (fun v => v.rob.entry current) hpath).trans modify_self
        have hmemory : ∀ c, (lsq.rob.entry current).destinationMemory c = (s.lsq.rob.entry current).destinationMemory c :=
          fun c => congrArg (fun e => e.destinationMemory c) hentry
        have hadds : ∀ c, (lsq.rob.entry current).destinationAdded c =
            if c = d then true else (s.lsq.rob.entry current).destinationAdded c :=
          fun c => (congrArg (fun e => e.destinationAdded c) hentry).trans enter_added
        have hlive : Live (pathOf lsq).rob current := by
          rw [hpath]
          exact hi
        have hinv := enter_inv h hi hdest hadded hroom hfront (fun c hc hne => hrest.before hsorted ⟨hroom, hfront⟩ hc hne) hadd
        have hself : (lsq.rob.entry current).destinationAdded d = true := by rw [hadds, if_pos rfl]
        have hmono : ∀ c, (s.lsq.rob.entry current).destinationAdded c = true →
            (lsq.rob.entry current).destinationAdded c = true := fun c hca => by rw [hadds, hca, ite_self]
        obtain ⟨t, ht, hti, htl, hlow⟩ := ih hinv hlive hsorted.of_cons (fun c hne => by
          change (lsq.rob.entry current).destinationMemory c ≠ 0 at hne
          rw [hmemory] at hne
          exact hrest.next ⟨hroom, hfront⟩ hself hmono c hne)
        rw [if_pos ⟨hdest, hadded, hroom, hfront⟩, if_pos ⟨hdest, hadded, hroom, (front_iff h hi).mp hfront⟩, hadd]
        exact ⟨t, ht, hti, htl, hlow⟩
      · rw [if_neg hgo, if_neg (fun hc => hgo ⟨hc.1, hc.2.1, hc.2.2.1, (front_iff h hi).mpr hc.2.2.2⟩)]
        refine ih h hi hsorted.of_cons (hrest.skip (fun hne => ?_))
        by_cases hca : (s.lsq.rob.entry current).destinationAdded d = true
        · exact .inl hca
        · exact .inr (fun hb => hgo ⟨hne, Bool.eq_false_iff.mpr hca, hb⟩)

theorem added_of_available {e : RobEntry} (h : e.available = true) (d : Fin numInstrDestinations) :
    e.destinationMemory d = 0 ∨ e.destinationAdded d = true := by
  have hd := List.all_eq_true.mp (Bool.and_eq_true_iff.mp h).2 d (List.mem_finRange d)
  rcases Bool.or_eq_true_iff.mp hd with hzero | hadded
  · exact .inl (of_decide_eq_true hzero)
  · exact .inr hadded

theorem Inv.mark {f : RobEntry → RobEntry} (stage : Stage) (h : Inv size read gone s) (hi : Live s.lsq.rob i)
    (hf : textOf (f (s.lsq.rob.entry i)) = Text.mark stage (textOf (s.lsq.rob.entry i)))
    (hstage : stage ≠ .idle → ∀ d, (storeAt s.lsq.program (s.lsq.rob.entry i).instrId d).virtualAddress ≠ 0 →
      (s.lsq.rob.entry i).destinationAdded d = true) : Inv size read gone { s with lsq := s.lsq.modifyRob i f } := by
  refine ⟨h.capacity, h.program, h.ring, ?_, h.passed⟩
  show Ordered gone _ _ (pathOf (s.lsq.modifyRob i f))
  rw [pathOf_mark hf]
  exact h.path.mark hi hstage

theorem scheduling_inv (h : Inv size read [] s) (hi : Live s.lsq.rob current)
    (hloads : (List.finRange numInstrSources).foldlM (checkLoad current) s.lsq = some lsq) :
    ∃ t, doMemoryScheduling s current = some t ∧ Inv size read [] t ∧
      LoadStoreQueue.doMemoryScheduling s.lsq current = some t.lsq := by
  have hpath := pathOf_checkLoads hloads
  have hlive : Live (pathOf lsq).rob current := by
    rw [hpath]
    exact hi
  obtain ⟨t, ht, hinv, htl, hlow⟩ := checkStores_inv (List.finRange numInstrDestinations) (h.of_path hpath) hlive
    (List.pairwise_lt_finRange _) (fun c _ => .inr (.inl (List.mem_finRange c)))
  rw [doMemoryScheduling, checkAndAddLsq, LoadStoreQueue.doMemoryScheduling, LoadStoreQueue.checkAndAddLsq, hloads,
    Option.bind_some, Option.bind_some, ht, hlow, Option.map_some, Option.map_some]
  refine ⟨_, rfl, ?_, ?_⟩
  · split_ifs with havailable
    · have hk := hinv.path.knows htl
      refine hinv.mark (if (t.lsq.rob.entry current).executed = .idle then .inflight else (t.lsq.rob.entry current).executed)
        htl rfl (fun _ d hd => hk.added_of_available hinv.path.after (added_of_available havailable d) hd)
    · exact hinv
  · split_ifs
    · rfl
    · rfl

end Enter

section Retire

theorem Inv.head_live (h : Inv size read gone s) (hexecuted : (s.lsq.rob.entry s.lsq.rob.head).executed ≠ .idle) :
    Live s.lsq.rob s.lsq.rob.head := by
  by_contra hl
  have hblank : textOf (s.lsq.rob.entry s.lsq.rob.head) = textOf .empty := h.path.rob.blank _ hl
  have hidle : (s.lsq.rob.entry s.lsq.rob.head).executed = .idle := congrArg Text.executed hblank
  exact hexecuted hidle

theorem executed_slot (h : Inv size read [] s) (hi : Live s.lsq.rob i) (hexecuted : (s.lsq.rob.entry i).executed ≠ .idle)
    (hdest : (s.lsq.rob.entry i).destinationMemory d ≠ 0) : ∃ q, (s.lsq.rob.entry i).sqIndex d = some q ∧
      storeOf (s.lsq.sq.entry q) = storeAt s.lsq.program (s.lsq.rob.entry i).instrId d := by
  have hk := h.path.knows hi
  obtain ⟨hx, hout, -⟩ := hk.mem hdest
  have hindexed := hk.indexed d
  rw [hk.executed hexecuted d (storeAt_mem.mp hx)] at hindexed
  obtain ⟨q, hq⟩ := Option.isSome_iff_exists.mp hindexed
  exact ⟨q, hq, (hk.index hq (fun hin => hout (h.path.before hin))).2⟩

theorem write_inv (h : Inv size read [] s) (hexecuted : (s.lsq.rob.entry s.lsq.rob.head).executed ≠ .idle)
    (hdest : (s.lsq.rob.entry s.lsq.rob.head).destinationMemory d ≠ 0)
    (hslot : storeOf (s.lsq.sq.entry q) = storeAt s.lsq.program (s.lsq.rob.entry s.lsq.rob.head).instrId d)
    (hbefore : ∀ c, c < d → (s.lsq.rob.entry s.lsq.rob.head).destinationMemory c = 0) :
    Inv size read [] { s with lsq := cleared s.lsq d, log := s.log ++ [.written (storeOf (s.lsq.sq.entry q))] } := by
  refine ⟨h.capacity, h.program, h.ring, ?_, passed_append (p := .written _) h.passed nofun⟩
  show Ordered [] (releases (s.log ++ [_])) (writes (s.log ++ [_])) (pathOf (cleared s.lsq d))
  rw [releases_written, writes_written, cleared, pathOf_write, hslot]
  exact h.path.write (h.head_live hexecuted) hexecuted hdest hbefore

theorem writeStores_inv (rest : List (Fin numInstrDestinations)) (room : Nat) (h : Inv size read [] s)
    (hexecuted : (s.lsq.rob.entry s.lsq.rob.head).executed ≠ .idle) (hsorted : rest.Pairwise (fun c d => c < d))
    (hdone : ∀ c, c ∉ rest → (s.lsq.rob.entry s.lsq.rob.head).destinationMemory c = 0) :
    ∃ t b, writeStores s rest room = some (t, b) ∧ Inv size read [] t ∧ (t.lsq.rob.entry t.lsq.rob.head).executed ≠ .idle ∧
      (b = true → ∀ c, (t.lsq.rob.entry t.lsq.rob.head).destinationMemory c = 0) ∧
      LoadStoreQueue.writeStores s.lsq rest room = (t.lsq, b) := by
  induction rest generalizing s room with
  | nil => exact ⟨s, true, rfl, h, hexecuted, fun _ c => hdone c List.not_mem_nil, rfl⟩
  | cons d rest ih =>
      simp only [writeStores, LoadStoreQueue.writeStores]
      by_cases hzero : (s.lsq.rob.entry s.lsq.rob.head).destinationMemory d = 0
      · rw [if_pos hzero, if_pos hzero]
        refine ih room h hexecuted hsorted.of_cons (fun c hc => ?_)
        by_cases hcd : c = d
        · rw [hcd]
          exact hzero
        · exact hdone c (fun hin => (List.mem_cons.mp hin).elim hcd hc)
      · have hhead := h.head_live hexecuted
        obtain ⟨q, hq, hslot⟩ := executed_slot h hhead hexecuted hzero
        rw [if_neg hzero, if_neg hzero, hq]
        cases room with
        | zero => exact ⟨s, false, rfl, h, hexecuted, fun hb => absurd hb Bool.false_ne_true, rfl⟩
        | succ room =>
            have hinv := write_inv h hexecuted hzero hslot (fun c hc => hdone c (not_mem_of_lt hsorted hc))
            refine ih room hinv ?_ hsorted.of_cons (fun c hc => ?_)
            · show ((cleared s.lsq d).rob.entry s.lsq.rob.head).executed ≠ .idle
              rw [cleared_keeps RobEntry.executed (fun _ _ => rfl)]
              exact hexecuted
            · show ((cleared s.lsq d).rob.entry s.lsq.rob.head).destinationMemory c = 0
              rw [cleared_destination]
              split_ifs with hcd
              · rfl
              · exact hdone c (fun hin => (List.mem_cons.mp hin).elim (fun he => hcd ⟨rfl, he⟩) hc)

theorem releaseStore_rob : (releaseStore s d).lsq.rob = s.lsq.rob := by
  rw [releaseStore]
  cases hindex : (s.lsq.rob.entry s.lsq.rob.head).sqIndex d with
  | none => rfl
  | some q =>
      show (LoadStoreQueue.releaseStore s.lsq d).rob = s.lsq.rob
      rw [LoadStoreQueue.releaseStore, hindex]

theorem releaseStore_lsq : (releaseStore s d).lsq = LoadStoreQueue.releaseStore s.lsq d := by
  rw [releaseStore]
  cases hindex : (s.lsq.rob.entry s.lsq.rob.head).sqIndex d with
  | none =>
      show s.lsq = LoadStoreQueue.releaseStore s.lsq d
      rw [LoadStoreQueue.releaseStore, hindex]
  | some q => rfl

theorem releaseStores_lsq {rest : List (Fin numInstrDestinations)} :
    (rest.foldl releaseStore s).lsq = rest.foldl LoadStoreQueue.releaseStore s.lsq := by
  induction rest generalizing s with
  | nil => rfl
  | cons d rest ih => rw [List.foldl_cons, ih, List.foldl_cons, releaseStore_lsq]

theorem releaseStore_inv (h : Inv size read gone s) (hexecuted : (s.lsq.rob.entry s.lsq.rob.head).executed ≠ .idle)
    (hwritten : ∀ c, (s.lsq.rob.entry s.lsq.rob.head).destinationMemory c = 0) (hgone : d ∉ gone)
    (hbefore : ∀ c, c < d → c ∈ gone) : Inv size read (d :: gone) (releaseStore s d) := by
  have hhead := h.head_live hexecuted
  rw [releaseStore]
  cases hindex : (s.lsq.rob.entry s.lsq.rob.head).sqIndex d with
  | none => exact ⟨h.capacity, h.program, h.ring, release_none h.path hhead hexecuted hindex, h.passed⟩
  | some q =>
      obtain ⟨hsent, hordered⟩ := release_some h.path hhead hwritten hgone hbefore hindex
      have hsta : (LoadStoreQueue.releaseStore s.lsq d).sta = s.lsq.sta := congrArg Path.sta (pathOf_release hindex)
      have hprogram : (LoadStoreQueue.releaseStore s.lsq d).program = s.lsq.program :=
        congrArg Path.program (pathOf_release hindex)
      refine ⟨h.capacity, ?_, ?_, ?_, passed_append (p := .released _) h.passed (fun x hx => ?_)⟩
      · show (LoadStoreQueue.releaseStore s.lsq d).program ++ s.fetched = read
        rw [hprogram]
        exact h.program
      · show Holds s.sta ((LoadStoreQueue.releaseStore s.lsq d).sta ++
          (storesFrom (LoadStoreQueue.releaseStore s.lsq d).program.length s.fetched).map Store.instrId)
        rw [hsta, hprogram]
        exact h.ring
      · show Ordered _ (releases (s.log ++ [_])) (writes (s.log ++ [_])) (pathOf (LoadStoreQueue.releaseStore s.lsq d))
        rw [releases_released, writes_released, pathOf_release hindex]
        exact hordered
      · rw [← Passage.released.inj hx]
        exact mem_writes.mp hsent

theorem releaseStores_inv {rest : List (Fin numInstrDestinations)} (h : Inv size read gone s)
    (hexecuted : (s.lsq.rob.entry s.lsq.rob.head).executed ≠ .idle)
    (hwritten : ∀ c, (s.lsq.rob.entry s.lsq.rob.head).destinationMemory c = 0)
    (hsplit : Split gone rest) : ∃ gone', (∀ c, c ∈ gone') ∧ Inv size read gone' (rest.foldl releaseStore s) ∧
      (rest.foldl releaseStore s).lsq.rob = s.lsq.rob := by
  induction rest generalizing s gone with
  | nil => exact ⟨gone, hsplit.mem, h, rfl⟩
  | cons d rest ih =>
      have hinv := releaseStore_inv h hexecuted hwritten hsplit.fresh (fun c hc => hsplit.before hc)
      rw [← releaseStore_rob (s := s) (d := d)] at hexecuted hwritten
      obtain ⟨gone', hgone', hrest, hrob⟩ := ih hinv hexecuted hwritten hsplit.next
      exact ⟨gone', hgone', hrest, hrob.trans releaseStore_rob⟩

theorem releaseRob_inv (h : Inv size read [] s) (hexecuted : (s.lsq.rob.entry s.lsq.rob.head).executed ≠ .idle)
    (hwritten : ∀ c, (s.lsq.rob.entry s.lsq.rob.head).destinationMemory c = 0) : Inv size read [] (releaseRob s) := by
  obtain ⟨gone, hall, hreleased, hrob⟩ := releaseStores_inv h hexecuted hwritten (split_finRange _)
  have hhead := h.head_live hexecuted
  rw [← hrob] at hhead
  refine ⟨hreleased.capacity, hreleased.program, hreleased.ring, ?_, hreleased.passed⟩
  have hleave := hreleased.path.leave hhead hall
  rw [← pathOf_leave] at hleave
  exact hleave

theorem retire_inv (room : Nat) (h : Inv size read [] s) :
    ∃ t, retireRob s room = some t ∧ Inv size read [] t ∧ LoadStoreQueue.retireRob s.lsq room = t.lsq := by
  rw [retireRob, LoadStoreQueue.retireRob]
  by_cases hcompleted : (s.lsq.rob.entry s.lsq.rob.head).executed = .completed
  · obtain ⟨t, b, ht, hinv, hexecuted, hwritten, hlow⟩ := writeStores_inv (List.finRange numInstrDestinations) room h
      (by rw [hcompleted]; decide) (List.pairwise_lt_finRange _) (fun c hc => absurd (List.mem_finRange c) hc)
    rw [if_pos hcompleted, if_pos hcompleted, ht, hlow]
    cases b with
    | false => exact ⟨t, rfl, hinv, rfl⟩
    | true =>
        refine ⟨releaseRob t, rfl, releaseRob_inv hinv hexecuted (hwritten rfl), ?_⟩
        have hlsq : ((List.finRange numInstrDestinations).foldl releaseStore t).lsq =
            (List.finRange numInstrDestinations).foldl LoadStoreQueue.releaseStore t.lsq := releaseStores_lsq
        exact congrArg (fun u : LoadStoreQueue.State => { u with rob := u.rob.popAt .empty u.rob.head }) hlsq.symm
  · rw [if_neg hcompleted, if_neg hcompleted]
    exact ⟨s, rfl, h, rfl⟩

end Retire

end Thermometer.StoreInvariant
