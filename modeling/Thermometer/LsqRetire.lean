import Thermometer.LsqExecute

namespace Thermometer.LsqRetire

open Lib.Rings Lib.Traversal Lib.Windows LoadStoreQueue LsqInvariant LsqFrame LsqRelease

open ReorderBuffer (Stage numInstrSources)

variable {s t u : State} {q n m k x : Nat} {o : Operand} {i d : Fin numInstrDestinations}

theorem live_of_executed (h : Basic s) (hx : (s.rob.entry x).executed ≠ .idle) : Live s.rob x := by
  apply live_of_entry h
  intro he
  rw [he] at hx
  exact hx rfl

theorem finished_of_completed (h : Basic s) (hx : (s.rob.entry x).executed = .completed)
    (ho : o ∈ (instrAt s (s.rob.entry x).instrId).operands) : Finished s (s.rob.entry x).instrId o := by
  have hlive : Live s.rob x := live_of_executed h (by rw [hx]; nofun)
  have hnum := h.num hlive
  rw [h.completed hx] at hnum
  have hcard : (unfinished s (s.rob.entry x).instrId).card = 0 := by omega
  by_contra hf
  have hmem : o ∈ unfinished s (s.rob.entry x).instrId := mem_unfinished.mpr ⟨mem_operands.mp ho, hf⟩
  rw [Finset.card_eq_zero.mp hcard] at hmem
  cases hmem

section Clear

def cleared (s : State) (i : Fin numInstrDestinations) : State :=
  s.modifyRob s.rob.head (fun e => { e with destinationMemory := Function.update e.destinationMemory i 0 })

theorem cleared_of_ne (hx : x ≠ s.rob.head) : (cleared s i).rob.entry x = s.rob.entry x := by
  rw [cleared, State.modifyRob, modify_of_ne hx]

theorem cleared_keeps {B : Type} (g : RobEntry → B) (h : ∀ e dest, g { e with destinationMemory := dest } = g e) (x : Nat) :
    g ((cleared s i).rob.entry x) = g (s.rob.entry x) := by
  rw [cleared, State.modifyRob, modify_keeps g (h _ _)]

theorem cleared_destination : ((cleared s i).rob.entry x).destinationMemory d =
    if x = s.rob.head ∧ d = i then 0 else (s.rob.entry x).destinationMemory d := by
  by_cases hx : x = s.rob.head
  · subst hx
    rw [cleared, State.modifyRob, modify_self]
    show Function.update _ i 0 d = _
    by_cases hd : d = i
    · rw [hd, Function.update_self, if_pos ⟨rfl, rfl⟩]
    · rw [Function.update_of_ne hd, if_neg (fun hc => hd hc.2)]
  · rw [cleared_of_ne hx, if_neg (fun hc => hx hc.1)]

theorem cleared_inv (h : Inv s) (hcompleted : (s.rob.entry s.rob.head).executed = .completed) : Inv (cleared s i) := by
  have hhead : Live s.rob s.rob.head := live_of_executed h.basic (by rw [hcompleted]; nofun)
  have hsame : Same s (cleared s i) := same_modifyRob hhead rfl rfl rfl
  have hnum : ∀ x, ((cleared s i).rob.entry x).numMemOps = (s.rob.entry x).numMemOps := cleared_keeps _ (fun _ _ => rfl)
  have hexecuted : ∀ x, ((cleared s i).rob.entry x).executed = (s.rob.entry x).executed := cleared_keeps _ (fun _ _ => rfl)
  have hsubset : ∀ {x d}, ((cleared s i).rob.entry x).destinationMemory d ≠ 0 →
      ((cleared s i).rob.entry x).destinationMemory d = (s.rob.entry x).destinationMemory d := by
    intro x d hd
    rw [cleared_destination] at hd ⊢
    split_ifs at hd ⊢
    · exact absurd rfl hd
    · rfl
  have hwrites : ∀ {k a}, WritesTo (cleared s i) k a → WritesTo s k a := by
    intro k a hw
    obtain ⟨d, hd, hda⟩ := stores_iff.mp hw
    have heq := hsubset hd
    rw [heq] at hd hda
    exact stores_iff.mpr ⟨d, hd, hda⟩
  refine ⟨hsame.basic h.basic (fun x d => ?_) (fun x hx => ?_) (fun x hx => ?_) (fun x hx => ?_),
    hsame.history h.history rfl, ?_, ?_⟩
  · rw [cleared_destination, hexecuted]
    split_ifs with hc
    · exact .inr ⟨rfl, hc.1 ▸ hcompleted⟩
    · exact .inl rfl
  · rw [hexecuted]
    exact hx
  · rw [hnum, hsame.unfinished rfl]
    exact h.basic.num hx
  · rw [hexecuted] at hx
    rw [hnum]
    exact h.basic.completed hx
  · refine hsame.loads h.loads hwrites (fun {k l a} hl hw hwl => ?_) (cleared_keeps _ (fun _ _ => rfl))
      (cleared_keeps _ (fun _ _ => rfl)) (cleared_keeps _ (fun _ _ => rfl)) (cleared_keeps _ (fun _ _ => rfl)) rfl rfl rfl rfl
      (fun _ _ => Iff.rfl) h.loads.pending
    rcases hl with rfl | hl
    · exact hw
    · have hne : l ≠ s.rob.head := by
        rintro rfl
        exact not_older_head h.basic.shape hl
      rw [WritesTo, cleared_of_ne hne]
      exact hwl
  · exact hsame.stores h.stores (fun x d hd => by rwa [hsubset hd] at hd) (cleared_keeps _ (fun _ _ => rfl))
      (cleared_keeps _ (fun _ _ => rfl)) rfl rfl rfl (fun _ _ => Iff.rfl)

theorem writeStores_inv (rest : List (Fin numInstrDestinations)) (room : Nat) (h : Inv s)
    (hcompleted : (s.rob.entry s.rob.head).executed = .completed) :
    Inv (writeStores s rest room).1 ∧ (writeStores s rest room).1.rob.head = s.rob.head ∧
      ((writeStores s rest room).1.rob.entry s.rob.head).executed = .completed := by
  induction rest generalizing s room with
  | nil => exact ⟨h, rfl, hcompleted⟩
  | cons i rest ih =>
      simp only [writeStores]
      by_cases hzero : (s.rob.entry s.rob.head).destinationMemory i = 0
      · rw [if_pos hzero]
        exact ih room h hcompleted
      · rw [if_neg hzero]
        cases room with
        | zero => exact ⟨h, rfl, hcompleted⟩
        | succ room =>
            have hstill : ((cleared s i).rob.entry (cleared s i).rob.head).executed = .completed := by
              rw [cleared_keeps RobEntry.executed (fun _ _ => rfl)]
              exact hcompleted
            exact ih (s := cleared s i) room (cleared_inv h hcompleted) hstill

end Clear

section ReleaseStores

/-- The state while the stores of the instruction at the head leave the store queue. -/
structure Releasing (gone : List (Fin numInstrDestinations)) (s : State) : Prop where
  basic : Basic s
  history : History s
  loads : Loads none none s
  stores : Stores gone s
  completed : (s.rob.entry s.rob.head).executed = .completed
  absent : ∀ {q}, Live s.sq q → (s.sq.entry q).robIndex = s.rob.head → (s.sq.entry q).dataIndex ∉ gone

variable {gone : List (Fin numInstrDestinations)}

theorem head_of_order (h : Releasing gone s) (hq : Live s.sq q) (hrob : (s.sq.entry q).robIndex = s.rob.head)
    (hbefore : ∀ c, c < (s.sq.entry q).dataIndex → c ∈ gone) : q = s.sq.head := by
  have hs := h.stores
  obtain ⟨b, hb, rfl⟩ := hq
  cases b with
  | zero => exact slot_zero hs.shape
  | succ b =>
      have hfirst : Live s.sq (s.sq.slot 0) := live_slot (Nat.zero_lt_of_lt hb)
      have hlast : Live s.sq (s.sq.slot (b + 1)) := live_slot hb
      exfalso
      rcases hs.order (Nat.succ_pos b) hb with hlt | ⟨heq, hlt⟩
      · rw [hs.id hfirst, hs.id hlast, hrob] at hlt
        rcases head_or_older h.basic.shape (hs.live hfirst) with he | ho
        · rw [he] at hlt
          exact absurd hlt (lt_irrefl _)
        · exact absurd (h.basic.numbered.lt_of_older ho) (lt_asymm hlt)
      · have hr : (s.sq.entry (s.sq.slot 0)).robIndex = s.rob.head := by
          rw [hs.id hfirst, hs.id hlast] at heq
          rw [h.basic.numbered.inj (hs.live hfirst) (hs.live hlast) heq]
          exact hrob
        exact h.absent hfirst hr (hbefore _ hlt)

def popped (s : State) : State := { s with sq := s.sq.popAt .empty s.sq.head }

theorem popped_live (h : Releasing gone s) : Live (popped s).sq x ↔ Live s.sq x ∧ x ≠ s.sq.head := live_pop h.stores.shape

theorem popped_entry (hx : x ≠ s.sq.head) : (popped s).sq.entry x = s.sq.entry x := pop_of_ne hx

theorem head_fetched (h : Releasing gone s) (hq : Live s.sq q) (hrob : (s.sq.entry q).robIndex = s.rob.head) :
    (s.sq.entry q).fetched = true := by
  have hs := h.stores
  rw [hs.fetched hq, hs.id hq, hrob]
  apply finished_of_completed h.basic h.completed
  rw [mem_operands]
  change (instrAt s _).destinationMemory _ ≠ 0
  rw [← hrob, ← hs.id hq, ← hs.address hq]
  exact hs.nonzero hq

theorem popped_order (h : Releasing gone s) {a b : Nat} (hab : a < b) (hb : b < (popped s).sq.occupancy) :
    Before ((popped s).sq.entry ((popped s).sq.slot a)) ((popped s).sq.entry ((popped s).sq.slot b)) := by
  have hs := h.stores
  have hlt : b + 1 < s.sq.occupancy := Nat.add_lt_of_lt_sub hb
  have hslot : ∀ c, (popped s).sq.slot c = s.sq.slot (c + 1) := slot_pop hs.shape
  have hne : ∀ c, c + 1 < s.sq.occupancy → s.sq.slot (c + 1) ≠ s.sq.head := by
    intro c hc he
    exact absurd (slot_inj hs.shape hc (Nat.zero_lt_of_lt hc) (he.trans (slot_zero hs.shape).symm)) (Nat.succ_ne_zero c)
  rw [hslot, hslot, popped_entry (hne a (Nat.lt_trans (Nat.succ_lt_succ hab) hlt)), popped_entry (hne b hlt)]
  exact hs.order (Nat.succ_lt_succ hab) hlt

theorem popped_stores (h : Releasing gone s) (hq : Live s.sq s.sq.head)
    (hrob : (s.sq.entry s.sq.head).robIndex = s.rob.head) (hdata : (s.sq.entry s.sq.head).dataIndex = i) :
    Stores (i :: gone) (popped s) := by
  have hs := h.stores
  have hkept : Kept s (popped s) := kept_of_rob rfl rfl
  have hstay : ∀ {x}, Live (popped s).sq x → Live s.sq x ∧ SameStore ((popped s).sq.entry x) (s.sq.entry x) := by
    intro x hx
    obtain ⟨hx, hne⟩ := (popped_live h).mp hx
    exact ⟨hx, .of_eq (popped_entry hne)⟩
  refine hkept.toSame.stores_of_stay hs hstay (fun _ _ hd => hd) (fun _ => rfl) (fun _ => rfl) rfl
    (hs.shape.pop (occupancy_pos hq)) (fun {y d x} hy hx hg => ?_) (fun {x} hx => ?_) hs.unadded (popped_order h) hs.nodup
    (fun {x} => ?_)
  · obtain ⟨hlx, hxr, hxd⟩ := hs.back hy hx (fun hc => hg ⟨hc.1, List.mem_cons_of_mem _ hc.2⟩)
    have hne : x ≠ s.sq.head := by
      rintro rfl
      refine hg ⟨hxr.symm.trans hrob, ?_⟩
      rw [← hxd, hdata]
      exact List.mem_cons_self
    rw [popped_entry hne]
    exact ⟨(popped_live h).mpr ⟨hlx, hne⟩, hxr, hxd⟩
  · obtain ⟨hx, hne⟩ := (popped_live h).mp hx
    rw [popped_entry hne]
    exact hs.fetched hx
  · change x ∈ s.storesToExecute ↔ _
    rw [hs.executing, popped_live h]
    constructor
    · rintro ⟨hx, hf⟩
      have hne : x ≠ s.sq.head := by
        rintro rfl
        rw [head_fetched h hx hrob] at hf
        cases hf
      rw [popped_entry hne]
      exact ⟨⟨hx, hne⟩, hf⟩
    · rintro ⟨⟨hx, hne⟩, hf⟩
      rw [popped_entry hne] at hf
      exact ⟨hx, hf⟩

theorem popped_releasing (h : Releasing gone s) (hq : Live s.sq s.sq.head)
    (hrob : (s.sq.entry s.sq.head).robIndex = s.rob.head) (hdata : (s.sq.entry s.sq.head).dataIndex = i) :
    Releasing (i :: gone) (popped s) := by
  have hs := h.stores
  have hl := h.loads
  have hkept : Kept s (popped s) := kept_of_rob rfl rfl
  refine ⟨hkept.basic h.basic (fun _ hx => hx) (fun _ hx => h.basic.num hx) (fun _ hx => h.basic.completed hx),
    hkept.history h.history rfl, ?_, popped_stores h hq hrob hdata, h.completed, fun {x} hx hr => ?_⟩
  · exact hkept.loads hl (fun _ => rfl) (fun _ => rfl) (fun _ => rfl) (fun _ => rfl) rfl rfl rfl rfl (fun _ _ => Iff.rfl)
      hl.pending
  · obtain ⟨hx, hne⟩ := (popped_live h).mp hx
    rw [popped_entry hne] at hr ⊢
    rw [List.mem_cons, not_or]
    refine ⟨fun hd => hne ?_, h.absent hx hr⟩
    have hr : (s.sq.entry x).robIndex = s.rob.head := hr
    have hindex := hs.index hx
    rw [hr, hd, ← hrob, ← hdata, hs.index hq, Option.some.injEq] at hindex
    exact hindex.symm

theorem releaseStore_releasing (h : Releasing gone s) (hi : i ∉ gone) (hbefore : ∀ c, c < i → c ∈ gone) :
    Releasing (i :: gone) (releaseStore s i) := by
  have hhead : Live s.rob s.rob.head := live_of_executed h.basic (by rw [h.completed]; nofun)
  rw [releaseStore]
  cases hindex : (s.rob.entry s.rob.head).sqIndex i with
  | none =>
      have hs := h.stores
      refine ⟨h.basic, h.history, h.loads, ⟨hs.shape, hs.live, hs.id, hs.index, hs.nonzero, hs.address,
        fun hy hx hg => hs.back hy hx (fun hc => hg ⟨hc.1, List.mem_cons_of_mem _ hc.2⟩), hs.added, hs.fetched, hs.unadded,
        hs.order, hs.sorted, hs.numbered, hs.first, hs.before, hs.nodup, hs.executing⟩, h.completed, fun {x} hx hr => ?_⟩
      rw [List.mem_cons, not_or]
      refine ⟨fun hd => ?_, h.absent hx hr⟩
      have hx := hs.index hx
      rw [hr, hd, hindex] at hx
      cases hx
  | some q =>
      obtain ⟨hq, hrob, hdata⟩ := h.stores.back hhead hindex (fun hc => hi hc.2)
      have hfirst : q = s.sq.head := head_of_order h hq hrob (by rw [hdata]; exact hbefore)
      subst hfirst
      exact popped_releasing h hq hrob hdata

theorem releaseStores_releasing {rest : List (Fin numInstrDestinations)} (h : Releasing gone s)
    (hsplit : Split gone rest) : ∃ gone', (∀ c, c ∈ gone') ∧ Releasing gone' (rest.foldl releaseStore s) := by
  induction rest generalizing s gone with
  | nil => exact ⟨gone, hsplit.mem, h⟩
  | cons i rest ih =>
      have hnext := releaseStore_releasing h hsplit.fresh (fun c hc => hsplit.before hc)
      exact ih hnext hsplit.next

end ReleaseStores

section Leave

variable {gone : List (Fin numInstrDestinations)}

def left (s : State) : State := { s with rob := s.rob.popAt .empty s.rob.head }

theorem left_entry (hx : x ≠ s.rob.head) : (left s).rob.entry x = s.rob.entry x := pop_of_ne hx

theorem left_head : (left s).rob.entry s.rob.head = .empty := pop_head

theorem left_live (h : Basic s) : Live (left s).rob x ↔ Live s.rob x ∧ x ≠ s.rob.head := live_pop h.shape

theorem left_basic (h : Basic s) (hhead : Live s.rob s.rob.head) : Basic (left s) := by
  constructor
  · exact h.shape.pop (occupancy_pos hhead)
  · exact h.numbered.pop h.shape
  · intro x hx
    obtain ⟨hx, hne⟩ := (left_live h).mp hx
    rw [left_entry hne]
    exact h.source hx
  · intro x hx d
    obtain ⟨hx, hne⟩ := (left_live h).mp hx
    rw [left_entry hne]
    exact h.destination hx d
  · intro x hx
    obtain ⟨hx, hne⟩ := (left_live h).mp hx
    rw [left_entry hne]
    exact h.memory hx
  · intro x hx
    obtain ⟨hx, hne⟩ := (left_live h).mp hx
    rw [left_entry hne]
    exact h.num hx
  · intro x hx
    by_cases hne : x = s.rob.head
    · rw [hne, left_head] at hx
      cases hx
    · rw [left_entry hne] at hx ⊢
      exact h.completed hx

theorem left_history (h : Releasing gone s) (hhead : Live s.rob s.rob.head) : History (left s) := by
  refine ⟨h.history.nodup, h.history.bound, h.history.address, h.history.released, fun n hn o ho => ?_⟩
  have hn : n + (s.rob.occupancy - 1) < s.program.length := hn
  have hpos := occupancy_pos hhead
  by_cases hlt : n + s.rob.occupancy < s.program.length
  · exact h.history.retired n hlt o ho
  · have hid := h.basic.numbered 0 hpos
    rw [slot_zero h.basic.shape] at hid
    have hn : (s.rob.entry s.rob.head).instrId = n := by omega
    subst hn
    exact finished_of_completed h.basic h.completed ho

theorem left_load (h : Releasing gone s) (hu : Used s q) : (s.lq q).robIndex ≠ s.rob.head := by
  intro he
  apply h.loads.waiting hu
  have hid := h.loads.id hu
  have haddress := h.loads.address hu
  rw [he] at hid haddress
  rw [hid]
  apply finished_of_completed h.basic h.completed
  rw [mem_operands]
  show (instrAt s _).sourceMemory _ ≠ 0
  rw [← h.basic.source (live_of_executed h.basic (by rw [h.completed]; nofun)), ← haddress]
  exact hu

theorem left_producer (h : Releasing gone s) (hu : Used s q) (hp : (s.lq q).producerId = some n)
    (hid : (s.rob.entry k).instrId = n) : k ≠ s.rob.head := by
  rintro rfl
  obtain ⟨d, hd, hf⟩ := h.loads.pending hu hp nofun nofun
  apply hf
  rw [← hid] at hd ⊢
  apply finished_of_completed h.basic h.completed
  rw [mem_operands]
  show (instrAt s _).destinationMemory d ≠ 0
  rw [hd]
  exact hu

theorem left_writesTo {a : Nat} (hk : k ≠ s.rob.head) : WritesTo (left s) k a ↔ WritesTo s k a := by
  rw [WritesTo, WritesTo, left_entry hk]

theorem left_loads (h : Releasing gone s) : Loads none none (left s) := by
  have hl := h.loads
  have hs := h.basic.shape
  have hentry : ∀ {q}, Used s q → (left s).rob.entry ((left s).lq q).robIndex = s.rob.entry (s.lq q).robIndex :=
    fun hq => left_entry (left_load h hq)
  constructor
  · exact hl.slot
  · intro q hq
    exact (left_live h.basic).mpr ⟨hl.live hq, left_load h hq⟩
  · intro q hq
    rw [hentry hq]
    exact hl.id hq
  · intro q hq
    rw [hentry hq]
    exact hl.index hq
  · intro q hq
    rw [hentry hq]
    exact hl.added hq
  · intro q hq
    rw [hentry hq]
    exact hl.address hq
  · exact hl.waiting
  · intro x j hx ha hf
    obtain ⟨hx, hne⟩ := (left_live h.basic).mp hx
    rw [left_entry hne] at ha hf ⊢
    exact hl.back hx ha hf
  · intro x j hx ha
    obtain ⟨hx, hne⟩ := (left_live h.basic).mp hx
    rw [left_entry hne] at ha ⊢
    exact hl.unadded hx ha
  · exact hl.free
  · exact hl.occupancy
  · exact hl.nodup
  · exact hl.returning
  · intro q k hq hk hw
    obtain ⟨hk, hne⟩ := (older_pop hs).mp hk
    obtain ⟨l, hkl, hold, hwl, hp⟩ := hl.youngest hq hk ((left_writesTo hne).mp hw)
    have hlne : l ≠ s.rob.head := by
      rintro rfl
      rcases hkl with rfl | hkl
      · exact hne rfl
      · exact not_older_head hs hkl
    refine ⟨l, hkl.imp_right (fun ho => (older_pop hs).mpr ⟨ho, hne⟩), (older_pop hs).mpr ⟨hold, hlne⟩,
      (left_writesTo hlne).mpr hwl, ?_⟩
    rw [left_entry hlne]
    exact hp
  · intro q n hq hp
    obtain ⟨k, hold, hid, hprod, hin⟩ := hl.producer hq hp
    have hne : k ≠ s.rob.head := left_producer h hq hp hid
    refine ⟨k, (older_pop hs).mpr ⟨hold, hne⟩, ?_⟩
    rw [left_entry hne]
    exact ⟨hid, hprod, hin⟩
  · exact hl.pending
  · intro x k hx
    by_cases hne : k = s.rob.head
    · rw [hne, left_head] at hx
      cases hx
    · rw [left_entry hne] at hx
      exact (older_pop hs).mpr ⟨hl.depend hx, hne⟩

theorem left_stores (h : Releasing gone s) (hgone : ∀ c, c ∈ gone) : Stores [] (left s) := by
  have hs := h.stores
  have hrob : ∀ {q}, Live s.sq q → (s.sq.entry q).robIndex ≠ s.rob.head := fun hq he => h.absent hq he (hgone _)
  have hentry : ∀ {q}, Live s.sq q → (left s).rob.entry ((left s).sq.entry q).robIndex = s.rob.entry (s.sq.entry q).robIndex :=
    fun hq => left_entry (hrob hq)
  constructor
  · exact hs.shape
  · intro q hq
    exact (left_live h.basic).mpr ⟨hs.live hq, hrob hq⟩
  · intro q hq
    rw [hentry hq]
    exact hs.id hq
  · intro q hq
    rw [hentry hq]
    exact hs.index hq
  · exact hs.nonzero
  · exact hs.address
  · intro x d q hx hq _
    obtain ⟨hx, hne⟩ := (left_live h.basic).mp hx
    rw [left_entry hne] at hq
    exact hs.back hx hq (fun hc => hne hc.1)
  · intro x d hx
    obtain ⟨hx, hne⟩ := (left_live h.basic).mp hx
    rw [left_entry hne]
    exact hs.added hx
  · exact hs.fetched
  · intro x d hx hd
    obtain ⟨hx, hne⟩ := (left_live h.basic).mp hx
    rw [left_entry hne] at hd ⊢
    exact hs.unadded hx hd
  · exact hs.order
  · exact hs.sorted
  · exact hs.numbered
  · exact hs.first
  · intro x c d hx hd hcd hc
    obtain ⟨hx, hne⟩ := (left_live h.basic).mp hx
    rw [left_entry hne] at hd hc ⊢
    exact hs.before hx hd hcd hc
  · exact hs.nodup
  · exact hs.executing

theorem left_inv (h : Releasing gone s) (hgone : ∀ c, c ∈ gone) : Inv (left s) := by
  have hhead : Live s.rob s.rob.head := live_of_executed h.basic (by rw [h.completed]; nofun)
  exact ⟨left_basic h.basic hhead, left_history h hhead, left_loads h, left_stores h hgone⟩

end Leave

theorem retireRob_inv {room : Nat} (h : Inv s) : Inv (retireRob s room) := by
  by_cases hcompleted : (s.rob.entry s.rob.head).executed = .completed
  · simp only [retireRob, if_pos hcompleted]
    obtain ⟨hinv, hhead, hstill⟩ := writeStores_inv (List.finRange numInstrDestinations) room h hcompleted
    rcases hw : writeStores s (List.finRange numInstrDestinations) room with ⟨t, written⟩
    rw [hw] at hinv hhead hstill
    cases written with
    | false => exact hinv
    | true =>
        rw [← hhead] at hstill
        have hstart : Releasing [] t := ⟨hinv.basic, hinv.history, hinv.loads, hinv.stores, hstill, fun _ _ => List.not_mem_nil⟩
        obtain ⟨gone, hall, hend⟩ := releaseStores_releasing hstart (split_finRange _)
        exact left_inv hend hall
  · rw [retireRob, if_neg hcompleted]
    exact h

end Thermometer.LsqRetire
