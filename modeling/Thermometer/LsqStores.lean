import Thermometer.Lib.Traversal
import Thermometer.LsqLoads

namespace Thermometer.LsqStores

open Lib.Rings Lib.Traversal Lib.Windows LoadStoreQueue LsqInvariant LsqFrame LsqRelease LsqLoads

open ReorderBuffer (Stage numInstrSources)

variable {s t u : State} {q n x current : Nat} {i d : Fin numInstrDestinations}

section Add

/-- The store in the slot at the tail. -/
def stored (s : State) (current : Nat) (i : Fin numInstrDestinations) : State :=
  { s with
    rob := s.rob.modify current (fun e =>
      { e with
        sqIndex := Function.update e.sqIndex i (some s.sq.tail)
        destinationAdded := Function.update e.destinationAdded i true })
    sq := s.sq.push
      { LsqEntry.empty with
        instrId := (s.rob.entry current).instrId
        virtualAddress := (s.rob.entry current).destinationMemory i
        dataIndex := i
        robIndex := current }
    sta := s.sta.tail
    storesToExecute := s.storesToExecute ++ [s.sq.tail] }

theorem addStoreQueue_eq (hblank : (s.sq.entry s.sq.tail).virtualAddress = 0) :
    addStoreQueue s current i = some (stored s current i) := by
  rw [addStoreQueue, if_neg (fun hne => hne hblank)]
  simp only [State.modifyRob, modify_modify, stored]

theorem stored_entry_of_ne (hx : x ≠ current) : (stored s current i).rob.entry x = s.rob.entry x := by
  rw [stored, modify_of_ne hx]

theorem stored_entry_self : (stored s current i).rob.entry current =
    { s.rob.entry current with
      sqIndex := Function.update (s.rob.entry current).sqIndex i (some s.sq.tail)
      destinationAdded := Function.update (s.rob.entry current).destinationAdded i true } := by
  rw [stored, modify_self]

theorem stored_keeps {B : Type} (g : RobEntry → B)
    (h : ∀ e index added, g { e with sqIndex := index, destinationAdded := added } = g e) (x : Nat) :
    g ((stored s current i).rob.entry x) = g (s.rob.entry x) := by
  rw [stored, modify_keeps g (h _ _ _)]

theorem stored_kept (hi : Live s.rob current) : Kept s (stored s current i) := by
  refine ⟨⟨rfl, rfl, rfl, rfl, rfl, fun x hx => ?_, stored_keeps _ (fun _ _ _ => rfl), stored_keeps _ (fun _ _ _ => rfl),
    stored_keeps _ (fun _ _ _ => rfl)⟩, stored_keeps _ (fun _ _ _ => rfl)⟩
  apply stored_entry_of_ne
  rintro rfl
  exact hx hi

theorem stored_index : ((stored s current i).rob.entry x).sqIndex d =
    if x = current ∧ d = i then some s.sq.tail else (s.rob.entry x).sqIndex d := by
  by_cases hx : x = current
  · subst hx
    rw [stored_entry_self]
    show Function.update (s.rob.entry x).sqIndex i (some s.sq.tail) d = _
    by_cases hd : d = i
    · rw [hd, Function.update_self, if_pos ⟨rfl, rfl⟩]
    · rw [Function.update_of_ne hd, if_neg (fun hc => hd hc.2)]
  · rw [stored_entry_of_ne hx, if_neg (fun hc => hx hc.1)]

theorem stored_added : ((stored s current i).rob.entry x).destinationAdded d = true ↔
    (s.rob.entry x).destinationAdded d = true ∨ x = current ∧ d = i := by
  by_cases hx : x = current
  · subst hx
    rw [stored_entry_self]
    show Function.update (s.rob.entry x).destinationAdded i true d = true ↔ _
    by_cases hd : d = i
    · rw [hd, Function.update_self]
      exact iff_of_true rfl (.inr ⟨rfl, rfl⟩)
    · rw [Function.update_of_ne hd, or_iff_left (fun hc => hd hc.2)]
  · rw [stored_entry_of_ne hx, or_iff_left (fun hc => hx hc.1)]

theorem added_of_live (hs : Stores [] s) (hq : Live s.sq q) :
    (s.rob.entry (s.sq.entry q).robIndex).destinationAdded (s.sq.entry q).dataIndex = true := by
  rw [hs.added (hs.live hq), hs.index hq]
  nofun

theorem stored_live (hs : Stores [] s) : Live (stored s current i).sq q ↔ Live s.sq q ∨ q = s.sq.tail :=
  live_push hs.shape

theorem stored_old (hs : Stores [] s) (hroom : s.sq.occupancy < s.sq.size) (hq : Live s.sq q) :
    (stored s current i).sq.entry q = s.sq.entry q := push_live hs.shape hroom hq

theorem stored_new : (stored s current i).sq.entry s.sq.tail =
    { LsqEntry.empty with
      instrId := (s.rob.entry current).instrId
      virtualAddress := (s.rob.entry current).destinationMemory i
      dataIndex := i
      robIndex := current } := push_self

theorem stored_cases {P : Nat → LsqEntry → Prop} (hs : Stores [] s) (hroom : s.sq.occupancy < s.sq.size)
    (hold : ∀ q, Live s.sq q → P q (s.sq.entry q)) (hnew : P s.sq.tail ((stored s current i).sq.entry s.sq.tail))
    (hq : Live (stored s current i).sq q) : P q ((stored s current i).sq.entry q) := by
  rw [stored_new] at hnew
  exact push_cases hs.shape hroom hold hnew hq

theorem differs_of_live (hs : Stores [] s) (hadded : (s.rob.entry current).destinationAdded i = false) (hq : Live s.sq q) :
    ¬((s.sq.entry q).robIndex = current ∧ (s.sq.entry q).dataIndex = i) := by
  rintro ⟨hr, hd⟩
  have hdq := added_of_live hs hq
  rw [hr, hd, hadded] at hdq
  cases hdq

theorem stored_back (hs : Stores [] s) (hi : Live s.rob current) (hroom : s.sq.occupancy < s.sq.size)
    (hx : Live (stored s current i).rob x) (hq : ((stored s current i).rob.entry x).sqIndex d = some q) :
    Live (stored s current i).sq q ∧ ((stored s current i).sq.entry q).robIndex = x ∧
      ((stored s current i).sq.entry q).dataIndex = d := by
  rw [stored_index] at hq
  by_cases hc : x = current ∧ d = i
  · rw [if_pos hc, Option.some.injEq] at hq
    rw [← hq, stored_new]
    exact ⟨(stored_live hs).mpr (.inr rfl), hc.1.symm, hc.2.symm⟩
  · rw [if_neg hc] at hq
    obtain ⟨hlq, hrest⟩ := hs.back ((stored_kept hi).live.mp hx) hq (fun hc => nomatch hc.2)
    rw [stored_old hs hroom hlq]
    exact ⟨(stored_live hs).mpr (.inl hlq), hrest⟩

theorem stored_order (h : Inv s) (hi : Live s.rob current) (hdest : (s.rob.entry current).destinationMemory i ≠ 0)
    (hadded : (s.rob.entry current).destinationAdded i = false) (hroom : s.sq.occupancy < s.sq.size)
    (hsta : s.sta.head? = some (s.rob.entry current).instrId) {a b : Nat} (hab : a < b) (hb : b < s.sq.occupancy + 1) :
    Before ((stored s current i).sq.entry (s.sq.slot a)) ((stored s current i).sq.entry (s.sq.slot b)) := by
  have hs := h.stores
  rcases Nat.lt_succ_iff_lt_or_eq.mp hb with hb | rfl
  · rw [stored_old hs hroom (live_slot (hab.trans hb)), stored_old hs hroom (live_slot hb)]
    exact hs.order hab hb
  · have hla : Live s.sq (s.sq.slot a) := live_slot hab
    rw [stored_old hs hroom hla, ← hs.shape.tail_eq, stored_new]
    rcases Nat.lt_or_eq_of_le (hs.first _ (List.mem_of_head? hsta) hla) with hlt | heq
    · exact .inl hlt
    · refine .inr ⟨heq, ?_⟩
      have hr : (s.sq.entry (s.sq.slot a)).robIndex = current :=
        h.basic.numbered.inj (hs.live hla) hi ((hs.id hla).symm.trans heq)
      have hda := added_of_live hs hla
      rw [hr] at hda
      rcases lt_trichotomy (s.sq.entry (s.sq.slot a)).dataIndex i with hlt | he | hgt
      · exact hlt
      · exact absurd ⟨hr, he⟩ (differs_of_live hs hadded hla)
      · rw [hs.before hi hda hgt hdest] at hadded
        cases hadded

theorem stored_executing (hs : Stores [] s) (hroom : s.sq.occupancy < s.sq.size) :
    q ∈ (stored s current i).storesToExecute ↔
      Live (stored s current i).sq q ∧ ((stored s current i).sq.entry q).fetched = false := by
  show q ∈ s.storesToExecute ++ [s.sq.tail] ↔ _
  rw [List.mem_append, List.mem_singleton, hs.executing, stored_live hs]
  constructor
  · rintro (⟨hq, hf⟩ | rfl)
    · rw [stored_old hs hroom hq]
      exact ⟨.inl hq, hf⟩
    · rw [stored_new]
      exact ⟨.inr rfl, rfl⟩
  · rintro ⟨hq | rfl, hf⟩
    · rw [stored_old hs hroom hq] at hf
      exact .inl ⟨hq, hf⟩
    · exact .inr rfl

theorem stored_stores (h : Inv s) (hi : Live s.rob current) (hdest : (s.rob.entry current).destinationMemory i ≠ 0)
    (hadded : (s.rob.entry current).destinationAdded i = false) (hroom : s.sq.occupancy < s.sq.size)
    (hsta : s.sta.head? = some (s.rob.entry current).instrId)
    (hbefore : ∀ c, c < i → (s.rob.entry current).destinationMemory c ≠ 0 →
      (s.rob.entry current).destinationAdded c = true) : Stores [] (stored s current i) := by
  have hs := h.stores
  have hkept : Kept s (stored s current i) := stored_kept hi
  have hlive : ∀ {q}, Live (stored s current i).sq q ↔ Live s.sq q ∨ q = s.sq.tail := stored_live hs
  have hold : ∀ {q}, Live s.sq q → (stored s current i).sq.entry q = s.sq.entry q := stored_old hs hroom
  have hfin : ∀ n o, Finished (stored s current i) n o ↔ Finished s n o := fun _ _ => Iff.rfl
  constructor
  · exact hs.shape.push hroom
  · intro q hq
    apply hkept.live.mpr
    refine stored_cases (P := fun _ e => Live s.rob e.robIndex) hs hroom (fun _ hq => hs.live hq) ?_ hq
    rw [stored_new]
    exact hi
  · intro q hq
    rw [hkept.id]
    refine stored_cases (P := fun _ e => e.instrId = (s.rob.entry e.robIndex).instrId) hs hroom (fun _ hq => hs.id hq) ?_ hq
    rw [stored_new]
  · intro q hq
    rw [stored_index]
    rcases hlive.mp hq with hq | rfl
    · rw [hold hq, if_neg (differs_of_live hs hadded hq)]
      exact hs.index hq
    · rw [stored_new, if_pos ⟨rfl, rfl⟩]
  · intro q hq
    refine stored_cases (P := fun _ e => e.virtualAddress ≠ 0) hs hroom (fun _ hq => hs.nonzero hq) ?_ hq
    rw [stored_new]
    exact hdest
  · intro q hq
    rw [hkept.instrAt]
    refine stored_cases (P := fun _ e => e.virtualAddress = (instrAt s e.instrId).destinationMemory e.dataIndex) hs hroom
      (fun _ hq => hs.address hq) ?_ hq
    rw [stored_new]
    exact (h.basic.destination hi i).resolve_right (fun hc => hdest hc.1)
  · intro y d q hy hq _
    exact stored_back hs hi hroom hy hq
  · intro y d hy
    rw [stored_added, stored_index]
    by_cases hc : y = current ∧ d = i
    · rw [if_pos hc]
      exact iff_of_true (.inr hc) nofun
    · rw [if_neg hc, or_iff_left hc]
      exact hs.added (hkept.live.mp hy)
  · intro q hq
    rw [hfin]
    refine stored_cases (P := fun _ e => e.fetched = true ↔ Finished s e.instrId (.inr e.dataIndex)) hs hroom
      (fun _ hq => hs.fetched hq) ?_ hq
    rw [stored_new]
    exact iff_of_false nofun (hs.unadded hi hadded)
  · intro y d hy hd
    rw [hkept.id, hfin]
    apply hs.unadded (hkept.live.mp hy)
    by_contra hnot
    rw [stored_added.mpr (.inl (Bool.not_eq_false _ ▸ hnot))] at hd
    cases hd
  · intro a b hab hb
    exact stored_order h hi hdest hadded hroom hsta hab hb
  · exact hs.sorted.sublist (List.tail_sublist _)
  · intro n hn
    exact hs.numbered n (List.mem_of_mem_tail hn)
  · intro n hn q hq
    refine stored_cases (P := fun _ e => e.instrId ≤ n) hs hroom (fun _ hq => hs.first n (List.mem_of_mem_tail hn) hq) ?_ hq
    have hsorted := hs.sorted
    rw [← List.cons_head?_tail hsta] at hsorted
    rw [stored_new]
    exact (List.pairwise_cons.mp hsorted).1 n hn
  · intro y c d hy hd hcd hc
    rw [hkept.destination] at hc
    rw [stored_added]
    rcases stored_added.mp hd with hd | ⟨rfl, rfl⟩
    · exact .inl (hs.before (hkept.live.mp hy) hd hcd hc)
    · exact .inl (hbefore c hcd hc)
  · refine List.nodup_append.mpr ⟨hs.nodup, List.nodup_singleton _, ?_⟩
    intro a ha b hb heq
    rw [List.mem_singleton.mp hb] at heq
    exact not_live_tail hs.shape hroom (hs.executing.mp (heq ▸ ha)).1
  · exact stored_executing hs hroom

theorem addStoreQueue_inv (h : Inv s) (hi : Live s.rob current) (hdest : (s.rob.entry current).destinationMemory i ≠ 0)
    (hadded : (s.rob.entry current).destinationAdded i = false) (hroom : s.sq.occupancy < s.sq.size)
    (hsta : s.sta.head? = some (s.rob.entry current).instrId)
    (hbefore : ∀ c, c < i → (s.rob.entry current).destinationMemory c ≠ 0 →
      (s.rob.entry current).destinationAdded c = true) :
    addStoreQueue s current i = some (stored s current i) ∧ Inv (stored s current i) := by
  have hkept : Kept s (stored s current i) := stored_kept hi
  have hblank : (s.sq.entry s.sq.tail).virtualAddress = 0 := by
    rw [h.stores.shape.blank _ (not_live_tail h.stores.shape hroom)]
    rfl
  have hnum : ∀ x, ((stored s current i).rob.entry x).numMemOps = (s.rob.entry x).numMemOps :=
    stored_keeps _ (fun _ _ _ => rfl)
  have hexecuted : ∀ x, ((stored s current i).rob.entry x).executed = (s.rob.entry x).executed :=
    stored_keeps _ (fun _ _ _ => rfl)
  refine ⟨addStoreQueue_eq hblank, hkept.basic h.basic (fun x hx => ?_) (fun x hx => ?_) (fun x hx => ?_),
    hkept.history h.history rfl, ?_, stored_stores h hi hdest hadded hroom hsta hbefore⟩
  · rw [hexecuted]
    exact hx
  · rw [hnum, hkept.unfinished rfl]
    exact h.basic.num hx
  · rw [hexecuted] at hx
    rw [hnum]
    exact h.basic.completed hx
  · exact hkept.loads h.loads (stored_keeps _ (fun _ _ _ => rfl)) (stored_keeps _ (fun _ _ _ => rfl))
      (stored_keeps _ (fun _ _ _ => rfl)) (stored_keeps _ (fun _ _ _ => rfl)) rfl rfl rfl rfl (fun _ _ => Iff.rfl)
      h.loads.pending

theorem checkStores_inv (rest : List (Fin numInstrDestinations)) (h : Inv s) (hi : Live s.rob current)
    (hsorted : rest.Pairwise (fun c d => c < d))
    (hrest : Tried (fun c => (s.rob.entry current).destinationMemory c ≠ 0)
      (fun c => (s.rob.entry current).destinationAdded c = true) rest
      (s.sq.occupancy < s.sq.size ∧ s.sta.head? = some (s.rob.entry current).instrId)) :
    ∃ u, rest.foldlM (checkStore current) s = some u ∧ Inv u ∧ Kept s u := by
  induction rest generalizing s with
  | nil => exact ⟨s, rfl, h, kept_of_rob rfl rfl⟩
  | cons i rest ih =>
      rw [List.foldlM_cons, checkStore]
      by_cases hgo : (s.rob.entry current).destinationMemory i ≠ 0 ∧ (s.rob.entry current).destinationAdded i = false ∧
          s.sq.occupancy < s.sq.size ∧ s.sta.head? = some (s.rob.entry current).instrId
      · obtain ⟨hdest, hadded, hroom, hsta⟩ := hgo
        obtain ⟨hadd, hinv⟩ := addStoreQueue_inv h hi hdest hadded hroom hsta
          (fun c hc hne => hrest.before hsorted ⟨hroom, hsta⟩ hc hne)
        have hkept : Kept s (stored s current i) := stored_kept hi
        obtain ⟨v, hv, hvi, hmore⟩ := ih hinv (hkept.live.mpr hi) hsorted.of_cons (fun c hne => by
          rw [hkept.destination] at hne
          exact hrest.next ⟨hroom, hsta⟩ (stored_added.mpr (.inr ⟨rfl, rfl⟩)) (fun c hca => stored_added.mpr (.inl hca)) c hne)
        rw [if_pos ⟨hdest, hadded, hroom, hsta⟩, hadd]
        exact ⟨v, hv, hvi, hkept.trans hmore⟩
      · rw [if_neg hgo]
        refine ih h hi hsorted.of_cons (hrest.skip (fun hne => ?_))
        by_cases hca : (s.rob.entry current).destinationAdded i = true
        · exact .inl hca
        · exact .inr (fun hb => hgo ⟨hne, Bool.eq_false_iff.mpr hca, hb⟩)

end Add

theorem checkAndAddLsq_inv (h : Inv s) (hi : Live s.rob current) :
    ∃ u, checkAndAddLsq s current = some u ∧ Inv u ∧ Kept s u := by
  obtain ⟨t, ht, hinv, hkept⟩ := checkLoads_inv (List.finRange numInstrSources) h hi
  obtain ⟨u, hu, hrest, hmore⟩ := checkStores_inv (List.finRange numInstrDestinations) hinv (hkept.live.mpr hi)
    (List.pairwise_lt_finRange _) (fun c _ => .inr (.inl (List.mem_finRange c)))
  refine ⟨u, ?_, hrest, hkept.trans hmore⟩
  rw [checkAndAddLsq, ht]
  exact hu

theorem doMemoryScheduling_inv (h : Inv s) (hi : Live s.rob current) :
    ∃ u, doMemoryScheduling s current = some u ∧ Inv u := by
  obtain ⟨t, ht, hinv, hkept⟩ := checkAndAddLsq_inv h hi
  rw [doMemoryScheduling, ht]
  refine ⟨_, rfl, ?_⟩
  show Inv (if _ then _ else _)
  split_ifs
  · refine stage_inv hinv (hkept.live.mpr hi) rfl rfl (fun he => ?_) (fun he => ?_)
    · show (if (t.rob.entry current).executed = .idle then _ else _) = _
      rw [he]
      rfl
    · apply hinv.basic.completed
      by_contra hne
      have he : (if (t.rob.entry current).executed = .idle then Stage.inflight else (t.rob.entry current).executed)
          = .completed := he
      split_ifs at he
      exact hne he
  · exact hinv

end Thermometer.LsqStores
