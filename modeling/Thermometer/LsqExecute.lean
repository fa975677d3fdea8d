import Thermometer.LsqStores

namespace Thermometer.LsqExecute

open Lib.Rings Lib.Windows LoadStoreQueue LsqInvariant LsqFrame LsqRelease LsqLoads

open ReorderBuffer (Stage numInstrSources)

variable {s t u : State} {q n m k x l producer dependent : Nat} {j : Fin numInstrSources} {i d : Fin numInstrDestinations}

def InQueue (s : State) (dependent : Nat) (j : Fin numInstrSources) : Prop :=
  ∃ l, (s.rob.entry dependent).lqIndex j = some l ∧ Used s l ∧ (s.lq l).robIndex = dependent ∧ (s.lq l).dataIndex = j

def Matches (s : State) (q dependent : Nat) (j : Fin numInstrSources) : Prop :=
  (s.rob.entry dependent).sourceMemory j = (s.sq.entry q).virtualAddress ∧ (s.rob.entry dependent).sourceAdded j = true

/-- Each load that the store tries to release is still in the queue, and no instruction
between the two has a store to the address. -/
def Undisturbed (s : State) (q : Nat) : Prop :=
  ∀ dependent ∈ (s.rob.entry (s.sq.entry q).robIndex).memoryInstrsDependOnMe, ∀ j, Matches s q dependent j →
    InQueue s dependent j ∧ ∀ k, Older s.rob (s.sq.entry q).robIndex k → Older s.rob k dependent →
      ¬WritesTo s k (s.sq.entry q).virtualAddress

section Mark

def executed (s : State) (n q : Nat) : State :=
  { s with
    rob := s.rob.modify (s.sq.entry q).robIndex (fun e => { e with numMemOps := e.numMemOps - 1 })
    sq := s.sq.modify q (fun e => { e with fetched := true })
    storesToExecute := s.storesToExecute.eraseIdx n
    done := s.done ++ [⟨(s.sq.entry q).instrId, .inr (s.sq.entry q).dataIndex, (s.sq.entry q).virtualAddress, none, none⟩] }

variable (h : Inv s) (hn : s.storesToExecute[n]? = some q)

theorem executed_done : (executed s n q).done = s.done ++
    [⟨(s.sq.entry q).instrId, .inr (s.sq.entry q).dataIndex, (s.sq.entry q).virtualAddress, none, none⟩] := rfl

theorem executed_finished {o : Operand} : Finished (executed s n q) m o ↔
    Finished s m o ∨ (s.sq.entry q).instrId = m ∧ .inr (s.sq.entry q).dataIndex = o :=
  finished_append executed_done

theorem executed_sq_keeps {B : Type} (g : LsqEntry → B) (hg : ∀ e, g { e with fetched := true } = g e) (x : Nat) :
    g ((executed s n q).sq.entry x) = g (s.sq.entry x) := by
  rw [executed, modify_keeps g (hg _)]

theorem executed_stay : SameStore ((executed s n q).sq.entry x) (s.sq.entry x) := by
  refine ⟨?_, ?_, ?_, ?_⟩ <;> apply executed_sq_keeps <;> exact fun _ => rfl

theorem executed_num_self : ((executed s n q).rob.entry (s.sq.entry q).robIndex).numMemOps
    = (s.rob.entry (s.sq.entry q).robIndex).numMemOps - 1 := by
  rw [executed, modify_self]

include h hn

theorem executing_live : Live s.sq q ∧ (s.sq.entry q).fetched = false :=
  h.stores.executing.mp (List.mem_of_getElem? hn)

theorem executed_fixed : Fixed s (executed s n q) := by
  obtain ⟨hq, -⟩ := executing_live h hn
  have hfixed := fixed_modifyRob (f := fun e => { e with numMemOps := e.numMemOps - 1 }) (h.stores.live hq) rfl
  have hkept := hfixed.toKept
  exact ⟨⟨⟨hkept.size, hkept.head, hkept.tail, hkept.occupancy, hkept.program, hkept.blank, hkept.id, hkept.memory,
      hkept.source⟩, hkept.destination⟩, hfixed.sourceAdded, hfixed.destinationAdded, hfixed.lqIndex, hfixed.sqIndex,
    hfixed.isProducer, hfixed.depend⟩

theorem executing_unfinished : ¬Finished s (s.sq.entry q).instrId (.inr (s.sq.entry q).dataIndex) := by
  obtain ⟨hq, hf⟩ := executing_live h hn
  rw [← h.stores.fetched hq, hf]
  nofun

theorem executing_address : (instrAt s (s.sq.entry q).instrId).address (.inr (s.sq.entry q).dataIndex) ≠ 0 := by
  obtain ⟨hq, -⟩ := executing_live h hn
  show (instrAt s (s.sq.entry q).instrId).destinationMemory (s.sq.entry q).dataIndex ≠ 0
  rw [← h.stores.address hq]
  exact h.stores.nonzero hq

theorem executing_pos : 0 < (s.rob.entry (s.sq.entry q).robIndex).numMemOps := by
  obtain ⟨hq, -⟩ := executing_live h hn
  rw [h.basic.num (h.stores.live hq), ← h.stores.id hq]
  apply Int.natCast_pos.mpr
  apply Finset.card_pos.mpr
  exact ⟨_, mem_unfinished.mpr ⟨executing_address h hn, executing_unfinished h hn⟩⟩

theorem executing_writes : WritesTo s (s.sq.entry q).robIndex (s.sq.entry q).virtualAddress := by
  obtain ⟨hq, -⟩ := executing_live h hn
  have haddress := h.stores.address hq
  have hnonzero := h.stores.nonzero hq
  rcases h.basic.destination (h.stores.live hq) (s.sq.entry q).dataIndex with hd | hd
  · rw [← h.stores.id hq, ← haddress] at hd
    refine stores_iff.mpr ⟨(s.sq.entry q).dataIndex, ?_, hd⟩
    rw [hd]
    exact hnonzero
  · have hpos := executing_pos h hn
    rw [h.basic.completed hd.2] at hpos
    exact absurd hpos (lt_irrefl _)

theorem executed_basic : Basic (executed s n q) := by
  obtain ⟨hq, -⟩ := executing_live h hn
  have hfixed := executed_fixed h hn
  have hlive := h.stores.live hq
  have hpos := executing_pos h hn
  have hself := executed_num_self (s := s) (n := n) (q := q)
  have hother : ∀ x, x ≠ (s.sq.entry q).robIndex → (executed s n q).rob.entry x = s.rob.entry x := by
    intro x hx
    rw [executed, modify_of_ne hx]
  have hexecuted : ∀ x, ((executed s n q).rob.entry x).executed = (s.rob.entry x).executed := by
    intro x
    rw [executed, modify_keeps RobEntry.executed rfl]
  refine hfixed.basic h.basic (fun x hx => ?_) (fun x hx => ?_) (fun x hx => ?_)
  · rw [hexecuted]
    exact hx
  · have hcard := card_unfinished_append (n := (s.rob.entry x).instrId) (u := executed s n q) executed_done rfl
      (executing_unfinished h hn) (executing_address h hn)
    have hnum := h.basic.num hx
    by_cases hxp : x = (s.sq.entry q).robIndex
    · subst hxp
      rw [if_pos (h.stores.id hq)] at hcard
      rw [hself, hnum, hcard]
      push_cast
      omega
    · have hid : (s.sq.entry q).instrId ≠ (s.rob.entry x).instrId := by
        intro he
        exact hxp (h.basic.numbered.inj hx hlive (he.symm.trans (h.stores.id hq)))
      rw [if_neg hid, Nat.add_zero] at hcard
      rw [hother x hxp, hnum, hcard]
  · rw [hexecuted] at hx
    have hzero := h.basic.completed hx
    have hxp : x ≠ (s.sq.entry q).robIndex := by
      rintro rfl
      omega
    rw [hother x hxp]
    exact hzero

theorem executed_history : History (executed s n q) := by
  obtain ⟨hq, -⟩ := executing_live h hn
  refine (executed_fixed h hn).history_append h.history executed_done (executing_unfinished h hn) ?_ (h.stores.address hq) rfl
  show (s.sq.entry q).instrId < s.program.length
  rw [h.stores.id hq]
  exact h.basic.numbered.lt (h.stores.live hq)

theorem executed_loads :
    Loads none (some ((s.sq.entry q).instrId, (s.sq.entry q).virtualAddress)) (executed s n q) := by
  obtain ⟨hq, -⟩ := executing_live h hn
  refine (executed_fixed h hn).loads h.loads rfl rfl rfl rfl (fun m j => ?_) (fun {x m} hx hp _ hlate => ?_)
  · rw [executed_finished, or_iff_left]
    rintro ⟨-, hj⟩
    cases hj
  · obtain ⟨d, hd, hf⟩ := h.loads.pending hx hp nofun nofun
    refine ⟨d, hd, ?_⟩
    rw [executed_finished, not_or]
    refine ⟨hf, fun he => hlate ?_⟩
    rw [← hd, ← he.1, ← Sum.inr.inj he.2, ← h.stores.address hq]

theorem store_inj (hx : Live s.sq x) (hi : (s.sq.entry q).instrId = (s.sq.entry x).instrId)
    (hd : (s.sq.entry q).dataIndex = (s.sq.entry x).dataIndex) : x = q := by
  obtain ⟨hq, -⟩ := executing_live h hn
  have hs := h.stores
  rw [hs.id hq, hs.id hx] at hi
  have hindex := hs.index hq
  rw [h.basic.numbered.inj (hs.live hq) (hs.live hx) hi, hd, hs.index hx, Option.some.injEq] at hindex
  exact hindex

theorem executed_stores : Stores [] (executed s n q) := by
  obtain ⟨hq, -⟩ := executing_live h hn
  have hs := h.stores
  have hfixed := executed_fixed h hn
  have hstay : ∀ {x}, SameStore ((executed s n q).sq.entry x) (s.sq.entry x) := executed_stay
  have hlive : ∀ {x}, Live (executed s n q).sq x ↔ Live s.sq x := Iff.rfl
  have hfetched : ∀ {x}, x ≠ q → ((executed s n q).sq.entry x).fetched = (s.sq.entry x).fetched := by
    intro x hx
    rw [executed, modify_of_ne hx]
  have hself : ((executed s n q).sq.entry q).fetched = true := by
    rw [executed, modify_self]
  have hshape : Shape (executed s n q).sq .empty :=
    Shape.modify (f := fun e : LsqEntry => { e with fetched := true }) hs.shape hq
  refine hfixed.toSame.stores_of_stay hs (fun hx => ⟨hx, hstay⟩) (fun i d hd => ?_) hfixed.destinationAdded hfixed.sqIndex
    rfl hshape (fun {y d x} hy hx hg => ?_) (fun {x} hx => ?_) (fun {y d} hy hd => ?_)
    (fun {a b} hab hb => ?_) (hs.nodup.eraseIdx n) (fun {x} => ?_)
  · rwa [hfixed.destination] at hd
  · rw [hfixed.sqIndex] at hx
    rw [hstay.robIndex, hstay.dataIndex, hlive]
    exact hs.back (hfixed.live.mp hy) hx (fun hc => nomatch hc.2)
  · rw [executed_finished]
    by_cases hxq : x = q
    · rw [hxq, hself]
      exact iff_of_true rfl (.inr ⟨rfl, rfl⟩)
    · rw [hfetched hxq, or_iff_left]
      · exact hs.fetched (hlive.mp hx)
      · rintro ⟨hi, hd⟩
        exact hxq (store_inj h hn (hlive.mp hx) hi (Sum.inr.inj hd))
  · have hy : Live s.rob y := hfixed.live.mp hy
    rw [hfixed.destinationAdded] at hd
    rw [hfixed.id, executed_finished, not_or]
    refine ⟨hs.unadded hy hd, ?_⟩
    rintro ⟨hi, hdi⟩
    rw [hs.id hq] at hi
    have hindex := hs.index hq
    rw [h.basic.numbered.inj (hs.live hq) hy hi, Sum.inr.inj hdi] at hindex
    have hadded := (hs.added hy).mpr (by rw [hindex]; nofun)
    rw [hd] at hadded
    cases hadded
  · have hold := hs.order hab hb
    change Before ((executed s n q).sq.entry (s.sq.slot a)) ((executed s n q).sq.entry (s.sq.slot b))
    rw [Before, hstay.instrId, hstay.instrId, hstay.dataIndex, hstay.dataIndex]
    exact hold
  · change x ∈ s.storesToExecute.eraseIdx n ↔ _
    obtain ⟨hlt, hget⟩ := List.getElem?_eq_some_iff.mp hn
    rw [← hs.nodup.erase_getElem n hlt, hget, hs.nodup.mem_erase_iff, hs.executing, hlive]
    constructor
    · rintro ⟨hxq, hx, hf⟩
      rw [hfetched hxq]
      exact ⟨hx, hf⟩
    · rintro ⟨hx, hf⟩
      have hxq : x ≠ q := by
        rintro rfl
        rw [hself] at hf
        cases hf
      rw [hfetched hxq] at hf
      exact ⟨hxq, hx, hf⟩

end Mark

section Resolve

/-- The state while the store in slot `q` releases its loads, of which `rest` are still to come. -/
structure Resolving (s : State) (q : Nat) (rest : List (Nat × Fin numInstrSources)) (t : State) : Prop where
  basic : Basic t
  history : History t
  stores : Stores [] t
  loads : Loads none (some ((s.sq.entry q).instrId, (s.sq.entry q).virtualAddress)) t
  fixed : Fixed s t
  instrId : (t.sq.entry q).instrId = (s.sq.entry q).instrId
  address : (t.sq.entry q).virtualAddress = (s.sq.entry q).virtualAddress
  inQueue : ∀ p ∈ rest, Matches s q p.1 p.2 → InQueue t p.1 p.2
  cover : ∀ {l}, Used t l → (t.lq l).producerId = some (s.sq.entry q).instrId →
    (t.lq l).virtualAddress = (s.sq.entry q).virtualAddress → ((t.lq l).robIndex, (t.lq l).dataIndex) ∈ rest

variable {rest : List (Nat × Fin numInstrSources)}

theorem Fixed.matches_iff (h : Fixed s t) (haddress : (t.sq.entry q).virtualAddress = (s.sq.entry q).virtualAddress) :
    Matches t q dependent j ↔ Matches s q dependent j := by
  rw [Matches, Matches, h.source, h.sourceAdded, haddress]

variable (h : Inv s) (hq : Live s.sq q) (hwrites : WritesTo s (s.sq.entry q).robIndex (s.sq.entry q).virtualAddress)
  (hundisturbed : Undisturbed s q)

include h hq hwrites hundisturbed

theorem matched_producer {late : Option (Nat × Nat)} (hl : Loads none late t) (hfixed : Fixed s t) (hu : Used t l)
    (hrob : (t.lq l).robIndex = dependent) (hdata : (t.lq l).dataIndex = j)
    (hdepend : dependent ∈ (s.rob.entry (s.sq.entry q).robIndex).memoryInstrsDependOnMe) (hm : Matches s q dependent j) :
    (t.lq l).virtualAddress = (s.sq.entry q).virtualAddress ∧ (t.lq l).producerId = some (s.sq.entry q).instrId := by
  have haddress : (t.lq l).virtualAddress = (s.sq.entry q).virtualAddress := by
    rw [hl.address hu, hrob, hdata, hfixed.source]
    exact hm.1
  have hold : Older s.rob (s.sq.entry q).robIndex dependent := h.loads.depend hdepend
  obtain ⟨k, hk, hkd, hkw, hp⟩ := hl.youngest hu (k := (s.sq.entry q).robIndex)
    (by rw [hrob]; exact hfixed.older.mpr hold) (by rw [haddress]; exact hfixed.writesTo.mpr hwrites)
  rw [hrob] at hkd
  rw [haddress] at hkw
  refine ⟨haddress, ?_⟩
  rcases hk with rfl | hk
  · rw [hp, hfixed.id, h.stores.id hq]
  · exact absurd (hfixed.writesTo.mp hkw)
      ((hundisturbed dependent hdepend j hm).2 k (hfixed.older.mp hk) (hfixed.older.mp hkd))

theorem resolveLoad_resolving (hr : Resolving s q ((dependent, j) :: rest) t)
    (hdepend : dependent ∈ (s.rob.entry (s.sq.entry q).robIndex).memoryInstrsDependOnMe)
    (hnodup : (dependent, j) ∉ rest) :
    ∃ u, resolveLoad (s.sq.entry q).robIndex q dependent t j = some u ∧ Resolving s q rest u := by
  have hl := hr.loads
  have hnonzero : (s.sq.entry q).virtualAddress ≠ 0 := h.stores.nonzero hq
  rw [resolveLoad]
  by_cases hm : Matches s q dependent j
  · have hgo : (t.rob.entry dependent).sourceMemory j ≠ 0 ∧ (t.rob.entry dependent).sourceAdded j = true ∧
        (t.rob.entry dependent).sourceMemory j = (t.sq.entry q).virtualAddress := by
      rw [hr.fixed.source, hr.fixed.sourceAdded, hr.address]
      refine ⟨?_, hm.2, hm.1⟩
      rw [hm.1]
      exact hnonzero
    obtain ⟨l, hindex, hu, hrob, hdata⟩ := hr.inQueue _ List.mem_cons_self hm
    obtain ⟨haddress, hproducer⟩ := matched_producer h hq hwrites hundisturbed hl hr.fixed hu hrob hdata hdepend hm
    have hload : Loads (some l) (some ((s.sq.entry q).instrId, (s.sq.entry q).virtualAddress)) t :=
      Loads.adding_of_producer hl (by rw [hproducer]; nofun)
    have hby : some ((t.sq.entry q).instrId, (t.sq.entry q).virtualAddress)
        = (t.lq l).producerId.map (fun p => (p, (t.lq l).virtualAddress)) := by
      rw [hproducer, haddress, hr.instrId, hr.address]
      rfl
    have hfixed : Fixed t (releaseLoad t l (some ((t.sq.entry q).instrId, (t.sq.entry q).virtualAddress))) :=
      releaseLoad_fixed hl hu
    -- the set already has the dependent
    have hset : (releaseLoad t l (some ((t.sq.entry q).instrId, (t.sq.entry q).virtualAddress))).modifyRob
        (s.sq.entry q).robIndex (fun r => { r with memoryInstrsDependOnMe := insert dependent r.memoryInstrsDependOnMe })
        = releaseLoad t l (some ((t.sq.entry q).instrId, (t.sq.entry q).virtualAddress)) := by
      rw [State.modifyRob, modify_fixed]
      rw [Finset.insert_eq_of_mem]
      rw [hfixed.depend, hr.fixed.depend]
      exact hdepend
    refine ⟨releaseLoad t l (some ((t.sq.entry q).instrId, (t.sq.entry q).virtualAddress)), ?_, ?_⟩
    · have hproducer' : ¬(t.lq l).producerId ≠ some (t.sq.entry q).instrId := by
        rw [hproducer, hr.instrId]
        exact fun hc => hc rfl
      simp only [if_pos hgo, hindex, if_neg (Nat.not_le.mpr (hl.slot hu)), if_neg hproducer', forward_eq hr.basic hl hu,
        Option.map_some, hset, ite_self]
    · refine ⟨releaseLoad_basic hr.basic hl hu, releaseLoad_history hr.basic hr.history hl hu hby,
        releaseLoad_stores hl hr.stores hu, releaseLoad_loads hr.basic hload hu, hr.fixed.trans hfixed, hr.instrId, hr.address,
        fun p hp hmp => ?_, fun {x} hx hp ha => ?_⟩
      · obtain ⟨x, hxi, hux, hxr, hxd⟩ := hr.inQueue p (List.mem_cons_of_mem _ hp) hmp
        have hxl : x ≠ l := by
          rintro rfl
          have hpair : p = (dependent, j) := Prod.ext (hxr.symm.trans hrob) (hxd.symm.trans hdata)
          exact hnodup (hpair ▸ hp)
        refine ⟨x, ?_, releaseLoad_used.mpr ⟨hux, hxl⟩, ?_⟩
        · rw [hfixed.lqIndex]
          exact hxi
        · rw [releaseLoad_lq hxl]
          exact ⟨hxr, hxd⟩
      · obtain ⟨hux, hxl⟩ := releaseLoad_used.mp hx
        rw [releaseLoad_lq hxl] at hp ha ⊢
        rcases List.mem_cons.mp (hr.cover hux hp ha) with he | hin
        · obtain ⟨hxr, hxd⟩ := Prod.mk.inj he
          have hxi := hl.index hux
          rw [hxr, hxd, hindex, Option.some.injEq] at hxi
          exact absurd hxi.symm hxl
        · exact hin
  · have hno : ¬((t.rob.entry dependent).sourceMemory j ≠ 0 ∧ (t.rob.entry dependent).sourceAdded j = true ∧
        (t.rob.entry dependent).sourceMemory j = (t.sq.entry q).virtualAddress) := by
      rintro ⟨-, hadded, hsource⟩
      exact hm ((Fixed.matches_iff hr.fixed hr.address).mp ⟨hsource, hadded⟩)
    simp only [if_neg hno]
    refine ⟨t, rfl, hr.basic, hr.history, hr.stores, hl, hr.fixed, hr.instrId, hr.address,
      fun p hp => hr.inQueue p (List.mem_cons_of_mem _ hp), fun {x} hx hp ha => ?_⟩
    rcases List.mem_cons.mp (hr.cover hx hp ha) with he | hin
    · obtain ⟨hrob, hdata⟩ := Prod.mk.inj he
      refine absurd ((Fixed.matches_iff hr.fixed hr.address).mp ⟨?_, ?_⟩) hm
      · rw [hr.address, ← ha, hl.address hx, hrob, hdata]
      · rw [← hrob, ← hdata]
        exact hl.added hx
    · exact hin

theorem resolveLoads_resolving {sources : List (Fin numInstrSources)}
    (hr : Resolving s q (sources.map (Prod.mk dependent) ++ rest) t)
    (hdepend : dependent ∈ (s.rob.entry (s.sq.entry q).robIndex).memoryInstrsDependOnMe)
    (hnodup : sources.Nodup) (hrest : ∀ j, (dependent, j) ∉ rest) :
    ∃ u, sources.foldlM (resolveLoad (s.sq.entry q).robIndex q dependent) t = some u ∧ Resolving s q rest u := by
  induction sources generalizing t with
  | nil => exact ⟨t, rfl, hr⟩
  | cons j sources ih =>
      obtain ⟨hj, hnodup⟩ := List.nodup_cons.mp hnodup
      have hnotin : (dependent, j) ∉ sources.map (Prod.mk dependent) ++ rest := by
        rw [List.mem_append, not_or]
        refine ⟨fun hin => ?_, hrest j⟩
        obtain ⟨c, hc, he⟩ := List.mem_map.mp hin
        exact hj ((Prod.mk.inj he).2 ▸ hc)
      obtain ⟨u, hu, hur⟩ := resolveLoad_resolving h hq hwrites hundisturbed hr hdepend hnotin
      obtain ⟨v, hv, hvr⟩ := ih hur hnodup
      rw [List.foldlM_cons, hu]
      exact ⟨v, hv, hvr⟩

theorem resolveDependents_resolving {dependents : List Nat}
    (hr : Resolving s q (dependents.flatMap (fun d => (List.finRange numInstrSources).map (Prod.mk d))) t)
    (hdepend : ∀ d ∈ dependents, d ∈ (s.rob.entry (s.sq.entry q).robIndex).memoryInstrsDependOnMe)
    (hnodup : dependents.Nodup) :
    ∃ u, dependents.foldlM (fun t d =>
      (List.finRange numInstrSources).foldlM (resolveLoad (s.sq.entry q).robIndex q d) t) t = some u ∧ Resolving s q [] u := by
  induction dependents generalizing t with
  | nil => exact ⟨t, rfl, hr⟩
  | cons d dependents ih =>
      obtain ⟨hd, hnodup⟩ := List.nodup_cons.mp hnodup
      rw [List.flatMap_cons] at hr
      obtain ⟨u, hu, hur⟩ := resolveLoads_resolving h hq hwrites hundisturbed hr (hdepend d List.mem_cons_self)
        (List.nodup_finRange _) (fun j hin => by
          obtain ⟨c, hc, hin⟩ := List.mem_flatMap.mp hin
          obtain ⟨_, -, he⟩ := List.mem_map.mp hin
          exact hd ((Prod.mk.inj he).1 ▸ hc))
      obtain ⟨v, hv, hvr⟩ := ih hur (fun c hc => hdepend c (List.mem_cons_of_mem _ hc)) hnodup
      rw [List.foldlM_cons, hu]
      exact ⟨v, hv, hvr⟩

end Resolve

theorem Resolving.inv (h : Resolving s q [] t) : Inv t := by
  have hl := h.loads
  refine ⟨h.basic, h.history, ⟨hl.slot, hl.live, hl.id, hl.index, hl.added, hl.address, hl.waiting, hl.back, hl.unadded,
    hl.free, hl.occupancy, hl.nodup, hl.returning, hl.youngest, hl.producer, fun {x m} hx hp ha _ => ?_, hl.depend⟩, h.stores⟩
  refine hl.pending hx hp ha (fun he => ?_)
  obtain ⟨hm, haddress⟩ := Prod.mk.inj (Option.some.inj he)
  exact absurd (h.cover hx (hm ▸ hp) haddress.symm) List.not_mem_nil

theorem executeStore_eq : executeStore { s with storesToExecute := s.storesToExecute.eraseIdx n }
      (s.sq.entry q).robIndex q (s.sq.entry q).dataIndex =
    if ((executed s n q).rob.entry (s.sq.entry q).robIndex).numMemOps < 0 then none
    else if ((executed s n q).rob.entry (s.sq.entry q).robIndex).isProducer then
      (((executed s n q).rob.entry (s.sq.entry q).robIndex).memoryInstrsDependOnMe.sort (fun a b => a ≤ b)).foldlM
        (fun t d => (List.finRange numInstrSources).foldlM (resolveLoad (s.sq.entry q).robIndex q d) t) (executed s n q)
    else some (executed s n q) := by
  have hid : ((s.sq.modify q (fun e => { e with fetched := true })).entry q).instrId = (s.sq.entry q).instrId :=
    modify_keeps LsqEntry.instrId rfl q
  have haddress : ((s.sq.modify q (fun e => { e with fetched := true })).entry q).virtualAddress
      = (s.sq.entry q).virtualAddress :=
    modify_keeps LsqEntry.virtualAddress rfl q
  simp only [executeStore, State.modifySq, State.modifyRob, hid, haddress]
  rfl

theorem executeStore_inv (h : Inv s) (hn : s.storesToExecute[n]? = some q) (hundisturbed : Undisturbed s q) :
    ∃ u, executeStore { s with storesToExecute := s.storesToExecute.eraseIdx n } (s.sq.entry q).robIndex q
      (s.sq.entry q).dataIndex = some u ∧ Inv u := by
  obtain ⟨hq, -⟩ := executing_live h hn
  have hfixed := executed_fixed h hn
  have hpos := executing_pos h hn
  -- the loads of the set are all that wait for the store
  have hwaiting : ∀ {l}, Used s l → (s.lq l).producerId = some (s.sq.entry q).instrId →
      (s.rob.entry (s.sq.entry q).robIndex).isProducer = true ∧
        (s.lq l).robIndex ∈ (s.rob.entry (s.sq.entry q).robIndex).memoryInstrsDependOnMe := by
    intro l hl hp
    obtain ⟨k, hold, hid, hproducer, hin⟩ := h.loads.producer hl hp
    rw [h.stores.id hq] at hid
    have hk := h.basic.numbered.inj hold.left (h.stores.live hq) hid
    exact ⟨hk ▸ hproducer, hk ▸ hin⟩
  have hresolving : ∀ rest : List (Nat × Fin numInstrSources),
      (∀ p ∈ rest, Matches s q p.1 p.2 → InQueue s p.1 p.2) →
      (∀ {l}, Used s l → (s.lq l).producerId = some (s.sq.entry q).instrId → ((s.lq l).robIndex, (s.lq l).dataIndex) ∈ rest) →
      Resolving s q rest (executed s n q) := by
    intro rest hin hcover
    refine ⟨executed_basic h hn, executed_history h hn, executed_stores h hn, executed_loads h hn, hfixed,
      executed_sq_keeps LsqEntry.instrId (fun _ => rfl) q, executed_sq_keeps LsqEntry.virtualAddress (fun _ => rfl) q,
      fun p hp hm => ?_,
      fun hl hp _ => hcover hl hp⟩
    obtain ⟨l, hindex, hrest⟩ := hin p hp hm
    refine ⟨l, ?_, hrest⟩
    rw [hfixed.lqIndex]
    exact hindex
  rw [executeStore_eq, if_neg (by rw [executed_num_self]; omega), hfixed.isProducer, hfixed.depend]
  by_cases hproducer : (s.rob.entry (s.sq.entry q).robIndex).isProducer = true
  · rw [if_pos hproducer]
    have hsort : ∀ d, d ∈ (s.rob.entry (s.sq.entry q).robIndex).memoryInstrsDependOnMe.sort (fun a b => a ≤ b) ↔
        d ∈ (s.rob.entry (s.sq.entry q).robIndex).memoryInstrsDependOnMe := fun d => Finset.mem_sort _
    obtain ⟨u, hu, hur⟩ := resolveDependents_resolving h hq (executing_writes h hn) hundisturbed
      (hresolving _ (fun p hp hm => by
        obtain ⟨d, hd, hp⟩ := List.mem_flatMap.mp hp
        obtain ⟨j, -, rfl⟩ := List.mem_map.mp hp
        exact (hundisturbed d ((hsort d).mp hd) j hm).1) (fun {l} hl hp => by
        refine List.mem_flatMap.mpr ⟨_, (hsort _).mpr (hwaiting hl hp).2, ?_⟩
        exact List.mem_map_of_mem (List.mem_finRange _)))
      (fun d hd => (hsort d).mp hd) (Finset.sort_nodup _ _)
    exact ⟨u, hu, hur.inv⟩
  · rw [if_neg hproducer]
    refine ⟨_, rfl, (hresolving [] nofun (fun hl hp => ?_)).inv⟩
    exact absurd (hwaiting hl hp).1 hproducer

end Thermometer.LsqExecute
