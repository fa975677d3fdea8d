import Thermometer.LsqRelease

namespace Thermometer.LsqLoads

open Lib.Rings Lib.Windows LoadStoreQueue LsqInvariant LsqFrame LsqRelease

open ReorderBuffer (Stage numInstrSources)

variable {s t u : State} {i k q n x current : Nat} {j : Fin numInstrSources} {p : Option Nat} {priors : List Nat}

def mark (current : Nat) (j : Fin numInstrSources) (s : State) : State :=
  s.modifyRob current (fun e => { e with sourceAdded := Function.update e.sourceAdded j true })

def linkLoad (s : State) (prior current q : Nat) : State :=
  let s := s.modifyRob prior (fun e =>
    { e with memoryInstrsDependOnMe := insert current e.memoryInstrsDependOnMe, isProducer := true })
  s.modifyLq q (fun e => { e with producerId := some (s.rob.entry prior).instrId })

def entered (s : State) (current : Nat) (j : Fin numInstrSources) (q : Nat) : Option Nat → State
  | none => mark current j (insertLoad s current j q)
  | some k => mark current j (linkLoad (insertLoad s current j q) k current q)

def enqueue (q : Nat) (s : State) : State :=
  if (s.lq q).virtualAddress ≠ 0 ∧ (s.lq q).producerId = none then { s with loadsToReturn := s.loadsToReturn ++ [q] } else s

section Scan

theorem modifyLq_self {f : LsqEntry → LsqEntry} : (s.modifyLq q f).lq q = f (s.lq q) := Function.update_self _ _ _

theorem modifyLq_of_ne {f : LsqEntry → LsqEntry} (hx : x ≠ q) : (s.modifyLq q f).lq x = s.lq x :=
  Function.update_of_ne hx _ _

theorem checkPriors_linked (h : (s.lq q).producerId ≠ none) : priors.foldl (checkPrior current j q) s = s := by
  induction priors with
  | nil => rfl
  | cons k priors ih => rw [List.foldl_cons, checkPrior, if_neg h, ih]

theorem checkPriors_eq (h : (s.lq q).producerId = none) : priors.foldl (checkPrior current j q) s =
    match priors.find? (fun k => (s.rob.entry k).stores ((s.rob.entry current).sourceMemory j)) with
    | none => s
    | some k => linkLoad s k current q := by
  induction priors with
  | nil => rfl
  | cons k priors ih =>
      rw [List.foldl_cons, checkPrior, if_pos h, memRawDependency]
      by_cases hk : (s.rob.entry k).stores ((s.rob.entry current).sourceMemory j) = true
      · have hlinked : ((linkLoad s k current q).lq q).producerId ≠ none := by
          rw [linkLoad, modifyLq_self]
          nofun
        have hfind : (k :: priors).find? (fun k => (s.rob.entry k).stores ((s.rob.entry current).sourceMemory j)) = some k :=
          List.find?_cons_of_pos hk
        rw [if_pos hk, hfind]
        exact checkPriors_linked hlinked
      · have hfind : (k :: priors).find? (fun k => (s.rob.entry k).stores ((s.rob.entry current).sourceMemory j))
            = priors.find? (fun k => (s.rob.entry k).stores ((s.rob.entry current).sourceMemory j)) :=
          List.find?_cons_of_neg hk
        rw [if_neg hk, hfind]
        exact ih

theorem releaseLoad_mark {releasedBy : Option (Nat × Nat)} :
    releaseLoad (mark current j s) q releasedBy = mark current j (releaseLoad s q releasedBy) := by
  have hrob : (s.rob.modify current (fun e => { e with sourceAdded := Function.update e.sourceAdded j true })).modify
      (s.lq q).robIndex (fun r => { r with numMemOps := r.numMemOps - 1 })
      = (s.rob.modify (s.lq q).robIndex (fun r => { r with numMemOps := r.numMemOps - 1 })).modify current
        (fun e => { e with sourceAdded := Function.update e.sourceAdded j true }) :=
    modify_comm (fun _ => rfl)
  exact congrArg (fun w => { releaseLoad s q releasedBy with rob := w }) hrob

theorem mark_rob : (mark current j s).rob =
    s.rob.modify current (fun e => { e with sourceAdded := Function.update e.sourceAdded j true }) := rfl

theorem mark_num (s : State) (x : Nat) : ((mark current j s).rob.entry x).numMemOps = (s.rob.entry x).numMemOps := by
  rw [mark_rob, modify_keeps RobEntry.numMemOps rfl]

theorem forward_mark (store : LsqEntry) : forward (mark current j s) q store = (forward s q store).map (mark current j) := by
  have hlq : (mark current j s).lq = s.lq := rfl
  simp only [forward, releaseLoad_mark, mark_num, hlq]
  by_cases hneg : ((releaseLoad s q (some (store.instrId, store.virtualAddress))).rob.entry (s.lq q).robIndex).numMemOps < 0
  · rw [if_pos hneg, if_pos hneg]
    rfl
  · rw [if_neg hneg, if_neg hneg]
    rfl

theorem forwardFromQueue_mark :
    forwardFromQueue (mark current j s) current q = (forwardFromQueue s current q).map (mark current j) := by
  have hindex : forwardingIndex (mark current j s) current q = forwardingIndex s current q := rfl
  rw [forwardFromQueue, forwardFromQueue, hindex]
  cases forwardingIndex s current q with
  | none => rfl
  | some i =>
      show (if (s.sq.entry i).fetched then _ else _) = Option.map _ (if (s.sq.entry i).fetched then _ else _)
      split_ifs
      · exact forward_mark _
      · rfl

theorem insertLoad_rob : (insertLoad s current j q).rob =
    s.rob.modify current (fun e => { e with lqIndex := Function.update e.lqIndex j (some q) }) := rfl

theorem insertLoad_lq_self : (insertLoad s current j q).lq q =
    { s.lq q with
      instrId := (s.rob.entry current).instrId
      virtualAddress := (s.rob.entry current).sourceMemory j
      dataIndex := j
      robIndex := current } := by
  refine (Function.update_self _ _ _).trans ?_
  simp only [State.modifyRob, modify_self]

theorem insertLoad_lq_of_ne (hx : x ≠ q) : (insertLoad s current j q).lq x = s.lq x := Function.update_of_ne hx _ _

theorem insertLoad_keeps {B : Type} (g : RobEntry → B) (h : ∀ e index, g { e with lqIndex := index } = g e) (x : Nat) :
    g ((insertLoad s current j q).rob.entry x) = g (s.rob.entry x) := by
  rw [insertLoad_rob, modify_keeps g (h _ _)]

theorem addLoadQueue_eq (hfree : (List.range s.lqSize).find? (fun i => (s.lq i).virtualAddress = 0) = some q)
    (hnone : (s.lq q).producerId = none) : addLoadQueue s current j =
    (forwardFromQueue (entered s current j q ((backward s.rob current).find? (fun k =>
      (s.rob.entry k).stores ((s.rob.entry current).sourceMemory j)))) current q).map (enqueue q) := by
  have hinsert : ((insertLoad s current j q).lq q).producerId = none := by
    rw [insertLoad_lq_self]
    exact hnone
  have hback : backward (insertLoad s current j q).rob current = backward s.rob current := rfl
  have hstores : (fun k => ((insertLoad s current j q).rob.entry k).stores
        (((insertLoad s current j q).rob.entry current).sourceMemory j))
      = fun k => (s.rob.entry k).stores ((s.rob.entry current).sourceMemory j) := by
    funext k
    rw [RobEntry.stores, RobEntry.stores, insertLoad_keeps RobEntry.destinationMemory (fun _ _ => rfl),
      insertLoad_keeps RobEntry.sourceMemory (fun _ _ => rfl)]
  rw [addLoadQueue, hfree]
  simp only [checkPriors_eq hinsert, hback, hstores]
  cases (backward s.rob current).find? (fun k => (s.rob.entry k).stores ((s.rob.entry current).sourceMemory j)) with
  | none =>
      rw [entered, forwardFromQueue_mark, Option.map_map]
      rfl
  | some k =>
      rw [entered, forwardFromQueue_mark, Option.map_map]
      rfl

end Scan

section Entered

theorem linkLoad_rob : (linkLoad s k current q).rob = s.rob.modify k (fun e =>
    { e with memoryInstrsDependOnMe := insert current e.memoryInstrsDependOnMe, isProducer := true }) := rfl

theorem entered_keeps {B : Type} (g : RobEntry → B) (hindex : ∀ e index, g { e with lqIndex := index } = g e)
    (hlink : ∀ e set, g { e with memoryInstrsDependOnMe := set, isProducer := true } = g e)
    (hadded : ∀ e added, g { e with sourceAdded := added } = g e) (x : Nat) :
    g ((entered s current j q p).rob.entry x) = g (s.rob.entry x) := by
  cases p with
  | none => rw [entered, mark_rob, modify_keeps g (hadded _ _), insertLoad_keeps g hindex]
  | some k =>
      rw [entered, mark_rob, modify_keeps g (hadded _ _), linkLoad_rob, modify_keeps g (hlink _ _), insertLoad_keeps g hindex]

theorem entered_id (x : Nat) : ((entered s current j q p).rob.entry x).instrId = (s.rob.entry x).instrId :=
  entered_keeps RobEntry.instrId (fun _ _ => rfl) (fun _ _ => rfl) (fun _ _ => rfl) x

theorem entered_source (x : Nat) : ((entered s current j q p).rob.entry x).sourceMemory = (s.rob.entry x).sourceMemory :=
  entered_keeps RobEntry.sourceMemory (fun _ _ => rfl) (fun _ _ => rfl) (fun _ _ => rfl) x

theorem entered_destination (x : Nat) :
    ((entered s current j q p).rob.entry x).destinationMemory = (s.rob.entry x).destinationMemory :=
  entered_keeps RobEntry.destinationMemory (fun _ _ => rfl) (fun _ _ => rfl) (fun _ _ => rfl) x

theorem entered_lqIndex (x : Nat) : ((entered s current j q p).rob.entry x).lqIndex =
    if x = current then Function.update (s.rob.entry x).lqIndex j (some q) else (s.rob.entry x).lqIndex := by
  have hinsert : ((insertLoad s current j q).rob.entry x).lqIndex =
      if x = current then Function.update (s.rob.entry x).lqIndex j (some q) else (s.rob.entry x).lqIndex := by
    rw [insertLoad_rob]
    by_cases hx : x = current
    · rw [hx, modify_self, if_pos rfl]
    · rw [modify_of_ne hx, if_neg hx]
  cases p with
  | none => rw [entered, mark_rob, modify_keeps RobEntry.lqIndex rfl, hinsert]
  | some k =>
      rw [entered, mark_rob, modify_keeps RobEntry.lqIndex rfl, linkLoad_rob, modify_keeps RobEntry.lqIndex rfl, hinsert]

theorem mark_sourceAdded (x : Nat) : ((mark current j s).rob.entry x).sourceAdded =
    if x = current then Function.update (s.rob.entry x).sourceAdded j true else (s.rob.entry x).sourceAdded := by
  rw [mark_rob]
  by_cases hx : x = current
  · rw [hx, modify_self, if_pos rfl]
  · rw [modify_of_ne hx, if_neg hx]

theorem entered_sourceAdded (x : Nat) : ((entered s current j q p).rob.entry x).sourceAdded =
    if x = current then Function.update (s.rob.entry x).sourceAdded j true else (s.rob.entry x).sourceAdded := by
  cases p with
  | none => rw [entered, mark_sourceAdded, insertLoad_keeps RobEntry.sourceAdded (fun _ _ => rfl)]
  | some k =>
      rw [entered, mark_sourceAdded, linkLoad_rob, modify_keeps RobEntry.sourceAdded rfl,
        insertLoad_keeps RobEntry.sourceAdded (fun _ _ => rfl)]

theorem mem_entered_depend {y : Nat} : y ∈ ((entered s current j q p).rob.entry x).memoryInstrsDependOnMe ↔
    y ∈ (s.rob.entry x).memoryInstrsDependOnMe ∨ p = some x ∧ y = current := by
  have hinsert : ((insertLoad s current j q).rob.entry x).memoryInstrsDependOnMe = (s.rob.entry x).memoryInstrsDependOnMe :=
    insertLoad_keeps RobEntry.memoryInstrsDependOnMe (fun _ _ => rfl) x
  cases p with
  | none =>
      rw [entered, mark_rob, modify_keeps RobEntry.memoryInstrsDependOnMe rfl, hinsert]
      exact ⟨.inl, fun h => h.elim id (fun h => nomatch h.1)⟩
  | some k =>
      rw [entered, mark_rob, modify_keeps RobEntry.memoryInstrsDependOnMe rfl, linkLoad_rob, Option.some.injEq]
      by_cases hx : x = k
      · subst hx
        rw [modify_self]
        show y ∈ insert current _ ↔ _
        rw [Finset.mem_insert, hinsert, and_iff_right rfl, or_comm]
      · rw [modify_of_ne hx, hinsert]
        exact ⟨.inl, fun h => h.elim id (fun h => absurd h.1.symm hx)⟩

theorem entered_isProducer : ((entered s current j q p).rob.entry x).isProducer = true ↔
    (s.rob.entry x).isProducer = true ∨ p = some x := by
  have hinsert : ((insertLoad s current j q).rob.entry x).isProducer = (s.rob.entry x).isProducer :=
    insertLoad_keeps RobEntry.isProducer (fun _ _ => rfl) x
  cases p with
  | none =>
      rw [entered, mark_rob, modify_keeps RobEntry.isProducer rfl, hinsert]
      exact ⟨.inl, fun h => h.elim id nofun⟩
  | some k =>
      rw [entered, mark_rob, modify_keeps RobEntry.isProducer rfl, linkLoad_rob, Option.some.injEq]
      by_cases hx : x = k
      · subst hx
        rw [modify_self]
        exact iff_of_true rfl (.inr rfl)
      · rw [modify_of_ne hx, hinsert]
        exact ⟨.inl, fun h => h.elim id (fun h => absurd h.symm hx)⟩

theorem linkLoad_lq_of_ne (hx : x ≠ q) : (linkLoad s k current q).lq x = s.lq x := by
  rw [linkLoad, modifyLq_of_ne hx]
  rfl

theorem linkLoad_lq_self :
    (linkLoad s k current q).lq q = { s.lq q with producerId := some (s.rob.entry k).instrId } := by
  rw [linkLoad, modifyLq_self]
  simp only [State.modifyRob, modify_self]

theorem entered_lq_of_ne (hx : x ≠ q) : (entered s current j q p).lq x = s.lq x := by
  cases p with
  | none => exact insertLoad_lq_of_ne hx
  | some k => exact (linkLoad_lq_of_ne hx).trans (insertLoad_lq_of_ne hx)

theorem entered_lq_self (current : Nat) (j : Fin numInstrSources) (p : Option Nat) (hfree : s.lq q = .empty) :
    (entered s current j q p).lq q =
    { LsqEntry.empty with
      instrId := (s.rob.entry current).instrId
      producerId := p.map (fun k => (s.rob.entry k).instrId)
      virtualAddress := (s.rob.entry current).sourceMemory j
      dataIndex := j
      robIndex := current } := by
  cases p with
  | none =>
      refine insertLoad_lq_self.trans ?_
      rw [hfree]
      rfl
  | some k =>
      refine linkLoad_lq_self.trans ?_
      rw [insertLoad_lq_self, hfree, insertLoad_keeps RobEntry.instrId (fun _ _ => rfl)]
      rfl

end Entered

section Add

variable (h : Inv s) (hi : Live s.rob current) (hfree : s.lq q = .empty) (hslot : q < s.lqSize)
  (hsource : (s.rob.entry current).sourceMemory j ≠ 0) (hadded : (s.rob.entry current).sourceAdded j = false)
  (hp : ∀ {k}, p = some k ↔
    Youngest s.rob current (fun k => WritesTo s k ((s.rob.entry current).sourceMemory j)) k)

theorem entered_window (s : State) (current : Nat) (j : Fin numInstrSources) (q : Nat) (p : Option Nat) :
    (entered s current j q p).rob.size = s.rob.size ∧ (entered s current j q p).rob.head = s.rob.head ∧
      (entered s current j q p).rob.tail = s.rob.tail ∧ (entered s current j q p).rob.occupancy = s.rob.occupancy := by
  cases p with
  | none => exact ⟨rfl, rfl, rfl, rfl⟩
  | some k => exact ⟨rfl, rfl, rfl, rfl⟩

theorem entered_fields (s : State) (current : Nat) (j : Fin numInstrSources) (q : Nat) (p : Option Nat) :
    (entered s current j q p).program = s.program ∧ (entered s current j q p).done = s.done ∧
      (entered s current j q p).sq = s.sq ∧ (entered s current j q p).sta = s.sta ∧
      (entered s current j q p).storesToExecute = s.storesToExecute ∧
      (entered s current j q p).loadsToReturn = s.loadsToReturn ∧ (entered s current j q p).lqSize = s.lqSize ∧
      (entered s current j q p).lqOccupancy = s.lqOccupancy + 1 := by
  cases p with
  | none => exact ⟨rfl, rfl, rfl, rfl, rfl, rfl, rfl, rfl⟩
  | some k => exact ⟨rfl, rfl, rfl, rfl, rfl, rfl, rfl, rfl⟩

include hi hp in
theorem entered_kept : Kept s (entered s current j q p) := by
  obtain ⟨hsize, hhead, htail, hocc⟩ := entered_window s current j q p
  obtain ⟨hprogram, -⟩ := entered_fields s current j q p
  refine ⟨⟨hsize, hhead, htail, hocc, hprogram, fun x hx => ?_, entered_id,
    entered_keeps RobEntry.isMemory (fun _ _ => rfl) (fun _ _ => rfl) (fun _ _ => rfl), entered_source⟩, entered_destination⟩
  have hne : x ≠ current := by
    rintro rfl
    exact hx hi
  cases p with
  | none => rw [entered, mark_rob, modify_of_ne hne, insertLoad_rob, modify_of_ne hne]
  | some k =>
      have hk : x ≠ k := by
        rintro rfl
        exact hx (hp.mp rfl).1.left
      rw [entered, mark_rob, modify_of_ne hne, linkLoad_rob, modify_of_ne hk, insertLoad_rob, modify_of_ne hne]

include hfree hsource in
theorem entered_used : Used (entered s current j q p) x ↔ Used s x ∨ x = q := by
  by_cases hx : x = q
  · subst hx
    refine iff_of_true ?_ (.inr rfl)
    rw [Used, entered_lq_self current j p hfree]
    exact hsource
  · rw [Used, entered_lq_of_ne hx, or_iff_left hx, Used]

theorem not_used_of_empty (hfree : s.lq q = .empty) : ¬Used s q := by
  rw [Used, hfree]
  exact fun hu => hu rfl

theorem entered_finished {n : Nat} {o : Operand} :
    Finished (entered s current j q p) n o ↔ Finished s n o := by
  rw [Finished, (entered_fields s current j q p).2.1, Finished]

include hfree in
theorem entered_other (hx : Used s x) : (entered s current j q p).lq x = s.lq x := by
  apply entered_lq_of_ne
  rintro rfl
  exact not_used_of_empty hfree hx

include hadded in
theorem entered_stay {i : Nat} {d : Fin numInstrSources} (hd : (s.rob.entry i).sourceAdded d = true) :
    ((entered s current j q p).rob.entry i).lqIndex d = (s.rob.entry i).lqIndex d ∧
      ((entered s current j q p).rob.entry i).sourceAdded d = true := by
  have hdiffer : i = current → d ≠ j := by
    rintro rfl rfl
    rw [hadded] at hd
    cases hd
  rw [entered_lqIndex, entered_sourceAdded]
  by_cases hic : i = current
  · rw [if_pos hic, if_pos hic, Function.update_of_ne (hdiffer hic), Function.update_of_ne (hdiffer hic)]
    exact ⟨rfl, hd⟩
  · rw [if_neg hic, if_neg hic]
    exact ⟨rfl, hd⟩

include h hi hfree hsource hadded hp in
theorem entered_back {i : Nat} {d : Fin numInstrSources} (hli : Live (entered s current j q p).rob i)
    (hd : ((entered s current j q p).rob.entry i).sourceAdded d = true)
    (hf : ¬Finished (entered s current j q p) ((entered s current j q p).rob.entry i).instrId (.inl d)) :
    ∃ x, ((entered s current j q p).rob.entry i).lqIndex d = some x ∧ Used (entered s current j q p) x ∧
      ((entered s current j q p).lq x).robIndex = i ∧ ((entered s current j q p).lq x).dataIndex = d := by
  have hkept : Kept s (entered s current j q p) := entered_kept hi hp
  have hused : ∀ {x}, Used (entered s current j q p) x ↔ Used s x ∨ x = q := entered_used hfree hsource
  rw [entered_id, entered_finished] at hf
  by_cases hcase : i = current ∧ d = j
  · obtain ⟨rfl, rfl⟩ := hcase
    refine ⟨q, ?_, hused.mpr (.inr rfl), ?_⟩
    · rw [entered_lqIndex, if_pos rfl, Function.update_self]
    · rw [entered_lq_self _ _ _ hfree]
      exact ⟨rfl, rfl⟩
  · have hds : (s.rob.entry i).sourceAdded d = true := by
      rw [entered_sourceAdded] at hd
      by_cases hic : i = current
      · rw [if_pos hic, Function.update_of_ne (fun he => hcase ⟨hic, he⟩)] at hd
        exact hd
      · rwa [if_neg hic] at hd
    obtain ⟨x, hx, hux, hrest⟩ := h.loads.back (hkept.live.mp hli) hds hf
    refine ⟨x, ?_, hused.mpr (.inl hux), ?_⟩
    · rw [(entered_stay hadded hds).1]
      exact hx
    · rw [entered_other hfree hux]
      exact hrest

include h hfree hslot hsource in
theorem entered_occupancy : (entered s current j q p).lqOccupancy =
    ((Finset.range (entered s current j q p).lqSize).filter (Used (entered s current j q p))).card := by
  obtain ⟨-, -, -, -, -, -, hsize, hocc⟩ := entered_fields s current j q p
  have hnotmem : q ∉ (Finset.range s.lqSize).filter (Used s) :=
    fun hm => not_used_of_empty hfree (Finset.mem_filter.mp hm).2
  rw [hocc, hsize, h.loads.occupancy, ← Finset.card_insert_of_notMem hnotmem]
  congr 1
  ext x
  rw [Finset.mem_insert, Finset.mem_filter, Finset.mem_filter, entered_used hfree hsource, Finset.mem_range]
  constructor
  · rintro (rfl | ⟨hx, hu⟩)
    · exact ⟨hslot, .inr rfl⟩
    · exact ⟨hx, .inl hu⟩
  · rintro ⟨hx, hu | rfl⟩
    · exact .inr ⟨hx, hu⟩
    · exact .inl rfl

include h hi hfree hsource hp in
theorem entered_youngest {x k : Nat} (hx : Used (entered s current j q p) x)
    (hk : Older (entered s current j q p).rob k ((entered s current j q p).lq x).robIndex)
    (hw : WritesTo (entered s current j q p) k ((entered s current j q p).lq x).virtualAddress) :
    ∃ l, (l = k ∨ Older (entered s current j q p).rob k l) ∧
      Older (entered s current j q p).rob l ((entered s current j q p).lq x).robIndex ∧
      WritesTo (entered s current j q p) l ((entered s current j q p).lq x).virtualAddress ∧
      ((entered s current j q p).lq x).producerId = some ((entered s current j q p).rob.entry l).instrId := by
  have hkept : Kept s (entered s current j q p) := entered_kept hi hp
  rcases (entered_used hfree hsource).mp hx with hx | rfl
  · rw [entered_other hfree hx] at hk hw ⊢
    obtain ⟨l, hlk, hold, hwl, hpr⟩ := h.loads.youngest hx (hkept.older.mp hk) (hkept.writesTo.mp hw)
    refine ⟨l, hlk.imp_right hkept.older.mpr, hkept.older.mpr hold, hkept.writesTo.mpr hwl, ?_⟩
    rw [entered_id]
    exact hpr
  · rw [entered_lq_self current j p hfree] at hk hw ⊢
    have hdec : DecidablePred (fun k => WritesTo s k ((s.rob.entry current).sourceMemory j)) := Classical.decPred _
    obtain ⟨l, hyoungest⟩ := exists_youngest (P := fun k => WritesTo s k ((s.rob.entry current).sourceMemory j))
      h.basic.shape (hkept.older.mp hk) (hkept.writesTo.mp hw)
    refine ⟨l, ?_, hkept.older.mpr hyoungest.1, hkept.writesTo.mpr hyoungest.2.1, ?_⟩
    · rcases hyoungest.2.2 k (hkept.older.mp hk) (hkept.writesTo.mp hw) with he | ho
      · exact .inl he.symm
      · exact .inr (hkept.older.mpr ho)
    · rw [hp.mpr hyoungest, entered_id]
      rfl

include h hi hfree hsource hp in
theorem entered_producer {x n : Nat} (hx : Used (entered s current j q p) x)
    (hpr : ((entered s current j q p).lq x).producerId = some n) :
    ∃ k, Older (entered s current j q p).rob k ((entered s current j q p).lq x).robIndex ∧
      ((entered s current j q p).rob.entry k).instrId = n ∧ ((entered s current j q p).rob.entry k).isProducer = true ∧
      ((entered s current j q p).lq x).robIndex ∈ ((entered s current j q p).rob.entry k).memoryInstrsDependOnMe := by
  have hkept : Kept s (entered s current j q p) := entered_kept hi hp
  rcases (entered_used hfree hsource).mp hx with hx | rfl
  · rw [entered_other hfree hx] at hpr ⊢
    obtain ⟨k, hold, hid, hprod, hin⟩ := h.loads.producer hx hpr
    refine ⟨k, hkept.older.mpr hold, ?_, entered_isProducer.mpr (.inl hprod), mem_entered_depend.mpr (.inl hin)⟩
    rw [entered_id]
    exact hid
  · rw [entered_lq_self current j p hfree] at hpr ⊢
    obtain ⟨k, hk, hid⟩ := Option.map_eq_some_iff.mp hpr
    refine ⟨k, hkept.older.mpr (hp.mp hk).1, ?_, entered_isProducer.mpr (.inr hk),
      mem_entered_depend.mpr (.inr ⟨hk, rfl⟩)⟩
    rw [entered_id]
    exact hid

include h hi hfree hslot hsource hadded hp in
theorem entered_loads : Loads (some q) none (entered s current j q p) := by
  have hkept : Kept s (entered s current j q p) := entered_kept hi hp
  have hl := h.loads
  obtain ⟨-, -, -, -, -, hreturn, hsize, -⟩ := entered_fields s current j q p
  have hself := entered_lq_self current j p hfree
  have hused : ∀ {x}, Used (entered s current j q p) x ↔ Used s x ∨ x = q := entered_used hfree hsource
  have hother : ∀ {x}, Used s x → (entered s current j q p).lq x = s.lq x := entered_other hfree
  refine ⟨?_, ?_, ?_, ?_, ?_, ?_, ?_, entered_back h hi hfree hsource hadded hp, ?_, ?_,
    entered_occupancy h hfree hslot hsource, ?_, ?_, entered_youngest h hi hfree hsource hp,
    entered_producer h hi hfree hsource hp, ?_, ?_⟩
  · intro x hx
    rw [hsize]
    rcases hused.mp hx with hx | rfl
    · exact hl.slot hx
    · exact hslot
  · intro x hx
    apply hkept.live.mpr
    rcases hused.mp hx with hx | rfl
    · rw [hother hx]
      exact hl.live hx
    · rw [hself]
      exact hi
  · intro x hx
    rw [entered_id]
    rcases hused.mp hx with hx | rfl
    · rw [hother hx]
      exact hl.id hx
    · rw [hself]
  · intro x hx
    rcases hused.mp hx with hx | rfl
    · rw [hother hx, (entered_stay hadded (hl.added hx)).1]
      exact hl.index hx
    · rw [hself, entered_lqIndex, if_pos rfl]
      exact Function.update_self _ _ _
  · intro x hx
    rcases hused.mp hx with hx | rfl
    · rw [hother hx]
      exact (entered_stay hadded (hl.added hx)).2
    · rw [hself, entered_sourceAdded, if_pos rfl]
      exact Function.update_self _ _ _
  · intro x hx
    rw [entered_source]
    rcases hused.mp hx with hx | rfl
    · rw [hother hx]
      exact hl.address hx
    · rw [hself]
  · intro x hx
    rw [entered_finished]
    rcases hused.mp hx with hx | rfl
    · rw [hother hx]
      exact hl.waiting hx
    · rw [hself]
      exact hl.unadded hi hadded
  · intro i d hli hd
    rw [entered_id, entered_finished]
    apply hl.unadded (hkept.live.mp hli)
    by_contra hds
    rw [(entered_stay hadded (Bool.not_eq_false _ ▸ hds)).2] at hd
    cases hd
  · intro x hx
    obtain ⟨hx, hxq⟩ := not_or.mp (fun ho => hx (hused.mpr ho))
    rw [entered_lq_of_ne hxq]
    exact hl.free hx
  · rw [hreturn]
    exact hl.nodup
  · intro x
    rw [hreturn, hl.returning, hused]
    constructor
    · rintro ⟨hx, hn, -⟩
      rw [hother hx]
      exact ⟨.inl hx, hn, fun he => not_used_of_empty hfree (Option.some.inj he ▸ hx)⟩
    · rintro ⟨hx | rfl, hn, hne⟩
      · rw [hother hx] at hn
        exact ⟨hx, hn, (fun hc => by cases hc)⟩
      · exact absurd rfl hne
  · intro x n hx hpr hne _
    rcases hused.mp hx with hx | rfl
    · rw [hother hx] at hpr ⊢
      obtain ⟨d, hd, hf⟩ := hl.pending hx hpr (fun hc => by cases hc) (fun hc => by cases hc)
      refine ⟨d, ?_, (not_congr entered_finished).mpr hf⟩
      rw [hkept.instrAt]
      exact hd
    · exact absurd rfl hne
  · intro y k hy
    apply hkept.older.mpr
    rcases mem_entered_depend.mp hy with hy | ⟨hk, rfl⟩
    · exact hl.depend hy
    · exact (hp.mp hk).1

include h hi hp in
theorem entered_rest : Basic (entered s current j q p) ∧ History (entered s current j q p) ∧
    Stores [] (entered s current j q p) := by
  have hkept : Kept s (entered s current j q p) := entered_kept hi hp
  obtain ⟨hprogram, hdone, hsq, hsta, hexec, -⟩ := entered_fields s current j q p
  have hnum : ∀ x, ((entered s current j q p).rob.entry x).numMemOps = (s.rob.entry x).numMemOps :=
    entered_keeps RobEntry.numMemOps (fun _ _ => rfl) (fun _ _ => rfl) (fun _ _ => rfl)
  have hexecuted : ∀ x, ((entered s current j q p).rob.entry x).executed = (s.rob.entry x).executed :=
    entered_keeps RobEntry.executed (fun _ _ => rfl) (fun _ _ => rfl) (fun _ _ => rfl)
  refine ⟨hkept.basic h.basic (fun x hx => ?_) (fun x hx => ?_) (fun x hx => ?_), hkept.history h.history hdone,
    hkept.stores h.stores
      (entered_keeps RobEntry.destinationAdded (fun _ _ => rfl) (fun _ _ => rfl) (fun _ _ => rfl))
      (entered_keeps RobEntry.sqIndex (fun _ _ => rfl) (fun _ _ => rfl) (fun _ _ => rfl)) hsq hsta hexec (fun n d => ?_)⟩
  · rw [hexecuted]
    exact hx
  · rw [hnum, h.basic.num hx, hkept.unfinished hdone]
  · rw [hexecuted] at hx
    rw [hnum]
    exact h.basic.completed hx
  · rw [Finished, hdone, Finished]

end Add

section Forward

variable {e : State}

/-- Nothing is in flight for a store that has not executed. -/
theorem enqueue_loads (hl : Loads (some q) none e) (hu : Used e q)
    (hpending : ∀ {n}, (e.lq q).producerId = some n →
      ∃ d, (instrAt e n).destinationMemory d = (e.lq q).virtualAddress ∧ ¬Finished e n (.inr d)) :
    Loads none none (enqueue q e) := by
  have hall : ∀ {x n}, Used e x → (e.lq x).producerId = some n →
      ∃ d, (instrAt e n).destinationMemory d = (e.lq x).virtualAddress ∧ ¬Finished e n (.inr d) := by
    intro x n hx hp
    by_cases hxq : x = q
    · subst hxq
      exact hpending hp
    · exact hl.pending hx hp (fun he => hxq (Option.some.inj he).symm) nofun
  rw [enqueue]
  by_cases hnone : (e.lq q).producerId = none
  · have hq : q ∉ e.loadsToReturn := fun hin => (hl.returning.mp hin).2.2 rfl
    rw [if_pos ⟨hu, hnone⟩]
    refine ⟨hl.slot, hl.live, hl.id, hl.index, hl.added, hl.address, hl.waiting, hl.back, hl.unadded, hl.free, hl.occupancy, ?_,
      fun {x} => ?_, hl.youngest, hl.producer, fun hx hp _ _ => hall hx hp, hl.depend⟩
    · refine List.nodup_append.mpr ⟨hl.nodup, List.nodup_singleton q, ?_⟩
      intro a ha b hb heq
      rw [List.mem_singleton.mp hb] at heq
      exact hq (heq ▸ ha)
    · show x ∈ e.loadsToReturn ++ [q] ↔ Used e x ∧ (e.lq x).producerId = none ∧ none ≠ some x
      rw [List.mem_append, List.mem_singleton, hl.returning]
      constructor
      · rintro (⟨hx, hp, -⟩ | rfl)
        · exact ⟨hx, hp, nofun⟩
        · exact ⟨hu, hnone, nofun⟩
      · rintro ⟨hx, hp, -⟩
        by_cases hxq : x = q
        · exact .inr hxq
        · exact .inl ⟨hx, hp, fun he => hxq (Option.some.inj he).symm⟩
  · rw [if_neg (fun hc => hnone hc.2)]
    refine ⟨hl.slot, hl.live, hl.id, hl.index, hl.added, hl.address, hl.waiting, hl.back, hl.unadded, hl.free, hl.occupancy,
      hl.nodup, fun {x} => ?_, hl.youngest, hl.producer, fun hx hp _ _ => hall hx hp, hl.depend⟩
    rw [hl.returning]
    constructor
    · rintro ⟨hx, hp, -⟩
      exact ⟨hx, hp, nofun⟩
    · rintro ⟨hx, hp, -⟩
      refine ⟨hx, hp, fun he => hnone ?_⟩
      rw [Option.some.inj he]
      exact hp

theorem enqueue_fixed (q : Nat) (e : State) : Fixed e (enqueue q e) := by
  rw [enqueue]
  split_ifs
  · exact fixed_of_rob rfl rfl
  · exact fixed_of_rob rfl rfl

theorem enqueue_inv (hb : Basic e) (hh : History e) (hs : Stores [] e) (hl : Loads none none (enqueue q e)) :
    Inv (enqueue q e) := by
  have hfixed := enqueue_fixed q e
  have hsame : (enqueue q e).done = e.done ∧ (enqueue q e).sq = e.sq ∧ (enqueue q e).sta = e.sta ∧
      (enqueue q e).storesToExecute = e.storesToExecute ∧ (enqueue q e).rob = e.rob := by
    rw [enqueue]
    split_ifs
    · exact ⟨rfl, rfl, rfl, rfl, rfl⟩
    · exact ⟨rfl, rfl, rfl, rfl, rfl⟩
  obtain ⟨hdone, hsq, hsta, hexec, hrob⟩ := hsame
  refine ⟨hfixed.basic hb (fun x hx => ?_) (fun x hx => ?_) (fun x hx => ?_), hfixed.history hh hdone, hl,
    hfixed.stores hs hsq hsta hexec (fun n d => ?_)⟩
  · rwa [hrob]
  · rw [hrob, hfixed.unfinished hdone]
    exact hb.num hx
  · rw [hrob] at hx ⊢
    exact hb.completed hx
  · rw [Finished, hdone, Finished]

theorem releaseLoad_inv {releasedBy : Option (Nat × Nat)} (hb : Basic e) (hh : History e) (hs : Stores [] e)
    (hl : Loads (some q) none e) (hu : Used e q)
    (hby : releasedBy = (e.lq q).producerId.map (fun p => (p, (e.lq q).virtualAddress))) :
    Inv (releaseLoad e q releasedBy) :=
  ⟨releaseLoad_basic hb hl hu, releaseLoad_history hb hh hl hu hby, releaseLoad_loads hb hl hu, releaseLoad_stores hl hs hu⟩

theorem forward_eq {adding : Option Nat} {late : Option (Nat × Nat)} (hb : Basic e) (hl : Loads adding late e) (hu : Used e q)
    (store : LsqEntry) : forward e q store = some (releaseLoad e q (some (store.instrId, store.virtualAddress))) := by
  have hpos := num_pos hb hl hu
  have hself : ((releaseLoad e q (some (store.instrId, store.virtualAddress))).rob.entry (e.lq q).robIndex).numMemOps
      = (e.rob.entry (e.lq q).robIndex).numMemOps - 1 := by
    rw [releaseLoad_rob, modify_self]
  rw [forward]
  exact if_neg (by rw [hself]; omega)

theorem pending_of_none (hb : Basic e) (hs : Stores [] e) (hindex : forwardingIndex e current q = none)
    (hp : (e.lq q).producerId = some n) (hold : Older e.rob k current) (hid : (e.rob.entry k).instrId = n)
    (hw : WritesTo e k (e.lq q).virtualAddress) :
    ∃ d, (instrAt e n).destinationMemory d = (e.lq q).virtualAddress ∧ ¬Finished e n (.inr d) := by
  obtain ⟨d, hd, hda⟩ := stores_iff.mp hw
  have hinstr : (instrAt e n).destinationMemory d = (e.lq q).virtualAddress := by
    rcases hb.destination hold.left d with hsame | hzero
    · rw [← hid, ← hsame, hda]
    · exact absurd hzero.1 hd
  refine ⟨d, hinstr, fun hf => ?_⟩
  -- the store has executed, so that it would have been found
  have hadded : (e.rob.entry k).destinationAdded d = true := by
    by_contra hnot
    rw [← hid] at hf
    exact hs.unadded hold.left (Bool.eq_false_iff.mpr hnot) hf
  obtain ⟨i, hi⟩ := Option.ne_none_iff_exists'.mp ((hs.added hold.left).mp hadded)
  obtain ⟨hlive, hrob, hdata⟩ := hs.back hold.left hi (fun hc => nomatch hc.2)
  have hiid : (e.sq.entry i).instrId = n := by
    rw [hs.id hlive, hrob, hid]
  have hvaddr : (e.sq.entry i).virtualAddress = (e.lq q).virtualAddress := by
    rw [hs.address hlive, hiid, hdata, hinstr]
  have hnot := List.find?_eq_none.mp hindex i (List.mem_range.mpr (hlive.lt hs.shape))
  refine hnot (decide_eq_true ⟨hs.nonzero hlive, hvaddr, ?_, ?_⟩)
  · rintro rfl
    exact not_older_head hb.shape hold
  · rw [hp, hiid]

theorem forwardingIndex_some {i : Nat} (hs : Stores [] e) (hindex : forwardingIndex e current q = some i) :
    Live e.sq i ∧ (e.sq.entry i).virtualAddress = (e.lq q).virtualAddress ∧
      (e.lq q).producerId = some (e.sq.entry i).instrId := by
  have hmatch := List.find?_some (show List.find? _ _ = some i from hindex)
  rw [decide_eq_true_eq] at hmatch
  obtain ⟨hnonzero, hvaddr, -, hproducer⟩ := hmatch
  refine ⟨?_, hvaddr, hproducer⟩
  by_contra hnot
  rw [hs.shape.blank i hnot] at hnonzero
  exact hnonzero rfl

theorem forwardFromQueue_inv (hb : Basic e) (hh : History e) (hs : Stores [] e) (hl : Loads (some q) none e) (hu : Used e q)
    (hwrites : ∀ {n}, (e.lq q).producerId = some n →
      ∃ k, Older e.rob k current ∧ (e.rob.entry k).instrId = n ∧ WritesTo e k (e.lq q).virtualAddress) :
    ∃ u, forwardFromQueue e current q = some u ∧ Inv (enqueue q u) ∧ Kept e (enqueue q u) := by
  rw [forwardFromQueue]
  cases hindex : forwardingIndex e current q with
  | none =>
      refine ⟨e, rfl, enqueue_inv hb hh hs (enqueue_loads hl hu ?_), (enqueue_fixed q e).toKept⟩
      intro n hp
      obtain ⟨k, hold, hid, hw⟩ := hwrites hp
      exact pending_of_none hb hs hindex hp hold hid hw
  | some i =>
      obtain ⟨hlive, hvaddr, hproducer⟩ := forwardingIndex_some hs hindex
      by_cases hfetched : (e.sq.entry i).fetched = true
      · have hinv : Inv (releaseLoad e q (some ((e.sq.entry i).instrId, (e.sq.entry i).virtualAddress))) := by
          apply releaseLoad_inv hb hh hs hl hu
          rw [hproducer, hvaddr]
          rfl
        have hgone : ¬Used (releaseLoad e q (some ((e.sq.entry i).instrId, (e.sq.entry i).virtualAddress))) q :=
          fun hc => (releaseLoad_used.mp hc).2 rfl
        have hstay : enqueue q (releaseLoad e q (some ((e.sq.entry i).instrId, (e.sq.entry i).virtualAddress)))
            = releaseLoad e q (some ((e.sq.entry i).instrId, (e.sq.entry i).virtualAddress)) := by
          rw [enqueue]
          exact if_neg (fun hc => hgone hc.1)
        simp only [hfetched, if_true]
        refine ⟨_, forward_eq hb hl hu _, ?_, ?_⟩
        · rw [hstay]
          exact hinv
        · rw [hstay]
          exact (releaseLoad_fixed hl hu).toKept
      · simp only [hfetched]
        refine ⟨e, rfl, enqueue_inv hb hh hs (enqueue_loads hl hu ?_), (enqueue_fixed q e).toKept⟩
        intro n hp
        rw [hproducer, Option.some.injEq] at hp
        refine ⟨(e.sq.entry i).dataIndex, ?_, ?_⟩
        · rw [← hp, ← hs.address hlive, hvaddr]
        · rw [← hp]
          exact fun hf => hfetched ((hs.fetched hlive).mpr hf)

end Forward

theorem exists_free (hl : Loads none none s) (hroom : s.lqOccupancy < s.lqSize) :
    ∃ q, (List.range s.lqSize).find? (fun i => (s.lq i).virtualAddress = 0) = some q ∧ s.lq q = .empty ∧ q < s.lqSize := by
  cases hfind : (List.range s.lqSize).find? (fun i => (s.lq i).virtualAddress = 0) with
  | none =>
      have hall : (Finset.range s.lqSize).filter (Used s) = Finset.range s.lqSize := by
        apply Finset.filter_true_of_mem
        intro q hq
        have hnot := List.find?_eq_none.mp hfind q (List.mem_range.mpr (Finset.mem_range.mp hq))
        exact fun hzero => hnot (decide_eq_true hzero)
      rw [hl.occupancy, hall, Finset.card_range] at hroom
      exact absurd hroom (lt_irrefl _)
  | some q =>
      have hzero := List.find?_some hfind
      rw [decide_eq_true_eq] at hzero
      exact ⟨q, rfl, hl.free (fun hu => hu hzero), List.mem_range.mp (List.mem_of_find?_eq_some hfind)⟩

theorem addLoadQueue_inv (h : Inv s) (hi : Live s.rob current) (hsource : (s.rob.entry current).sourceMemory j ≠ 0)
    (hadded : (s.rob.entry current).sourceAdded j = false) (hroom : s.lqOccupancy < s.lqSize) :
    ∃ u, addLoadQueue s current j = some u ∧ Inv u ∧ Kept s u := by
  obtain ⟨q, hfind, hfree, hslot⟩ := exists_free h.loads hroom
  have hnone : (s.lq q).producerId = none := by
    rw [hfree]
    rfl
  rw [addLoadQueue_eq hfind hnone]
  generalize hp : (backward s.rob current).find? (fun k =>
    (s.rob.entry k).stores ((s.rob.entry current).sourceMemory j)) = p
  have hyoungest : ∀ {k}, p = some k ↔
      Youngest s.rob current (fun k => WritesTo s k ((s.rob.entry current).sourceMemory j)) k := by
    intro k
    rw [← hp]
    exact find_backward h.basic.shape hi
  have hloads := entered_loads h hi hfree hslot hsource hadded hyoungest
  obtain ⟨hbasic, hhistory, hstores⟩ := entered_rest (q := q) h hi hyoungest
  have hkept := entered_kept (q := q) hi hyoungest
  have hself := entered_lq_self current j p hfree
  have hused : Used (entered s current j q p) q := (entered_used hfree hsource).mpr (.inr rfl)
  obtain ⟨u, hu, hinv, hkept'⟩ := forwardFromQueue_inv hbasic hhistory hstores hloads hused
    (fun {n} hn => by
      rw [hself] at hn ⊢
      obtain ⟨k, hk, hid⟩ := Option.map_eq_some_iff.mp hn
      refine ⟨k, hkept.older.mpr (hyoungest.mp hk).1, ?_, hkept.writesTo.mpr (hyoungest.mp hk).2.1⟩
      rw [hkept.id]
      exact hid)
  refine ⟨enqueue q u, ?_, hinv, hkept.trans hkept'⟩
  rw [hu]
  rfl

theorem checkLoads_inv (sources : List (Fin numInstrSources)) (h : Inv s) (hi : Live s.rob current) :
    ∃ u, sources.foldlM (checkLoad current) s = some u ∧ Inv u ∧ Kept s u := by
  induction sources generalizing s with
  | nil => exact ⟨s, rfl, h, kept_of_rob rfl rfl⟩
  | cons j sources ih =>
      rw [List.foldlM_cons, checkLoad]
      by_cases hgo : (s.rob.entry current).sourceMemory j ≠ 0 ∧ (s.rob.entry current).sourceAdded j = false ∧
          s.lqOccupancy < s.lqSize
      · obtain ⟨u, hu, hinv, hkept⟩ := addLoadQueue_inv h hi hgo.1 hgo.2.1 hgo.2.2
        obtain ⟨v, hv, hrest, hmore⟩ := ih hinv (hkept.live.mpr hi)
        rw [if_pos hgo, hu]
        exact ⟨v, hv, hrest, hkept.trans hmore⟩
      · rw [if_neg hgo]
        exact ih h hi

end Thermometer.LsqLoads
