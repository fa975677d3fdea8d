import Thermometer.Lib.Runs
import Thermometer.StorePath

namespace Thermometer.LoadFrame

open Lib.Rings Lib.Runs Lib.Windows Lib.Contents LoadStoreQueue StoreOrder StorePath

open ReorderBuffer (numInstrSources)

def lineOf (e : RobEntry) : Text × (Fin numInstrSources → Nat) := (textOf e, e.sourceMemory)

/-- The loads of a state may have been released or may wait for other stores; the rest is as it was. -/
structure Aside (s t : State) : Prop where
  rob : view lineOf t.rob = view lineOf s.rob
  lq : ∀ q, (t.lq q).virtualAddress ≠ 0 → storeOf (t.lq q) = storeOf (s.lq q)
  sq : view storeOf t.sq = view storeOf s.sq
  sta : t.sta = s.sta
  program : t.program = s.program

variable {s t u : State} {q current i k : Nat} {j : Fin numInstrSources} {d : Fin numInstrDestinations}
  {releasedBy : Option (Nat × Nat)}

theorem Aside.refl (s : State) : Aside s s := ⟨rfl, fun _ _ => rfl, rfl, rfl, rfl⟩

theorem Aside.trans (h : Aside s t) (h' : Aside t u) : Aside s u := by
  refine ⟨h'.rob.trans h.rob, fun q hq => ?_, h'.sq.trans h.sq, h'.sta.trans h.sta, h'.program.trans h.program⟩
  have heq := h'.lq q hq
  have haddress : (t.lq q).virtualAddress ≠ 0 := by
    rw [← show (u.lq q).virtualAddress = (t.lq q).virtualAddress from congrArg Store.virtualAddress heq]
    exact hq
  exact heq.trans (h.lq q haddress)

theorem Aside.path (h : Aside s t) : pathOf t = pathOf s := by
  have hrob : view textOf t.rob = view textOf s.rob := congrArg (view Prod.fst) h.rob
  rw [pathOf, pathOf, hrob, h.sq, h.sta, h.program]

theorem Aside.line (h : Aside s t) (i : Nat) : lineOf (t.rob.entry i) = lineOf (s.rob.entry i) :=
  congrFun (congrArg Window.entry h.rob) i

section Edits

theorem aside_modifyRob {f : RobEntry → RobEntry} (h : lineOf (f (s.rob.entry i)) = lineOf (s.rob.entry i)) :
    Aside s (s.modifyRob i f) :=
  ⟨view_modify_same h, fun _ _ => rfl, rfl, rfl, rfl⟩

theorem aside_updateLq {e : LsqEntry} (h : e.virtualAddress ≠ 0 → storeOf e = storeOf (s.lq q)) :
    Aside s { s with lq := Function.update s.lq q e } := by
  refine ⟨rfl, fun k hk => ?_, rfl, rfl, rfl⟩
  change (Function.update s.lq q e k).virtualAddress ≠ 0 at hk
  show storeOf (Function.update s.lq q e k) = _
  by_cases hkq : k = q
  · subst hkq
    rw [Function.update_self] at hk ⊢
    exact h hk
  · rw [Function.update_of_ne hkq]

theorem aside_modifySq {f : LsqEntry → LsqEntry} (h : storeOf (f (s.sq.entry q)) = storeOf (s.sq.entry q)) :
    Aside s (s.modifySq q f) :=
  ⟨rfl, fun _ _ => rfl, view_modify_same h, rfl, rfl⟩

end Edits

section Loads

theorem aside_releaseLoad : Aside s (releaseLoad s q releasedBy) := by
  have hrob : Aside s (s.modifyRob (s.lq q).robIndex (fun r => { r with numMemOps := r.numMemOps - 1 })) :=
    aside_modifyRob rfl
  have hlq := hrob.trans (aside_updateLq (q := q) (e := .empty) (fun h => absurd rfl h))
  exact ⟨hlq.rob, hlq.lq, hlq.sq, hlq.sta, hlq.program⟩

theorem aside_forward {store : LsqEntry} (h : forward s q store = some t) : Aside s t := by
  rw [forward] at h
  split_ifs at h
  rw [← Option.some.inj h]
  exact aside_releaseLoad

theorem aside_forwardFromQueue (h : forwardFromQueue s current q = some t) : Aside s t := by
  rw [forwardFromQueue] at h
  cases hindex : forwardingIndex s current q with
  | none =>
      rw [hindex, Option.some.injEq] at h
      exact h ▸ .refl s
  | some i =>
      rw [hindex] at h
      change (if (s.sq.entry i).fetched then _ else _) = _ at h
      split_ifs at h with hf
      · exact aside_forward h
      · exact Option.some.inj h ▸ .refl s

theorem aside_checkPrior : Aside s (checkPrior current j q s k) := by
  rw [checkPrior]
  split_ifs
  · rw [memRawDependency]
    split_ifs
    · exact (aside_modifyRob rfl).trans (aside_updateLq (fun _ => rfl))
    · exact .refl s
  · exact .refl s

theorem aside_checkPriors {priors : List Nat} : Aside s (priors.foldl (checkPrior current j q) s) := by
  induction priors generalizing s with
  | nil => exact .refl s
  | cons k priors ih => exact aside_checkPrior.trans ih

theorem aside_finishAdding : Aside s (finishAdding s current j q) := by
  have hadded : Aside s (s.modifyRob current (fun e => { e with sourceAdded := Function.update e.sourceAdded j true })) :=
    aside_modifyRob rfl
  rw [finishAdding]
  split_ifs
  · exact ⟨hadded.rob, hadded.lq, hadded.sq, hadded.sta, hadded.program⟩
  · exact hadded

theorem aside_addLoadQueue (hfree : (List.range s.lqSize).find? (fun i => (s.lq i).virtualAddress = 0) = some q)
    (h : addLoadQueue s current j = some t) : Aside (insertLoad s current j q) t := by
  rw [addLoadQueue, hfree] at h
  obtain ⟨u, hu, rfl⟩ := Option.map_eq_some_iff.mp h
  exact (aside_checkPriors.trans (aside_forwardFromQueue hu)).trans aside_finishAdding

theorem aside_resolveLoad {producer dependent : Nat} (h : resolveLoad producer q dependent s j = some t) : Aside s t := by
  rw [resolveLoad] at h
  split at h
  · split at h
    · cases h
    · split at h
      · cases h
      · split at h
        · cases h
        · obtain ⟨u, hu, rfl⟩ := Option.map_eq_some_iff.mp h
          split_ifs
          · exact (aside_forward hu).trans (aside_modifyRob rfl)
          · exact aside_forward hu
  · exact Option.some.inj h ▸ .refl s

theorem aside_resolveLoads {producer dependent : Nat} {sources : List (Fin numInstrSources)}
    (h : sources.foldlM (resolveLoad producer q dependent) s = some t) : Aside s t :=
  run_preserves (I := Aside s) (fun _ _ _ _ hs hu => hs.trans (aside_resolveLoad hu)) (.refl s) h

theorem aside_executeStore {producer : Nat} (h : executeStore s producer q d = some t) : Aside s t := by
  have hbegun : ∀ done, Aside s { (s.modifySq q (fun e => { e with fetched := true })).modifyRob producer
      (fun e => { e with numMemOps := e.numMemOps - 1 }) with done := done } := by
    intro done
    have hsq : Aside s (s.modifySq q (fun e => { e with fetched := true })) := aside_modifySq rfl
    have hrob := hsq.trans (aside_modifyRob (i := producer) (f := fun e => { e with numMemOps := e.numMemOps - 1 }) rfl)
    exact ⟨hrob.rob, hrob.lq, hrob.sq, hrob.sta, hrob.program⟩
  rw [executeStore] at h
  split_ifs at h
  · refine run_preserves (I := Aside s) ?_ (hbegun _) h
    intro a b dependent _ ha hb
    exact ha.trans (aside_resolveLoads hb)
  · rw [← Option.some.inj h]
    exact hbegun _

end Loads

end Thermometer.LoadFrame
