import Thermometer.RobExact

namespace Thermometer.RobProgress

open Lib.Rings Lib.Runs ReorderBuffer RobShape RobQueue

structure SamePlaces (s u : State) : Prop where
  size : u.size = s.size
  head : u.head = s.head
  tail : u.tail = s.tail
  occupancy : u.occupancy = s.occupancy

structure Still (s u : State) : Prop extends SamePlaces s u where
  executed : ∀ x, (u.entry x).executed = (s.entry x).executed

variable {s t u : State} {i x : Nat}

theorem SamePlaces.trans (h : SamePlaces s t) (h' : SamePlaces t u) : SamePlaces s u :=
  ⟨h'.size.trans h.size, h'.head.trans h.head, h'.tail.trans h.tail, h'.occupancy.trans h.occupancy⟩

theorem SamePlaces.slot (h : SamePlaces s u) (a : Nat) : u.slot a = s.slot a := by
  rw [State.slot, State.slot, h.size, h.head]

theorem Still.refl (s : State) : Still s s := ⟨⟨rfl, rfl, rfl, rfl⟩, fun _ => rfl⟩

theorem Still.trans (h : Still s t) (h' : Still t u) : Still s u :=
  ⟨h.toSamePlaces.trans h'.toSamePlaces, fun x => (h'.executed x).trans (h.executed x)⟩

theorem modifyEntry_still (s : State) (i : Nat) {f : RobEntry → RobEntry}
    (hf : (f (s.entry i)).executed = (s.entry i).executed) : Still s (s.modifyEntry i f) :=
  ⟨⟨rfl, rfl, rfl, rfl⟩, entry_keeps RobEntry.executed hf⟩

theorem foldl_still {B : Type} {f : State → B → State} (hf : ∀ s b, Still s (f s b)) (l : List B) (s : State) :
    Still s (l.foldl f s) := by
  induction l generalizing s with
  | nil => exact .refl s
  | cons b l ih => exact (hf s b).trans (ih (f s b))

theorem run_still {B : Type} {f : State → B → Option State} (hf : ∀ s b u, f s b = some u → Still s u) {l : List B}
    (h : run f s l = some u) : Still s u :=
  run_preserves (I := Still s) (fun t w b _ ht hw => ht.trans (hf t b w hw)) (.refl s) h

theorem regRawDependency_still (s : State) (prior current : Nat) (j : Fin numInstrSources) :
    Still s (regRawDependency s prior current j) := by
  rw [regRawDependency]
  split_ifs
  · exact ⟨⟨rfl, rfl, rfl, rfl⟩, RobCounts.link_executed⟩
  · exact .refl s

theorem regDependency_still (s : State) (i : Nat) : Still s (regDependency s i) := by
  apply foldl_still
  intro s prior
  rw [checkPrior]
  split_ifs
  · apply foldl_still
    intro s j
    rw [checkSource]
    split_ifs
    · exact regRawDependency_still s prior i j
    · exact .refl s
  · exact .refl s

theorem pushReady_still (h : pushReady s i = some u) : Still s u := by
  obtain ⟨r, -, rfl⟩ := Option.map_eq_some_iff.mp h
  exact ⟨⟨rfl, rfl, rfl, rfl⟩, fun _ => rfl⟩

theorem scheduleInstruction_still (h : scheduleInstruction s i = some u) : Still s u := by
  rw [scheduleInstruction] at h
  split_ifs at h
  · rw [doScheduling] at h
    have hscan : Still s (regDependency (s.modifyEntry i (fun e => { e with regReady := true })) i) :=
      (modifyEntry_still s i (by rfl)).trans (regDependency_still _ i)
    simp only at h
    split_ifs at h
    · rw [← Option.some.inj h]
      exact hscan.trans (modifyEntry_still _ i rfl)
    · exact (hscan.trans (modifyEntry_still _ i rfl)).trans (pushReady_still h)
    · rw [← Option.some.inj h]
      exact hscan.trans (modifyEntry_still _ i rfl)
  · exact Option.some.inj h ▸ .refl s

theorem release_still (h : release s i = some u) : Still s u := by
  rw [release] at h
  have hcount : Still s (s.modifyEntry i (fun e => { e with numRegDependent := e.numRegDependent - 1 })) :=
    modifyEntry_still s i (by rfl)
  split_ifs at h
  · rw [← Option.some.inj h]
    exact hcount.trans (modifyEntry_still _ i rfl)
  · exact (hcount.trans (modifyEntry_still _ i rfl)).trans (pushReady_still h)
  · rw [← Option.some.inj h]
    exact hcount

theorem regRawRelease_still (h : regRawRelease s i = some u) : Still s u := by
  refine run_still ?_ h
  intro s consumer t hs
  refine run_still ?_ hs
  intro s j t hs
  rw [releaseSource] at hs
  split_ifs at hs
  · exact release_still hs
  · exact Option.some.inj hs ▸ .refl _

theorem completeExecution_executed (h : completeExecution s i = some u) (hi : (s.entry i).executed = .inflight) :
    SamePlaces s u ∧ ∀ x, (u.entry x).executed = if x = i then .completed else (s.entry x).executed := by
  rw [completeExecution, if_pos hi] at h
  have hdone : ∀ x, ((s.modifyEntry i (fun e => { e with executed := .completed })).entry x).executed =
      if x = i then .completed else (s.entry x).executed := by
    intro x
    rw [entry_modifyEntry]
    split_ifs <;> rfl
  simp only at h
  split_ifs at h
  · have hstill := regRawRelease_still h
    exact ⟨⟨hstill.size, hstill.head, hstill.tail, hstill.occupancy⟩, fun x => (hstill.executed x).trans (hdone x)⟩
  · rw [← Option.some.inj h]
    exact ⟨⟨rfl, rfl, rfl, rfl⟩, hdone⟩

structure Onward (s u : State) : Prop extends SamePlaces s u where
  completed : ∀ x, (s.entry x).executed = .completed → (u.entry x).executed = .completed

theorem Onward.refl (s : State) : Onward s s := ⟨⟨rfl, rfl, rfl, rfl⟩, fun _ hx => hx⟩

theorem Still.onward (h : Still s u) : Onward s u := ⟨h.toSamePlaces, fun x hx => (h.executed x).trans hx⟩

theorem executeInstruction_onward (h : Inv [] s) : Onward s (executeInstruction s) := by
  rw [executeInstruction]
  split
  · exact .refl s
  · rename_i i hfront
    refine ⟨⟨rfl, rfl, rfl, rfl⟩, ?_⟩
    intro x hx
    obtain ⟨q, hq, -, hmem⟩ := h.ledger.queue
    have hidle : (s.entry i).executed = .idle := by
      cases q with
      | nil =>
          rw [front_nil hq] at hfront
          cases hfront
      | cons k q =>
          rw [front_cons hq, Option.some.injEq] at hfront
          exact ((hmem i).mp (hfront ▸ List.mem_cons_self)).2
    have hne : x ≠ i := by
      rintro rfl
      rw [hidle] at hx
      cases hx
    have hkept : (doExecution s i).entry x = s.entry x := entry_of_ne hne
    exact (congrArg RobEntry.executed hkept).trans hx

theorem doMemoryScheduling_onward (s : State) (i : Nat) : Onward s (doMemoryScheduling s i) := by
  rw [doMemoryScheduling]
  split_ifs
  · refine ⟨⟨rfl, rfl, rfl, rfl⟩, ?_⟩
    intro x hx
    by_cases hxi : x = i
    · subst hxi
      rw [entry_self]
      simp only [hx]
      rfl
    · rw [entry_of_ne hxi]
      exact hx
  · exact .refl s

end Thermometer.RobProgress
