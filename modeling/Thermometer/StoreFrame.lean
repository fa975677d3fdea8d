import Thermometer.LoadFrame

namespace Thermometer.StoreFrame

open Lib.Rings Lib.Runs Lib.Windows Lib.Contents LoadStoreQueue StoreOrder StorePath LoadFrame

open ReorderBuffer (Stage numInstrSources)

variable {s t : State} {q current i : Nat} {j : Fin numInstrSources} {d : Fin numInstrDestinations}

theorem pathOf_modifyRob {f : RobEntry → RobEntry} (h : textOf (f (s.rob.entry i)) = textOf (s.rob.entry i)) :
    pathOf (s.modifyRob i f) = pathOf s :=
  congrArg (fun rob => StorePath.Path.mk rob (view storeOf s.sq) s.sta s.program) (view_modify_same h)

section Loads

theorem pathOf_addLoadQueue (h : addLoadQueue s current j = some t) : pathOf t = pathOf s := by
  cases hfree : (List.range s.lqSize).find? (fun i => (s.lq i).virtualAddress = 0) with
  | none =>
      rw [addLoadQueue, hfree] at h
      cases h
  | some q =>
      have hinsert : pathOf (insertLoad s current j q) = pathOf s := pathOf_modifyRob rfl
      exact (aside_addLoadQueue hfree h).path.trans hinsert

theorem pathOf_checkLoad (h : checkLoad current s j = some t) : pathOf t = pathOf s := by
  rw [checkLoad] at h
  split_ifs at h
  · exact pathOf_addLoadQueue h
  · rw [Option.some.inj h]

theorem pathOf_checkLoads {rest : List (Fin numInstrSources)} (h : rest.foldlM (checkLoad current) s = some t) :
    pathOf t = pathOf s :=
  run_preserves (I := fun t => pathOf t = pathOf s) (fun _ _ _ _ hs hu => (pathOf_checkLoad hu).trans hs) rfl h

end Loads

section Turns

theorem pathOf_dispatch (hroom : s.rob.occupancy < s.rob.size) (x : Instr) :
    pathOf (dispatchInstruction s x) = (pathOf s).dispatch x := by
  have htickets : (storesOf s.program.length x).map Store.instrId =
      ((List.finRange numInstrDestinations).filter (fun i => x.destinationMemory i ≠ 0)).map (fun _ => s.program.length) :=
    List.map_map
  rw [dispatchInstruction, if_pos hroom, Path.dispatch, pathOf, view_push]
  show StorePath.Path.mk _ _ _ _ = StorePath.Path.mk _ _ (s.sta ++ (storesOf s.program.length x).map Store.instrId) _
  rw [htickets]
  rfl

theorem pathOf_addStoreQueue (h : addStoreQueue s current d = some t) : pathOf t = (pathOf s).enter current d := by
  rw [addStoreQueue] at h
  split_ifs at h
  rw [← Option.some.inj h]
  have hrob : ∀ q, view textOf ((s.rob.modify current (fun e =>
      { e with sqIndex := Function.update e.sqIndex d (some q) })).modify current (fun e =>
      { e with destinationAdded := Function.update e.destinationAdded d true }))
      = (view textOf s.rob).modify current (Text.enter d q) := by
    intro q
    rw [modify_modify]
    exact view_modify rfl
  show StorePath.Path.mk _ (view storeOf (s.sq.push _)) _ _ = _
  rw [view_push]
  exact congrArg (fun rob => StorePath.Path.mk rob _ _ _) (hrob s.sq.tail)

theorem pathOf_mark {f : RobEntry → RobEntry} {stage : Stage}
    (h : textOf (f (s.rob.entry i)) = Text.mark stage (textOf (s.rob.entry i))) :
    pathOf (s.modifyRob i f) = (pathOf s).mark i stage :=
  congrArg (fun rob => StorePath.Path.mk rob (view storeOf s.sq) s.sta s.program) (view_modify h)

theorem pathOf_write : pathOf (s.modifyRob s.rob.head (fun e =>
    { e with destinationMemory := Function.update e.destinationMemory d 0 })) = (pathOf s).write d :=
  congrArg (fun rob => StorePath.Path.mk rob (view storeOf s.sq) s.sta s.program) (view_modify rfl)

theorem pathOf_release (hindex : (s.rob.entry s.rob.head).sqIndex d = some q) :
    pathOf (releaseStore s d) = (pathOf s).release q := by
  rw [releaseStore, hindex]
  exact congrArg (fun sq => StorePath.Path.mk (view textOf s.rob) sq s.sta s.program) view_popAt

theorem pathOf_leave : pathOf { s with rob := s.rob.popAt .empty s.rob.head } = (pathOf s).leave :=
  congrArg (fun rob => StorePath.Path.mk rob (view storeOf s.sq) s.sta s.program) view_popAt

end Turns

end Thermometer.StoreFrame
