import Thermometer.AddressSpaces
import Thermometer.LoadFrame

namespace Thermometer.AddressFrame

open Lib.Windows Lib.Contents LoadStoreQueue StoreOrder StorePath LoadFrame

open ReorderBuffer (Stage numInstrSources)

inductive Place
  | rob (i : Nat) (o : Operand)
  | lq (q : Nat)
  | sq (q : Nat)

structure Access where
  instrId : Nat
  operand : Operand
  address : Nat

def robAccess (o : Operand) (e : RobEntry) : Access :=
  ⟨e.instrId, o, (Instr.mk e.sourceMemory e.destinationMemory).address o⟩

def loadAccess (e : LsqEntry) : Access := ⟨e.instrId, .inl e.dataIndex, e.virtualAddress⟩

def storeAccess (e : LsqEntry) : Access := ⟨e.instrId, .inr e.dataIndex, e.virtualAddress⟩

def accessAt (s : State) : Place → Access
  | .rob i o => robAccess o (s.rob.entry i)
  | .lq q => loadAccess (s.lq q)
  | .sq q => storeAccess (s.sq.entry q)

def Stays (a b : Access) : Prop := b.address ≠ 0 → b = a

structure Follows (s t : State) : Prop where
  access : ∀ p, Stays (accessAt s p) (accessAt t p)
  program : t.program = s.program

variable {s t u : State} {q current i : Nat} {j : Fin numInstrSources} {d : Fin numInstrDestinations} {a b c : Access}

theorem Stays.refl (a : Access) : Stays a a := fun _ => rfl

theorem stays_of_eq (h : b = a) : Stays a b := fun _ => h

theorem Stays.trans (h : Stays a b) (h' : Stays b c) : Stays a c := by
  intro hc
  obtain rfl := h' hc
  exact h hc

theorem stays_update {E : Type} {g : E → Access} {entry : Nat → E} {e : E} (h : Stays (g (entry i)) (g e)) (k : Nat) :
    Stays (g (entry k)) (g (Function.update entry i e k)) := by
  by_cases hk : k = i
  · rw [hk, Function.update_self]
    exact h
  · rw [Function.update_of_ne hk]
    exact .refl _

theorem Follows.refl (s : State) : Follows s s := ⟨fun _ => .refl _, rfl⟩

theorem Follows.trans (h : Follows s t) (h' : Follows t u) : Follows s u :=
  ⟨fun p => (h.access p).trans (h'.access p), h'.program.trans h.program⟩

theorem Follows.of_aside (h : Aside s t) : Follows s t := by
  refine ⟨fun p => ?_, h.program⟩
  cases p with
  | rob i o =>
      have hline := h.line i
      have hid : (t.rob.entry i).instrId = (s.rob.entry i).instrId := congrArg (fun l => l.1.instrId) hline
      have hsource : (t.rob.entry i).sourceMemory = (s.rob.entry i).sourceMemory := congrArg Prod.snd hline
      have hdestination : (t.rob.entry i).destinationMemory = (s.rob.entry i).destinationMemory :=
        congrArg (fun l => l.1.destinationMemory) hline
      apply stays_of_eq
      rw [accessAt, accessAt, robAccess, robAccess, hid, hsource, hdestination]
  | lq q => exact fun hq => congrArg (fun x : Store => Access.mk x.instrId (.inl x.dataIndex) x.virtualAddress) (h.lq q hq)
  | sq q =>
      have hstore : storeOf (t.sq.entry q) = storeOf (s.sq.entry q) := congrFun (congrArg Window.entry h.sq) q
      exact stays_of_eq (congrArg (fun x : Store => Access.mk x.instrId (.inr x.dataIndex) x.virtualAddress) hstore)

section Places

theorem follows_of_entries (hrob : t.rob.entry = s.rob.entry) (hlq : t.lq = s.lq) (hsq : t.sq.entry = s.sq.entry)
    (hprogram : t.program = s.program) : Follows s t := by
  refine ⟨fun p => ?_, hprogram⟩
  cases p with
  | rob i o =>
      rw [accessAt, accessAt, hrob]
      exact .refl _
  | lq q =>
      rw [accessAt, accessAt, hlq]
      exact .refl _
  | sq q =>
      rw [accessAt, accessAt, hsq]
      exact .refl _

theorem follows_updateRob {e : RobEntry} (h : ∀ o, Stays (robAccess o (s.rob.entry i)) (robAccess o e)) :
    Follows s { s with rob := { s.rob with entry := Function.update s.rob.entry i e } } := by
  refine ⟨fun p => ?_, rfl⟩
  cases p with
  | rob k o => exact stays_update (g := robAccess o) (h o) k
  | lq q => exact .refl _
  | sq q => exact .refl _

theorem follows_updateSq {e : LsqEntry} (h : Stays (storeAccess (s.sq.entry q)) (storeAccess e)) :
    Follows s { s with sq := { s.sq with entry := Function.update s.sq.entry q e } } := by
  refine ⟨fun p => ?_, rfl⟩
  cases p with
  | rob k o => exact .refl _
  | lq k => exact .refl _
  | sq k => exact stays_update (g := storeAccess) h k

theorem stays_empty (a : Access) (o : Operand) : Stays a (robAccess o .empty) := by
  intro h
  cases o <;> exact absurd rfl h

theorem follows_modifyRob {f : RobEntry → RobEntry} (hf : ∀ o, robAccess o (f (s.rob.entry i)) = robAccess o (s.rob.entry i)) :
    Follows s (s.modifyRob i f) := by
  apply follows_updateRob
  intro o
  rw [hf]
  exact .refl _

theorem follows_popRob : Follows s { s with rob := s.rob.popAt .empty i } :=
  (follows_updateRob (i := i) (fun o => stays_empty _ o)).trans (follows_of_entries rfl rfl rfl rfl)

end Places

section Turns

theorem follows_writeStores (rest : List (Fin numInstrDestinations)) (room : Nat) :
    Follows s (writeStores s rest room).1 := by
  induction rest generalizing s room with
  | nil => exact .refl s
  | cons i rest ih =>
      simp only [writeStores]
      split_ifs
      · exact ih room
      · cases room with
        | zero => exact .refl s
        | succ room =>
            refine Follows.trans (follows_updateRob (fun o => ?_)) (ih room)
            cases o with
            | inl j => exact .refl _
            | inr d =>
                intro hd
                change Function.update _ i 0 d ≠ 0 at hd
                have hne : d ≠ i := by
                  rintro rfl
                  exact hd (Function.update_self _ _ _)
                exact congrArg (Access.mk _ _) (Function.update_of_ne hne _ _)

theorem follows_releaseStore : Follows s (releaseStore s d) := by
  rw [releaseStore]
  split
  · exact .refl s
  · exact (follows_updateSq (fun h => absurd rfl h)).trans (follows_of_entries rfl rfl rfl rfl)

theorem follows_releaseStores (rest : List (Fin numInstrDestinations)) : Follows s (rest.foldl releaseStore s) := by
  induction rest generalizing s with
  | nil => exact .refl s
  | cons i rest ih => exact follows_releaseStore.trans ih

theorem follows_retireRob (room : Nat) : Follows s (retireRob s room) := by
  have hwrite := follows_writeStores (s := s) (List.finRange numInstrDestinations) room
  rw [retireRob]
  split_ifs
  · cases hw : writeStores s (List.finRange numInstrDestinations) room with
    | mk v finished =>
        rw [hw] at hwrite
        cases finished with
        | false => exact hwrite
        | true => exact (hwrite.trans (follows_releaseStores _)).trans follows_popRob
  · exact .refl s

theorem writeStores_head (rest : List (Fin numInstrDestinations)) (room : Nat) :
    (writeStores s rest room).1.rob.head = s.rob.head := by
  induction rest generalizing s room with
  | nil => rfl
  | cons i rest ih =>
      simp only [writeStores]
      split_ifs
      · exact ih room
      · cases room with
        | zero => rfl
        | succ room => exact ih room

theorem releaseStores_head (rest : List (Fin numInstrDestinations)) : (rest.foldl releaseStore s).rob.head = s.rob.head := by
  induction rest generalizing s with
  | nil => rfl
  | cons i rest ih =>
      rw [List.foldl_cons, ih, releaseStore]
      split
      · rfl
      · rfl

theorem retireRob_left {room : Nat} (hcompleted : (s.rob.entry s.rob.head).executed = .completed)
    (hwritten : (writeStores s (List.finRange numInstrDestinations) room).2 = true) :
    (retireRob s room).rob.entry s.rob.head = .empty := by
  have hhead := writeStores_head (s := s) (List.finRange numInstrDestinations) room
  rw [retireRob, if_pos hcompleted]
  cases hw : writeStores s (List.finRange numInstrDestinations) room with
  | mk v finished =>
      rw [hw] at hhead hwritten
      obtain rfl : finished = true := hwritten
      have hleft : ((List.finRange numInstrDestinations).foldl releaseStore v).rob.head = s.rob.head :=
        (releaseStores_head _).trans hhead
      rw [← hleft]
      exact pop_head

theorem follows_completeExecution : Follows s (completeExecution s i) := by
  rw [completeExecution]
  split_ifs
  · exact follows_modifyRob (fun _ => rfl)
  · exact .refl s
  · exact .refl s

theorem follows_step {e : Event} (hdispatch : ∀ x, e ≠ .dispatch x) (hadd : ∀ a, e ≠ .scheduleMemory a)
    (h : step s e = some t) : Follows s t := by
  cases e with
  | dispatch x => exact absurd rfl (hdispatch x)
  | scheduleMemory a => exact absurd rfl (hadd a)
  | schedule a =>
      rw [step] at h
      split_ifs at h
      · exact Option.some.inj h ▸ follows_modifyRob (fun _ => rfl)
      · exact Option.some.inj h ▸ .refl s
  | execute a =>
      rw [step] at h
      split_ifs at h
      · exact Option.some.inj h ▸ follows_modifyRob (fun _ => rfl)
      · exact Option.some.inj h ▸ .refl s
  | executeStore n =>
      rw [step] at h
      split at h
      · exact Option.some.inj h ▸ .refl s
      · have herase : Follows s { s with storesToExecute := s.storesToExecute.eraseIdx n } := follows_of_entries rfl rfl rfl rfl
        exact herase.trans (.of_aside (aside_executeStore h))
  | returnLoad n =>
      rw [step] at h
      split at h
      · exact Option.some.inj h ▸ .refl s
      · have herase : Follows s { s with loadsToReturn := s.loadsToReturn.eraseIdx n } := follows_of_entries rfl rfl rfl rfl
        exact Option.some.inj h ▸ herase.trans (.of_aside aside_releaseLoad)
  | complete a =>
      rw [step] at h
      split_ifs at h
      · exact Option.some.inj h ▸ follows_completeExecution
      · exact Option.some.inj h ▸ .refl s
  | retire room => exact Option.some.inj h ▸ follows_retireRob room

end Turns

section Queues

structure Moves (source target : Place) (s t : State) : Prop where
  access : ∀ p, p ≠ target → Stays (accessAt s p) (accessAt t p)
  moved : Stays (accessAt s source) (accessAt t target)
  program : t.program = s.program

theorem Moves.trans {source target : Place} (h : Moves source target s t) (h' : Follows t u) : Moves source target s u :=
  ⟨fun p hp => (h.access p hp).trans (h'.access p), h.moved.trans (h'.access target), h'.program.trans h.program⟩

theorem moves_insertLoad : Moves (.rob current (.inl j)) (.lq q) s (insertLoad s current j q) := by
  have hrob : Follows s (s.modifyRob current (fun e => { e with lqIndex := Function.update e.lqIndex j (some q) })) :=
    follows_modifyRob (fun _ => rfl)
  refine ⟨fun p hp => ?_, ?_, rfl⟩
  · cases p with
    | rob i o => exact hrob.access (.rob i o)
    | lq k =>
        have hk : k ≠ q := fun he => hp (congrArg Place.lq he)
        rw [accessAt, accessAt, show (insertLoad s current j q).lq k = s.lq k from Function.update_of_ne hk _ _]
        exact .refl _
    | sq k => exact .refl _
  · have hself : (insertLoad s current j q).lq q = { s.lq q with
        instrId := ((s.modifyRob current (fun e =>
          { e with lqIndex := Function.update e.lqIndex j (some q) })).rob.entry current).instrId
        virtualAddress := ((s.modifyRob current (fun e =>
          { e with lqIndex := Function.update e.lqIndex j (some q) })).rob.entry current).sourceMemory j
        dataIndex := j
        robIndex := current } := Function.update_self _ _ _
    rw [accessAt, accessAt, hself]
    exact hrob.access (.rob current (.inl j))

theorem moves_addLoadQueue (hfree : (List.range s.lqSize).find? (fun i => (s.lq i).virtualAddress = 0) = some q)
    (h : addLoadQueue s current j = some t) : Moves (.rob current (.inl j)) (.lq q) s t := by
  exact moves_insertLoad.trans (.of_aside (aside_addLoadQueue hfree h))

theorem moves_addStoreQueue (h : addStoreQueue s current d = some t) : Moves (.rob current (.inr d)) (.sq s.sq.tail) s t := by
  rw [addStoreQueue] at h
  split_ifs at h
  rw [← Option.some.inj h]
  have hindex : Follows s (s.modifyRob current (fun e => { e with sqIndex := Function.update e.sqIndex d (some s.sq.tail) })) :=
    follows_modifyRob (fun _ => rfl)
  have hrob := hindex.trans (follows_modifyRob (i := current)
    (f := fun e => { e with destinationAdded := Function.update e.destinationAdded d true }) (fun _ => rfl))
  refine ⟨fun p hp => ?_, ?_, rfl⟩
  · cases p with
    | rob i o => exact hrob.access (.rob i o)
    | lq k => exact .refl _
    | sq k =>
        have hk : k ≠ s.sq.tail := fun he => hp (congrArg Place.sq he)
        exact stays_of_eq (congrArg storeAccess (push_of_ne hk))
  · exact stays_of_eq (congrArg storeAccess push_self)

theorem dispatch_access (hroom : s.rob.occupancy < s.rob.size) (x : Instr) (p : Place) :
    (∃ o, p = .rob s.rob.tail o ∧ accessAt (dispatchInstruction s x) p = ⟨s.program.length, o, x.address o⟩) ∨
      (∀ o, p ≠ .rob s.rob.tail o) ∧ accessAt (dispatchInstruction s x) p = accessAt s p := by
  rw [dispatchInstruction, if_pos hroom]
  cases p with
  | rob i o =>
      by_cases hi : i = s.rob.tail
      · subst hi
        exact .inl ⟨o, rfl, congrArg (robAccess o) push_self⟩
      · refine .inr ⟨fun c hc => hi ?_, congrArg (robAccess o) (push_of_ne hi)⟩
        rw [Place.rob.injEq] at hc
        exact hc.1
  | lq q => exact .inr ⟨nofun, rfl⟩
  | sq q => exact .inr ⟨nofun, rfl⟩

end Queues

end Thermometer.AddressFrame
