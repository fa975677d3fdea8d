import Thermometer.Lib.Contents
import Thermometer.StoreOrder

namespace Thermometer.StorePath

open Lib.Rings Lib.Windows Lib.Contents LoadStoreQueue StoreOrder

open ReorderBuffer (Stage)

/-- What an entry of the reorder buffer says of its stores. -/
structure Text where
  instrId : Nat
  isMemory : Bool
  destinationMemory : Fin numInstrDestinations → Nat
  destinationAdded : Fin numInstrDestinations → Bool
  sqIndex : Fin numInstrDestinations → Option Nat
  executed : Stage

def textOf (e : RobEntry) : Text where
  instrId := e.instrId
  isMemory := e.isMemory
  destinationMemory := e.destinationMemory
  destinationAdded := e.destinationAdded
  sqIndex := e.sqIndex
  executed := e.executed

def storeOf (e : LsqEntry) : Store := ⟨e.instrId, e.virtualAddress, e.dataIndex⟩

structure Path where
  rob : Window Text
  sq : Window Store
  sta : List Nat
  program : List Instr

def pathOf (s : State) : Path := ⟨view textOf s.rob, view storeOf s.sq, s.sta, s.program⟩

def Path.dispatch (v : Path) (x : Instr) : Path :=
  { v with
    rob := v.rob.push (textOf (.dispatched v.program.length x))
    sta := v.sta ++ (storesOf v.program.length x).map Store.instrId
    program := v.program ++ [x] }

def Text.enter (d : Fin numInstrDestinations) (q : Nat) (e : Text) : Text :=
  { e with
    sqIndex := Function.update e.sqIndex d (some q)
    destinationAdded := Function.update e.destinationAdded d true }

def Path.enter (v : Path) (current : Nat) (d : Fin numInstrDestinations) : Path :=
  { v with
    rob := v.rob.modify current (Text.enter d v.sq.tail)
    sq := v.sq.push ⟨(v.rob.entry current).instrId, (v.rob.entry current).destinationMemory d, d⟩
    sta := v.sta.tail }

def Text.mark (stage : Stage) (e : Text) : Text := { e with executed := stage }

def Path.mark (v : Path) (i : Nat) (stage : Stage) : Path := { v with rob := v.rob.modify i (Text.mark stage) }

def Text.write (d : Fin numInstrDestinations) (e : Text) : Text :=
  { e with destinationMemory := Function.update e.destinationMemory d 0 }

def Path.write (v : Path) (d : Fin numInstrDestinations) : Path :=
  { v with rob := v.rob.modify v.rob.head (Text.write d) }

def Path.release (v : Path) (q : Nat) : Path := { v with sq := v.sq.popAt .empty q }

def Path.leave (v : Path) : Path := { v with rob := v.rob.popAt (textOf .empty) v.rob.head }

/-- An entry in use knows which of its stores have entered the store queue, where those are that have
not left it, and which have been sent to the cache. -/
structure Knows (released sent : List Store) (v : Path) (e : Text) : Prop where
  added : ∀ d, e.destinationAdded d = true ↔ storeAt v.program e.instrId d ∈ released ++ contents v.sq
  indexed : ∀ d, (e.sqIndex d).isSome = e.destinationAdded d
  index : ∀ {d q}, e.sqIndex d = some q → storeAt v.program e.instrId d ∉ released →
    Live v.sq q ∧ v.sq.entry q = storeAt v.program e.instrId d
  memory : ∀ d, e.destinationMemory d =
    if storeAt v.program e.instrId d ∈ sent then 0 else (storeAt v.program e.instrId d).virtualAddress
  without : e.isMemory = false → ∀ d, (storeAt v.program e.instrId d).virtualAddress = 0
  executed : e.executed ≠ .idle → ∀ d, (storeAt v.program e.instrId d).virtualAddress ≠ 0 → e.destinationAdded d = true

/-- The stores that have left the store queue, those in it and those to come are the stores of the
program in their order. Of the instruction at the head those that `gone` lists have left. -/
structure Ordered (gone : List (Fin numInstrDestinations)) (released sent : List Store) (v : Path) : Prop where
  rob : Shape v.rob (textOf .empty)
  numbered : Numbered v.rob Text.instrId v.program.length
  sq : Shape v.sq .empty
  split : ∃ pending, released ++ contents v.sq ++ pending = storesFrom 0 v.program ∧ pending.map Store.instrId = v.sta
  knows : ∀ {i}, Live v.rob i → Knows released sent v (v.rob.entry i)
  retired : ∀ x ∈ storesFrom 0 v.program, x ∈ released ↔
    x.instrId + v.rob.occupancy < v.program.length ∨
      x.instrId + v.rob.occupancy = v.program.length ∧ x.dataIndex ∈ gone
  written : sent <+: storesFrom 0 v.program
  before : released ⊆ sent
  after : sent ⊆ released ++ contents v.sq

variable {v u : Path} {released sent : List Store} {gone : List (Fin numInstrDestinations)} {e : Text} {x y : Store}
  {i q current : Nat} {c d : Fin numInstrDestinations}

theorem enter_added : (Text.enter d q e).destinationAdded c = if c = d then true else e.destinationAdded c :=
  Function.update_apply _ _ _ _

theorem enter_index : (Text.enter d q e).sqIndex c = if c = d then some q else e.sqIndex c := Function.update_apply _ _ _ _

theorem write_memory : (Text.write d e).destinationMemory c = if c = d then 0 else e.destinationMemory c :=
  Function.update_apply _ _ _ _

section Facts

theorem Ordered.entered (h : Ordered gone released sent v) : released ++ contents v.sq <+: storesFrom 0 v.program := by
  obtain ⟨pending, hsplit, -⟩ := h.split
  exact ⟨pending, hsplit⟩

theorem Ordered.left (h : Ordered gone released sent v) : released <+: storesFrom 0 v.program :=
  (List.prefix_append released (contents v.sq)).trans h.entered

theorem Ordered.queued_nodup (h : Ordered gone released sent v) : (contents v.sq).Nodup :=
  (List.nodup_append.mp (storesFrom_nodup.sublist h.entered.sublist)).2.1

theorem next_of_earlier {p : List Store} (hp : p <+: storesFrom 0 v.program) (hx : x ∈ storesFrom 0 v.program) (hxp : x ∉ p)
    (hearlier : ∀ y ∈ storesFrom 0 v.program, Earlier y x → y ∈ p) : p ++ [x] <+: storesFrom 0 v.program :=
  prefix_next storesFrom_pairwise storesFrom_nodup hp hx hxp hearlier

theorem Ordered.head_number (h : Ordered gone released sent v) (hhead : Live v.rob v.rob.head) :
    (v.rob.entry v.rob.head).instrId + v.rob.occupancy = v.program.length := by
  have hzero := h.numbered 0 (occupancy_pos hhead)
  rwa [slot_zero h.rob, Nat.add_zero] at hzero

theorem Ordered.earlier_head (h : Ordered gone released sent v) (hhead : Live v.rob v.rob.head)
    (hy : y ∈ storesFrom 0 v.program)
    (hyx : Earlier y (storeAt v.program (v.rob.entry v.rob.head).instrId d)) :
    y ∈ released ∨ y = storeAt v.program (v.rob.entry v.rob.head).instrId y.dataIndex ∧ y.dataIndex < d := by
  have hnumber := h.head_number hhead
  rcases hyx with hlt | ⟨heq, hlt⟩
  · have hlt : y.instrId < (v.rob.entry v.rob.head).instrId := hlt
    exact .inl ((h.retired y hy).mpr (.inl (by omega)))
  · have heq : y.instrId = (v.rob.entry v.rob.head).instrId := heq
    refine .inr ⟨?_, hlt⟩
    rw [← heq]
    exact (mem_stores.mp hy).1

theorem Knows.mem (h : Knows released sent v e) (hd : e.destinationMemory d ≠ 0) :
    storeAt v.program e.instrId d ∈ storesFrom 0 v.program ∧ storeAt v.program e.instrId d ∉ sent ∧
      e.destinationMemory d = (storeAt v.program e.instrId d).virtualAddress := by
  have hmem := h.memory d
  by_cases hs : storeAt v.program e.instrId d ∈ sent
  · rw [if_pos hs] at hmem
    exact absurd hmem hd
  · rw [if_neg hs] at hmem
    exact ⟨storeAt_mem.mpr (hmem ▸ hd), hs, hmem⟩

theorem Knows.sent_of_zero (h : Knows released sent v e) (hx : storeAt v.program e.instrId d ∈ storesFrom 0 v.program)
    (hd : e.destinationMemory d = 0) : storeAt v.program e.instrId d ∈ sent := by
  by_contra hs
  have hmem := h.memory d
  rw [if_neg hs, hd] at hmem
  exact storeAt_mem.mp hx hmem.symm

theorem Knows.frame {released' sent' : List Store} (h : Knows released sent v e)
    (hat : ∀ c, storeAt u.program e.instrId c = storeAt v.program e.instrId c)
    (hentered : ∀ c, storeAt v.program e.instrId c ∈ released' ++ contents u.sq ↔
      storeAt v.program e.instrId c ∈ released ++ contents v.sq)
    (hsent : ∀ c, storeAt v.program e.instrId c ∈ sent' ↔ storeAt v.program e.instrId c ∈ sent)
    (hleft : ∀ c, storeAt v.program e.instrId c ∈ released → storeAt v.program e.instrId c ∈ released')
    (hslot : ∀ c q, storeAt v.program e.instrId c ∉ released' → Live v.sq q → v.sq.entry q = storeAt v.program e.instrId c →
      Live u.sq q ∧ u.sq.entry q = v.sq.entry q) : Knows released' sent' u e := by
  refine ⟨fun c => ?_, h.indexed, fun {c q} hq hx => ?_, fun c => ?_, fun hm c => ?_, fun hx c hc => ?_⟩
  · rw [hat, hentered]
    exact h.added c
  · rw [hat] at hx ⊢
    obtain ⟨hlive, hentry⟩ := h.index hq (fun hin => hx (hleft c hin))
    obtain ⟨hlive', hsame⟩ := hslot c q hx hlive hentry
    exact ⟨hlive', hsame.trans hentry⟩
  · rw [hat, h.memory c]
    exact if_congr (hsent c).symm rfl rfl
  · rw [hat]
    exact h.without hm c
  · rw [hat] at hc
    exact h.executed hx c hc

end Facts

section Enter

variable (h : Ordered [] released sent v) (hi : Live v.rob current)
  (hdest : (v.rob.entry current).destinationMemory d ≠ 0) (hadded : (v.rob.entry current).destinationAdded d = false)
  (hroom : v.sq.occupancy < v.sq.size) (hsta : v.sta.head? = some (v.rob.entry current).instrId)
  (hbefore : ∀ c, c < d → (v.rob.entry current).destinationMemory c ≠ 0 → (v.rob.entry current).destinationAdded c = true)

include h hi hadded in
theorem not_entered : storeAt v.program (v.rob.entry current).instrId d ∉ released ++ contents v.sq := by
  intro hin
  rw [((h.knows hi).added d).mpr hin] at hadded
  cases hadded

include h hi hdest hadded hsta hbefore in
theorem enter_next :
    released ++ contents v.sq ++ [storeAt v.program (v.rob.entry current).instrId d] <+: storesFrom 0 v.program := by
  have hk := h.knows hi
  obtain ⟨pending, hsplit, htickets⟩ := h.split
  apply next_of_earlier h.entered (hk.mem hdest).1 (not_entered h hi hadded)
  intro y hy hyx
  by_contra hout
  have hpending : y ∈ pending := (List.mem_append.mp (hsplit ▸ hy)).resolve_left hout
  cases pending with
  | nil => cases hpending
  | cons z rest =>
      have hz : z.instrId = (v.rob.entry current).instrId := by
        rw [← htickets, List.map_cons, List.head?_cons, Option.some.injEq] at hsta
        exact hsta
      have hzy : z.instrId ≤ y.instrId := by
        rcases List.mem_cons.mp hpending with rfl | hlater
        · exact le_refl _
        · have hsorted : (storesFrom 0 v.program).Pairwise Earlier := storesFrom_pairwise
          rw [← hsplit] at hsorted
          rcases (List.pairwise_cons.mp (List.pairwise_append.mp hsorted).2.1).1 y hlater with hlt | ⟨heq, -⟩
          · exact hlt.le
          · exact heq.le
      rcases hyx with hlt | ⟨heq, hlt⟩
      · exact absurd (hz ▸ hzy) (Nat.not_le.mpr hlt)
      · have heq : y.instrId = (v.rob.entry current).instrId := heq
        have hat := (mem_stores.mp hy).1
        rw [heq] at hat
        rw [hat] at hy hout
        by_cases hzero : (v.rob.entry current).destinationMemory y.dataIndex = 0
        · exact hout (h.after (hk.sent_of_zero hy hzero))
        · exact hout ((hk.added _).mp (hbefore _ hlt hzero))

include h hi hdest in
theorem enter_store : Store.mk (v.rob.entry current).instrId ((v.rob.entry current).destinationMemory d) d
    = storeAt v.program (v.rob.entry current).instrId d := by
  rw [((h.knows hi).mem hdest).2.2]
  rfl

include h hi hdest hroom in
theorem enter_contents :
    contents (v.enter current d).sq = contents v.sq ++ [storeAt v.program (v.rob.entry current).instrId d] := by
  rw [← enter_store h hi hdest]
  exact contents_push h.sq hroom

include h hi hdest hadded hroom in
theorem enter_knows (hk : Live v.rob i) : Knows released sent (v.enter current d) ((v.enter current d).rob.entry i) := by
  have hlists : released ++ contents (v.enter current d).sq
      = released ++ contents v.sq ++ [storeAt v.program (v.rob.entry current).instrId d] := by
    rw [enter_contents h hi hdest hroom, List.append_assoc]
  have hslot : ∀ {q x}, Live v.sq q → v.sq.entry q = x → Live (v.enter current d).sq q ∧ (v.enter current d).sq.entry q = x :=
    fun hq hx => ⟨(live_push h.sq).mpr (.inl hq), (push_live h.sq hroom hq).trans hx⟩
  by_cases hic : i = current
  · subst hic
    have hentry : (v.enter i d).rob.entry i = Text.enter d v.sq.tail (v.rob.entry i) := modify_self
    have hki := h.knows hi
    have hstore := enter_store h hi hdest
    rw [hentry]
    refine ⟨fun c => ?_, fun c => ?_, fun {c q} hq hx => ?_, hki.memory, hki.without, fun hx c hc => ?_⟩
    · rw [enter_added, hlists, List.mem_append, List.mem_singleton]
      show _ ↔ storeAt v.program (v.rob.entry i).instrId c ∈ released ++ contents v.sq ∨ _
      by_cases hcd : c = d
      · rw [if_pos hcd, hcd]
        exact iff_of_true rfl (.inr rfl)
      · rw [if_neg hcd, or_iff_left (fun he => hcd (congrArg Store.dataIndex he))]
        exact hki.added c
    · rw [enter_added, enter_index]
      by_cases hcd : c = d
      · rw [if_pos hcd, if_pos hcd, Option.isSome_some]
      · rw [if_neg hcd, if_neg hcd]
        exact hki.indexed c
    · rw [enter_index] at hq
      by_cases hcd : c = d
      · rw [if_pos hcd, Option.some.injEq] at hq
        rw [hcd, ← hq]
        exact ⟨(live_push h.sq).mpr (.inr rfl), push_self.trans hstore⟩
      · rw [if_neg hcd] at hq
        obtain ⟨hlive, hx⟩ := hki.index hq hx
        exact hslot hlive hx
    · rw [enter_added]
      by_cases hcd : c = d
      · rw [if_pos hcd]
      · rw [if_neg hcd]
        exact hki.executed hx c hc
  · have hentry : (v.enter current d).rob.entry i = v.rob.entry i := modify_of_ne hic
    rw [hentry]
    refine (h.knows hk).frame (fun _ => rfl) (fun c => ?_) (fun _ => Iff.rfl) (fun _ hx => hx) (fun c q _ hq hx => ?_)
    · rw [hlists, List.mem_append, List.mem_singleton, or_iff_left]
      intro he
      exact hic (h.numbered.inj hk hi (congrArg Store.instrId he))
    · exact hslot hq rfl

include h hi hdest hadded hroom hsta hbefore in
theorem Ordered.enter : Ordered [] released sent (v.enter current d) := by
  have hcontents := enter_contents h hi hdest hroom
  have hlists : released ++ contents (v.enter current d).sq
      = released ++ contents v.sq ++ [storeAt v.program (v.rob.entry current).instrId d] := by
    rw [hcontents, List.append_assoc]
  refine ⟨h.rob.modify (f := Text.enter d v.sq.tail) hi, h.numbered.modify (f := Text.enter d v.sq.tail) rfl,
    h.sq.push hroom, ?_, fun hk => enter_knows h hi hdest hadded hroom hk,
    h.retired, h.written, h.before, fun x hx => ?_⟩
  · obtain ⟨pending, hsplit, htickets⟩ := h.split
    obtain ⟨rest, hrest⟩ := enter_next h hi hdest hadded hsta hbefore
    refine ⟨rest, ?_, ?_⟩
    · rw [hlists]
      exact hrest
    · have hpending : pending = [storeAt v.program (v.rob.entry current).instrId d] ++ rest := by
        have heq := hsplit.trans hrest.symm
        rw [List.append_assoc _ _ rest] at heq
        exact List.append_cancel_left heq
      rw [hpending] at htickets
      show _ = v.sta.tail
      rw [← htickets]
      rfl
  · rw [hlists]
    exact List.mem_append_left _ (h.after hx)

end Enter

section Mark

theorem Knows.added_of_available (h : Knows released sent v e) (hafter : sent ⊆ released ++ contents v.sq)
    (hd : e.destinationMemory d = 0 ∨ e.destinationAdded d = true)
    (hx : (storeAt v.program e.instrId d).virtualAddress ≠ 0) : e.destinationAdded d = true := by
  rcases hd with hzero | hadded
  · exact (h.added d).mpr (hafter (h.sent_of_zero (storeAt_mem.mpr hx) hzero))
  · exact hadded

theorem Ordered.mark {stage : Stage} (h : Ordered gone released sent v) (hi : Live v.rob i)
    (hstage : stage ≠ .idle → ∀ d, (storeAt v.program (v.rob.entry i).instrId d).virtualAddress ≠ 0 →
      (v.rob.entry i).destinationAdded d = true) : Ordered gone released sent (v.mark i stage) := by
  refine ⟨h.rob.modify (f := Text.mark stage) hi, h.numbered.modify (f := Text.mark stage) rfl, h.sq, h.split,
    fun {k} hk => ?_, h.retired, h.written, h.before, h.after⟩
  have hki := h.knows hk
  by_cases hki' : k = i
  · subst hki'
    have hentry : (v.mark k stage).rob.entry k = Text.mark stage (v.rob.entry k) := modify_self
    rw [hentry]
    exact ⟨hki.added, hki.indexed, hki.index, hki.memory, hki.without, hstage⟩
  · have hentry : (v.mark i stage).rob.entry k = v.rob.entry k := modify_of_ne hki'
    rw [hentry]
    exact ⟨hki.added, hki.indexed, hki.index, hki.memory, hki.without, hki.executed⟩

end Mark

section Write

variable (h : Ordered [] released sent v) (hhead : Live v.rob v.rob.head)
  (hexecuted : (v.rob.entry v.rob.head).executed ≠ .idle) (hdest : (v.rob.entry v.rob.head).destinationMemory d ≠ 0)
  (hbefore : ∀ c, c < d → (v.rob.entry v.rob.head).destinationMemory c = 0)

include h hhead hdest hbefore in
theorem write_next : sent ++ [storeAt v.program (v.rob.entry v.rob.head).instrId d] <+: storesFrom 0 v.program := by
  have hk := h.knows hhead
  obtain ⟨hx, hout, -⟩ := hk.mem hdest
  apply next_of_earlier h.written hx hout
  intro y hy hyx
  rcases h.earlier_head hhead hy hyx with hleft | ⟨hat, hlt⟩
  · exact h.before hleft
  · rw [hat] at hy ⊢
    exact hk.sent_of_zero hy (hbefore _ hlt)

include h hhead hexecuted hdest hbefore in
theorem Ordered.write : Ordered [] released (sent ++ [storeAt v.program (v.rob.entry v.rob.head).instrId d]) (v.write d) := by
  have hk := h.knows hhead
  obtain ⟨hx, hout, -⟩ := hk.mem hdest
  refine ⟨h.rob.modify (f := Text.write d) hhead, h.numbered.modify (f := Text.write d) rfl, h.sq, h.split,
    fun {i} hi => ?_, h.retired, write_next h hhead hdest hbefore, fun y hy => List.mem_append_left _ (h.before hy),
    fun y hy => ?_⟩
  · have hki := h.knows hi
    by_cases hih : i = v.rob.head
    · subst hih
      have hentry : (v.write d).rob.entry v.rob.head = Text.write d (v.rob.entry v.rob.head) := modify_self
      rw [hentry]
      refine ⟨hk.added, hk.indexed, hk.index, fun c => ?_, hk.without, hk.executed⟩
      show (Text.write d (v.rob.entry v.rob.head)).destinationMemory c =
        if storeAt v.program (v.rob.entry v.rob.head).instrId c ∈ sent ++ [storeAt v.program (v.rob.entry v.rob.head).instrId d]
        then 0 else (storeAt v.program (v.rob.entry v.rob.head).instrId c).virtualAddress
      rw [write_memory]
      by_cases hcd : c = d
      · rw [if_pos hcd, hcd, if_pos (List.mem_append_right _ (List.mem_singleton_self _))]
      · rw [if_neg hcd, hk.memory c]
        refine if_congr ?_ rfl rfl
        rw [List.mem_append, List.mem_singleton, or_iff_left (fun he => hcd (congrArg Store.dataIndex he))]
    · have hentry : (v.write d).rob.entry i = v.rob.entry i := modify_of_ne hih
      rw [hentry]
      refine hki.frame (fun _ => rfl) (fun _ => Iff.rfl) (fun c => ?_) (fun _ hx => hx) (fun _ _ _ hq _ => ⟨hq, rfl⟩)
      rw [List.mem_append, List.mem_singleton, or_iff_left]
      intro he
      exact hih (h.numbered.inj hi hhead (congrArg Store.instrId he))
  · rcases List.mem_append.mp hy with hy | hy
    · exact h.after hy
    · rw [List.mem_singleton.mp hy]
      exact (hk.added d).mp (hk.executed hexecuted d (storeAt_mem.mp hx))

end Write

section Release

variable (h : Ordered gone released sent v) (hhead : Live v.rob v.rob.head)
  (hexecuted : (v.rob.entry v.rob.head).executed ≠ .idle) (hwritten : ∀ c, (v.rob.entry v.rob.head).destinationMemory c = 0)
  (hgone : d ∉ gone) (hbefore : ∀ c, c < d → c ∈ gone)

include h hhead in
theorem head_retired (hx : storeAt v.program (v.rob.entry v.rob.head).instrId c ∈ storesFrom 0 v.program) :
    storeAt v.program (v.rob.entry v.rob.head).instrId c ∈ released ↔ c ∈ gone := by
  have hnumber := h.head_number hhead
  rw [h.retired _ hx]
  exact (or_iff_right hnumber.not_lt).trans (and_iff_right hnumber)

include h hhead hexecuted in
theorem release_none (hindex : (v.rob.entry v.rob.head).sqIndex d = none) : Ordered (d :: gone) released sent v := by
  have hk := h.knows hhead
  refine ⟨h.rob, h.numbered, h.sq, h.split, h.knows, fun x hx => ?_, h.written, h.before, h.after⟩
  rw [h.retired x hx]
  refine or_congr_right (and_congr_right (fun heq => ?_))
  rw [List.mem_cons, or_iff_right]
  intro hxd
  have hnumber := h.head_number hhead
  have hid : x.instrId = (v.rob.entry v.rob.head).instrId := by omega
  obtain ⟨hat, hne⟩ := mem_stores.mp hx
  rw [hat, hid, hxd] at hne
  have hadded := hk.executed hexecuted d hne
  rw [← hk.indexed, hindex] at hadded
  cases hadded

include h hhead hgone hbefore in
theorem release_first (hindex : (v.rob.entry v.rob.head).sqIndex d = some q) : q = v.sq.head ∧ Live v.sq q ∧
    v.sq.entry q = storeAt v.program (v.rob.entry v.rob.head).instrId d ∧ v.sq.entry q ∈ storesFrom 0 v.program := by
  have hk := h.knows hhead
  have hadded : storeAt v.program (v.rob.entry v.rob.head).instrId d ∈ released ++ contents v.sq := by
    rw [← hk.added, ← hk.indexed, hindex, Option.isSome_some]
  have hx : storeAt v.program (v.rob.entry v.rob.head).instrId d ∈ storesFrom 0 v.program := h.entered.subset hadded
  have hout : storeAt v.program (v.rob.entry v.rob.head).instrId d ∉ released := fun hin =>
    hgone ((head_retired h hhead hx).mp hin)
  obtain ⟨hlive, hentry⟩ := hk.index hindex hout
  have hnext : released ++ [storeAt v.program (v.rob.entry v.rob.head).instrId d] <+: storesFrom 0 v.program := by
    apply next_of_earlier h.left hx hout
    intro y hy hyx
    rcases h.earlier_head hhead hy hyx with hleft | ⟨hat, hlt⟩
    · exact hleft
    · rw [hat] at hy ⊢
      exact (head_retired h hhead hy).mpr (hbefore _ hlt)
  have hcons := contents_eq_cons h.sq (occupancy_pos hlive)
  have hfirst : v.sq.entry v.sq.head = v.sq.entry q := by
    obtain ⟨pending, hsplit, -⟩ := h.split
    obtain ⟨rest, hrest⟩ := hnext
    rw [← hsplit, hcons, List.append_assoc, List.append_assoc] at hrest
    rw [hentry]
    exact (List.cons.inj (List.append_cancel_left hrest)).1.symm
  have hfront : Live v.sq v.sq.head := ⟨0, occupancy_pos hlive, slot_zero h.sq⟩
  refine ⟨(live_inj h.queued_nodup hfront hlive hfirst).symm, hlive, hentry, ?_⟩
  rw [hentry]
  exact hx

include h hhead hwritten hgone hbefore in
/-- The next store of the instruction at the head has been written, and its slot is released in its turn. -/
theorem release_some (hindex : (v.rob.entry v.rob.head).sqIndex d = some q) :
    v.sq.entry q ∈ sent ∧ Ordered (d :: gone) (released ++ [v.sq.entry q]) sent (v.release q) := by
  have hk := h.knows hhead
  obtain ⟨rfl, hlive, hentry, hx⟩ := release_first h hhead hgone hbefore hindex
  rw [hentry] at hx
  have hcons := contents_eq_cons h.sq (occupancy_pos hlive)
  have hlists : released ++ [v.sq.entry v.sq.head] ++ contents (v.release v.sq.head).sq = released ++ contents v.sq := by
    rw [hcons, List.append_assoc]
    rfl
  have hsent : v.sq.entry v.sq.head ∈ sent := by
    rw [hentry]
    exact hk.sent_of_zero hx (hwritten d)
  refine ⟨hsent, h.rob, h.numbered, h.sq.pop (occupancy_pos hlive), ?_, fun {i} hi => ?_, fun y hy => ?_, h.written,
    fun y hy => ?_, fun y hy => ?_⟩
  · obtain ⟨pending, hsplit, htickets⟩ := h.split
    refine ⟨pending, ?_, htickets⟩
    rw [hlists]
    exact hsplit
  · refine (h.knows hi).frame (fun _ => rfl) (fun c => ?_) (fun _ => Iff.rfl) (fun _ hin => List.mem_append_left _ hin)
      (fun c k hin hlk hk => ?_)
    · rw [hlists]
    · have hne : k ≠ v.sq.head := by
        rintro rfl
        rw [hk] at hin
        exact hin (List.mem_append_right _ (List.mem_singleton_self _))
      exact ⟨(live_pop h.sq).mpr ⟨hlk, hne⟩, pop_of_ne hne⟩
  · rw [List.mem_append, List.mem_singleton, h.retired y hy, or_assoc]
    refine or_congr_right ?_
    rw [List.mem_cons, and_or_left, or_comm]
    refine or_congr_left ⟨fun he => ?_, fun he => ?_⟩
    · rw [he, hentry]
      exact ⟨h.head_number hhead, rfl⟩
    · have hnumber := h.head_number hhead
      have hid : y.instrId = (v.rob.entry v.rob.head).instrId := by
        have heq : y.instrId + v.rob.occupancy = v.program.length := he.1
        omega
      rw [hentry, ← hid, ← he.2]
      exact (mem_stores.mp hy).1
  · rcases List.mem_append.mp hy with hy | hy
    · exact h.before hy
    · rw [List.mem_singleton.mp hy]
      exact hsent
  · rw [hlists]
    exact h.after hy

end Release

section Leave

theorem Ordered.leave (h : Ordered gone released sent v) (hhead : Live v.rob v.rob.head) (hall : ∀ d, d ∈ gone) :
    Ordered [] released sent v.leave := by
  have hpos := occupancy_pos hhead
  refine ⟨h.rob.pop hpos, h.numbered.pop h.rob, h.sq, h.split, fun {i} hi => ?_, fun x hx => ?_, h.written, h.before, h.after⟩
  · obtain ⟨hi, hne⟩ := (live_pop h.rob).mp hi
    have hentry : v.leave.rob.entry i = v.rob.entry i := pop_of_ne hne
    have hki := h.knows hi
    rw [hentry]
    exact ⟨hki.added, hki.indexed, hki.index, hki.memory, hki.without, hki.executed⟩
  · rw [h.retired x hx]
    have hnone : ¬(x.instrId + v.leave.rob.occupancy = v.program.length ∧ x.dataIndex ∈ []) := fun hc => List.not_mem_nil hc.2
    have hleave : v.leave.rob.occupancy = v.rob.occupancy - 1 := rfl
    rw [and_iff_left (hall _)]
    refine Iff.trans ?_ (or_iff_left hnone).symm
    show _ ↔ x.instrId + v.leave.rob.occupancy < v.program.length
    omega

end Leave

section Dispatch

theorem dispatched_knows (h : Ordered [] released sent v) (x : Instr) :
    Knows released sent (v.dispatch x) (textOf (.dispatched v.program.length x)) := by
  have hat : ∀ c, storeAt (v.dispatch x).program v.program.length c = ⟨v.program.length, x.destinationMemory c, c⟩ := by
    intro c
    show storeAt (v.program ++ [x]) v.program.length c = _
    rw [storeAt, List.getD_eq_getElem?_getD, List.getElem?_concat_length]
    rfl
  have hnew : ∀ c, storeAt (v.dispatch x).program v.program.length c ∉ storesFrom 0 v.program := by
    intro c hc
    have hlt := (instrId_of_mem hc).2
    rw [Nat.zero_add] at hlt
    exact lt_irrefl _ hlt
  refine ⟨fun c => ?_, fun _ => rfl, fun hq => ?_, fun c => ?_, fun hmemory c => ?_, fun hidle => absurd rfl hidle⟩
  · exact iff_of_false Bool.false_ne_true (fun hin => hnew c (h.entered.subset hin))
  · cases hq
  · show x.destinationMemory c = if storeAt (v.dispatch x).program v.program.length c ∈ sent then 0
      else (storeAt (v.dispatch x).program v.program.length c).virtualAddress
    rw [if_neg (fun hin => hnew c (h.written.subset hin)), hat]
  · have hnone : ¬0 < x.operands.card := of_decide_eq_false hmemory
    have hempty : x.operands = ∅ := Finset.card_eq_zero.mp (Nat.eq_zero_of_not_pos hnone)
    show (storeAt (v.dispatch x).program v.program.length c).virtualAddress = 0
    rw [hat]
    by_contra hne
    have hmem : .inr c ∈ x.operands := Finset.mem_filter.mpr ⟨Finset.mem_univ _, hne⟩
    rw [hempty] at hmem
    exact absurd hmem (Finset.notMem_empty _)

theorem Ordered.dispatch (h : Ordered [] released sent v) (hroom : v.rob.occupancy < v.rob.size) (x : Instr) :
    Ordered [] released sent (v.dispatch x) := by
  have hstores : storesFrom 0 (v.dispatch x).program = storesFrom 0 v.program ++ storesOf v.program.length x := by
    show storesFrom 0 (v.program ++ [x]) = _
    rw [storesFrom_append, Nat.zero_add, storesFrom, storesFrom, List.append_nil]
  have hlength : (v.dispatch x).program.length = v.program.length + 1 := List.length_append
  refine ⟨h.rob.push hroom, ?_, h.sq, ?_, fun {i} hi => ?_, fun y hy => ?_, ?_, h.before, h.after⟩
  · rw [hlength]
    exact h.numbered.push h.rob hroom rfl
  · obtain ⟨pending, hsplit, htickets⟩ := h.split
    refine ⟨pending ++ storesOf v.program.length x, ?_, ?_⟩
    · rw [hstores, ← hsplit, List.append_assoc, List.append_assoc, List.append_assoc]
      rfl
    · rw [List.map_append, htickets]
      rfl
  · rcases (live_push h.rob).mp hi with hi | rfl
    · have hentry : (v.dispatch x).rob.entry i = v.rob.entry i := push_live h.rob hroom hi
      rw [hentry]
      exact (h.knows hi).frame (fun _ => storeAt_append (h.numbered.lt hi)) (fun _ => Iff.rfl) (fun _ => Iff.rfl)
        (fun _ hin => hin) (fun _ _ _ hq _ => ⟨hq, rfl⟩)
    · have hentry : (v.dispatch x).rob.entry v.rob.tail = textOf (.dispatched v.program.length x) := push_self
      rw [hentry]
      exact dispatched_knows h x
  · have hroom' : (v.dispatch x).rob.occupancy = v.rob.occupancy + 1 := rfl
    have hnone : ∀ {p : Prop}, ¬(p ∧ y.dataIndex ∈ []) := fun hc => List.not_mem_nil hc.2
    rw [or_iff_left hnone, hlength, hroom']
    rw [hstores] at hy
    rcases List.mem_append.mp hy with hy | hy
    · rw [h.retired y hy, or_iff_left hnone]
      omega
    · have hid : y.instrId = v.program.length := (mem_storesOf.mp hy).1
      refine iff_of_false (fun hin => ?_) (by omega)
      have hlt := (instrId_of_mem (h.left.subset hin)).2
      omega
  · rw [hstores]
    exact h.written.trans (List.prefix_append _ _)

end Dispatch

theorem initial_ordered {robSize lqSize sqSize : Nat} (hrob : 0 < robSize) (hsq : 0 < sqSize) :
    Ordered [] [] [] (pathOf (.initial robSize lqSize sqSize)) := by
  have hrobShape : Shape (.initial robSize (textOf .empty)) (textOf .empty) := initial_shape hrob
  have hsqShape : Shape (.initial sqSize Store.empty) Store.empty := initial_shape hsq
  have hlive : ∀ i, ¬Live (Window.initial robSize (textOf .empty)) i := fun _ => initial_not_live
  exact ⟨hrobShape, fun _ ha => absurd ha (Nat.not_lt_zero _), hsqShape, ⟨[], rfl, rfl⟩, fun hi => absurd hi (hlive _),
    fun _ hx => absurd hx List.not_mem_nil, List.prefix_refl _, fun _ hx => hx, fun _ hx => absurd hx List.not_mem_nil⟩

end Thermometer.StorePath
