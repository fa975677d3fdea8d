import Mathlib.Data.List.Nodup
import Mathlib.Data.List.Perm.Subperm
import Thermometer.Lib.Windows

namespace Thermometer.Lib.Contents

open Lib.Rings Lib.Windows

section Prefixes

variable {α : Type} {r : α → α → Prop} {l p q : List α} {x : α}

theorem prefix_next (hs : l.Pairwise r) (hn : l.Nodup) (hp : p <+: l) (hx : x ∈ l) (hxp : x ∉ p)
    (hbefore : ∀ y ∈ l, r y x → y ∈ p) : p ++ [x] <+: l := by
  obtain ⟨rest, rfl⟩ := hp
  have hrest : x ∈ rest := (List.mem_append.mp hx).resolve_left hxp
  cases rest with
  | nil => cases hrest
  | cons y rest =>
      rcases List.mem_cons.mp hrest with rfl | hlater
      · exact ⟨rest, (List.append_cons p x rest).symm⟩
      · have hyx : r y x := (List.pairwise_cons.mp (List.pairwise_append.mp hs).2.1).1 x hlater
        have hyp : y ∈ p := hbefore y (List.mem_append_right p List.mem_cons_self) hyx
        exact absurd rfl ((List.nodup_append.mp hn).2.2 y hyp y List.mem_cons_self)

theorem prefix_of_subset (hn : l.Nodup) (hp : p <+: l) (hq : q <+: l) (h : p ⊆ q) : p <+: q := by
  have hlen : p.length ≤ q.length := ((hn.sublist hp.sublist).subperm h).length_le
  exact List.prefix_of_prefix_length_le hp hq hlen

end Prefixes

section View

variable {E B : Type} {g : E → B} {f : E → E} {h : B → B} {w : Window E} {empty e : E} {i : Nat}

/-- A window of which only a part of each entry is seen. -/
def view (g : E → B) (w : Window E) : Window B := ⟨w.size, fun i => g (w.entry i), w.head, w.tail, w.occupancy⟩

theorem view_update (i : Nat) (e : E) (entry : Nat → E) :
    (fun j => g (Function.update entry i e j)) = Function.update (fun j => g (entry j)) i (g e) := by
  funext j
  by_cases hj : j = i
  · rw [hj, Function.update_self, Function.update_self]
  · rw [Function.update_of_ne hj, Function.update_of_ne hj]

theorem view_push : view g (w.push e) = (view g w).push (g e) :=
  congrArg (fun entry => Window.mk w.size entry w.head (next w.size w.tail) (w.occupancy + 1)) (view_update w.tail e w.entry)

theorem view_popAt : view g (w.popAt empty i) = (view g w).popAt (g empty) i :=
  congrArg (fun entry => Window.mk w.size entry (next w.size w.head) w.tail (w.occupancy - 1)) (view_update i empty w.entry)

theorem view_modify (hf : g (f (w.entry i)) = h (g (w.entry i))) :
    view g (w.modify i f) = (view g w).modify i h := by
  have hentry := view_update (g := g) i (f (w.entry i)) w.entry
  rw [hf] at hentry
  exact congrArg (fun entry => Window.mk w.size entry w.head w.tail w.occupancy) hentry

theorem view_modify_same (hf : g (f (w.entry i)) = g (w.entry i)) : view g (w.modify i f) = view g w := by
  rw [view_modify (h := id) hf]
  exact modify_fixed rfl

end View

section Contents

variable {E : Type} {w : Window E} {empty e : E} {i : Nat}

def contents (w : Window E) : List E := (List.range w.occupancy).map (fun a => w.entry (w.slot a))

theorem contents_view {B : Type} {g : E → B} : contents (view g w) = (contents w).map g := by
  rw [contents, contents, List.map_map]
  rfl

theorem contents_push (h : Shape w empty) (hroom : w.occupancy < w.size) : contents (w.push e) = contents w ++ [e] := by
  rw [contents, show (w.push e).occupancy = w.occupancy + 1 from rfl, List.range_succ, List.map_append, List.map_singleton]
  congr 1
  · apply List.map_congr_left
    intro a ha
    exact push_live h hroom (live_slot (List.mem_range.mp ha))
  · show [(w.push e).entry (w.slot w.occupancy)] = [e]
    rw [← h.tail_eq, push_self]

theorem contents_eq_cons (h : Shape w empty) (hpos : 0 < w.occupancy) :
    contents w = w.entry w.head :: contents (w.popAt empty w.head) := by
  obtain ⟨n, hn⟩ : ∃ n, w.occupancy = n + 1 := Nat.exists_eq_succ_of_ne_zero hpos.ne'
  have hpop : (w.popAt empty w.head).occupancy = n := by
    show w.occupancy - 1 = n
    rw [hn, Nat.add_sub_cancel]
  rw [contents, contents, hpop, hn, List.range_succ_eq_map, List.map_cons, List.map_map, slot_zero h]
  congr 1
  apply List.map_congr_left
  intro a ha
  have ha : a + 1 < w.occupancy := hn ▸ Nat.succ_lt_succ (List.mem_range.mp ha)
  have hne : w.slot (a + 1) ≠ w.head := by
    intro he
    exact absurd (slot_inj h ha hpos (he.trans (slot_zero h).symm)) (Nat.succ_ne_zero a)
  rw [slot_pop h, pop_of_ne hne]
  rfl

theorem live_inj {j : Nat} (hn : (contents w).Nodup) (hi : Live w i) (hj : Live w j)
    (heq : w.entry i = w.entry j) : i = j := by
  obtain ⟨a, ha, rfl⟩ := hi
  obtain ⟨b, hb, rfl⟩ := hj
  have hinj := List.inj_on_of_nodup_map hn (List.mem_range.mpr ha) (List.mem_range.mpr hb) heq
  rw [hinj]

end Contents

end Thermometer.Lib.Contents
