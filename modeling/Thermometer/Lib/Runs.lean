import Mathlib.Data.List.Induction

namespace Thermometer.Lib.Runs

variable {S C : Type}

/-- A run of a partial step function: `none` is a failed assertion, after which
nothing more happens. -/
def run (step : S → C → Option S) (s : S) (cs : List C) : Option S := cs.foldlM step s

@[simp] theorem run_nil (step : S → C → Option S) (s : S) : run step s [] = some s := rfl

@[simp] theorem run_cons (step : S → C → Option S) (s : S) (c : C) (cs : List C) :
    run step s (c :: cs) = (step s c).bind (fun t => run step t cs) := by
  simp [run, List.foldlM_cons, Option.bind_eq_bind]

theorem run_append (step : S → C → Option S) (s : S) (cs ds : List C) :
    run step s (cs ++ ds) = (run step s cs).bind (fun t => run step t ds) := by
  simp [run, List.foldlM_append, Option.bind_eq_bind]

theorem run_single {step : S → C → Option S} {s : S} {c : C} : run step s [c] = step s c := by
  rw [run_cons]
  cases step s c with
  | none => rfl
  | some t => rfl

theorem run_map_of {T : Type} {step : S → C → Option S} {low : T → C → Option T} {g : S → T} {I : S → Prop}
    (hkeep : ∀ s c t, I s → step s c = some t → I t) (hstep : ∀ s c, I s → (step s c).map g = low (g s) c)
    {s : S} (hs : I s) (cs : List C) : (run step s cs).map g = run low (g s) cs := by
  induction cs generalizing s with
  | nil => rfl
  | cons c cs ih =>
      rw [run_cons, run_cons, ← hstep s c hs]
      cases hc : step s c with
      | none => rfl
      | some t => exact ih (hkeep s c t hs hc)

theorem run_map {T : Type} {step : S → C → Option S} {low : T → C → Option T} {g : S → T}
    (hstep : ∀ s c, (step s c).map g = low (g s) c) (s : S) (cs : List C) : (run step s cs).map g = run low (g s) cs :=
  run_map_of (I := fun _ => True) (fun _ _ _ _ _ => trivial) (fun s c _ => hstep s c) trivial cs

theorem run_preserves {step : S → C → Option S} {I : S → Prop} {cs : List C}
    (hstep : ∀ s t c, c ∈ cs → I s → step s c = some t → I t) {s t : S}
    (hs : I s) (h : run step s cs = some t) : I t := by
  induction cs generalizing s with
  | nil =>
      rw [run_nil, Option.some.injEq] at h
      exact h ▸ hs
  | cons c cs ih =>
      rw [run_cons, Option.bind_eq_some_iff] at h
      obtain ⟨u, hu, h⟩ := h
      exact ih (fun s t d hd => hstep s t d (List.mem_cons_of_mem c hd))
        (hstep s u c List.mem_cons_self hs hu) h

theorem run_idle {step : S → C → Option S} {s : S} {cs : List C} (h : ∀ c ∈ cs, step s c = some s) : run step s cs = some s := by
  induction cs with
  | nil => rfl
  | cons c cs ih =>
      rw [run_cons, h c List.mem_cons_self]
      exact ih (fun d hd => h d (List.mem_cons_of_mem c hd))

theorem run_reaches {step : S → C → Option S} {P : S → Prop} {Q : C → Prop} {s t : S} {cs : List C}
    (hidle : ∀ c, ¬Q c → step s c = some s) (hfirst : ∀ c u, Q c → step s c = some u → P u)
    (hkeep : ∀ u v c, P u → step u c = some v → P v) (hcs : ∃ c ∈ cs, Q c) (h : run step s cs = some t) : P t := by
  induction cs with
  | nil =>
      obtain ⟨c, hc, -⟩ := hcs
      cases hc
  | cons c cs ih =>
      rw [run_cons, Option.bind_eq_some_iff] at h
      obtain ⟨u, hu, h⟩ := h
      by_cases hc : Q c
      · exact run_preserves (fun u v d _ => hkeep u v d) (hfirst c u hc hu) h
      · obtain rfl := Option.some.inj ((hidle c hc).symm.trans hu)
        obtain ⟨d, hd, hcount⟩ := hcs
        refine ih ⟨d, (List.mem_cons.mp hd).resolve_left ?_, hcount⟩ h
        rintro rfl
        exact hc hcount

theorem run_total {step : S → C → Option S} {I : S → Prop} {cs : List C}
    (hstep : ∀ s c, c ∈ cs → I s → ∃ t, step s c = some t ∧ I t) {s : S} (hs : I s) :
    ∃ t, run step s cs = some t ∧ I t := by
  induction cs generalizing s with
  | nil => exact ⟨s, rfl, hs⟩
  | cons c cs ih =>
      obtain ⟨u, hu, hi⟩ := hstep s c List.mem_cons_self hs
      obtain ⟨t, ht, hit⟩ := ih (fun s d hd => hstep s d (List.mem_cons_of_mem c hd)) hi
      exact ⟨t, by rw [run_cons, hu]; exact ht, hit⟩

/-- `P` holds of every step of a run, of the state before it and of the run that led there. -/
def EveryStep (step : S → C → Option S) (s₀ : S) (P : List C → S → C → Prop) (cs : List C) : Prop :=
  ∀ pre c post s, cs = pre ++ c :: post → run step s₀ pre = some s → P pre s c

section EveryStep

variable {step : S → C → Option S} {s₀ : S} {P Q : List C → S → C → Prop} {cs : List C}

theorem EveryStep.imp (h : ∀ pre c post s, cs = pre ++ c :: post → run step s₀ pre = some s → P pre s c → Q pre s c)
    (hP : EveryStep step s₀ P cs) : EveryStep step s₀ Q cs :=
  fun pre c post s heq hs => h pre c post s heq hs (hP pre c post s heq hs)

theorem everyStep_congr
    (h : ∀ pre c post s, cs = pre ++ c :: post → run step s₀ pre = some s → (P pre s c ↔ Q pre s c)) :
    EveryStep step s₀ P cs ↔ EveryStep step s₀ Q cs :=
  ⟨.imp (fun pre c post s heq hs => (h pre c post s heq hs).mp),
    .imp (fun pre c post s heq hs => (h pre c post s heq hs).mpr)⟩

theorem EveryStep.of_append {ds : List C} (h : EveryStep step s₀ P (cs ++ ds)) : EveryStep step s₀ P cs := by
  intro pre c post s heq hs
  refine h pre c (post ++ ds) s ?_ hs
  rw [heq, List.append_assoc, List.cons_append]

theorem EveryStep.concat {c : C} (h : EveryStep step s₀ P cs) (hc : ∀ s, run step s₀ cs = some s → P cs s c) :
    EveryStep step s₀ P (cs ++ [c]) := by
  intro pre d post s heq hs
  rcases List.eq_nil_or_concat post with rfl | ⟨rest, e, rfl⟩
  · obtain ⟨rfl, hd⟩ := List.append_inj' heq rfl
    rw [List.cons.injEq] at hd
    exact hd.1 ▸ hc s hs
  · rw [List.concat_eq_append, ← List.cons_append, ← List.append_assoc] at heq
    exact h pre d rest s (List.append_inj' heq rfl).1 hs

theorem EveryStep.last {c : C} (h : EveryStep step s₀ P (cs ++ [c])) {s : S} (hs : run step s₀ cs = some s) : P cs s c :=
  h cs c [] s rfl hs

end EveryStep

theorem run_concat {step : S → C → Option S} {s₀ u : S} {cs : List C} {c : C}
    (h : run step s₀ (cs ++ [c]) = some u) : ∃ s, run step s₀ cs = some s ∧ step s c = some u := by
  rw [run_append, Option.bind_eq_some_iff] at h
  obtain ⟨s, hs, h⟩ := h
  rw [run_cons, Option.bind_eq_some_iff] at h
  obtain ⟨v, hv, h⟩ := h
  rw [run_nil, Option.some.injEq] at h
  exact ⟨s, hs, h ▸ hv⟩

theorem EveryStep.preserves {step : S → C → Option S} {I : S → Prop} {P : S → C → Prop} {s₀ t : S} {cs : List C}
    (hstep : ∀ s t c, I s → P s c → step s c = some t → I t) (hs₀ : I s₀)
    (h : EveryStep step s₀ (fun _ => P) cs) (hrun : run step s₀ cs = some t) : I t := by
  induction cs using List.reverseRecOn generalizing t with
  | nil =>
      rw [run_nil, Option.some.injEq] at hrun
      exact hrun ▸ hs₀
  | append_singleton cs c ih =>
      obtain ⟨s, hs, hc⟩ := run_concat hrun
      exact hstep s t c (ih h.of_append hs) (h.last hs) hc

theorem EveryStep.total {step : S → C → Option S} {I : S → Prop} {P : S → C → Prop} {s₀ : S} {cs : List C}
    (hstep : ∀ s c, I s → P s c → ∃ t, step s c = some t ∧ I t) (hs₀ : I s₀)
    (h : EveryStep step s₀ (fun _ => P) cs) : ∃ t, run step s₀ cs = some t ∧ I t := by
  induction cs using List.reverseRecOn with
  | nil => exact ⟨s₀, rfl, hs₀⟩
  | append_singleton cs c ih =>
      obtain ⟨s, hs, hi⟩ := ih h.of_append
      obtain ⟨t, ht, hit⟩ := hstep s c hi (h.last hs)
      refine ⟨t, ?_, hit⟩
      rw [run_append, hs, Option.bind_some, run_single]
      exact ht

def within (step : S → C → Option S) (P : S → Prop) [DecidablePred P] (s : S) (c : C) : Option S :=
  (step s c).filter (fun t => P t)

theorem within_eq_some {step : S → C → Option S} {P : S → Prop} [DecidablePred P] {s t : S} {c : C} :
    within step P s c = some t ↔ step s c = some t ∧ P t := by
  rw [within, Option.filter_eq_some_iff, decide_eq_true_iff]

section Within

variable {step : S → C → Option S} {I P F : S → Prop} [DecidablePred P] {bad : C → Prop} {cs : List C} {s t : S}

/-- A fact that no step within `P` can make true holds at the end of a run within
`P` only if it held at the start. -/
theorem run_within_back (hI : ∀ s c t, I s → step s c = some t → I t)
    (hkeep : ∀ s c t, I s → step s c = some t → P s → P t → F t → F s)
    (hs : I s) (hP : P s) (h : run (within step P) s cs = some t) (hF : F t) : F s := by
  induction cs generalizing s with
  | nil =>
      rw [run_nil, Option.some.injEq] at h
      exact h ▸ hF
  | cons c cs ih =>
      rw [run_cons, Option.bind_eq_some_iff] at h
      obtain ⟨u, hu, h⟩ := h
      obtain ⟨hu, hPu⟩ := within_eq_some.mp hu
      exact hkeep s c u hs hu hP hPu (ih (hI s c u hs hu) hPu h)

theorem run_within_none (hI : ∀ s c t, I s → step s c = some t → I t)
    (hbad : ∀ s c t, I s → step s c = some t → bad c → P t → ¬F t)
    (hkeep : ∀ s c t, I s → step s c = some t → P s → P t → F t → F s)
    (hs : I s) (h : run (within step P) s cs = some t) (hF : F t) : ∀ c ∈ cs, ¬bad c := by
  induction cs generalizing s with
  | nil =>
      intro c hc
      cases hc
  | cons c cs ih =>
      rw [run_cons, Option.bind_eq_some_iff] at h
      obtain ⟨u, hu, h⟩ := h
      obtain ⟨hu, hPu⟩ := within_eq_some.mp hu
      have hIu := hI s c u hs hu
      have hFu := run_within_back hI hkeep hIu hPu h hF
      intro d hd
      rcases List.mem_cons.mp hd with rfl | hd
      · intro hb
        exact hbad s d u hs hu hb hPu hFu
      · exact ih hIu h d hd

end Within

section Emits

variable {O : Type} {step : S → C → Option S} {out : S → C → Option O}

/-- What the steps of a run put out, in order. -/
def emits (step : S → C → Option S) (out : S → C → Option O) : S → List C → List O
  | _, [] => []
  | s, c :: cs => (out s c).toList ++ ((step s c).map (fun t => emits step out t cs)).getD []

theorem emits_cons {s t : S} {c : C} (h : step s c = some t) (cs : List C) :
    emits step out s (c :: cs) = (out s c).toList ++ emits step out t cs := by
  rw [emits, h, Option.map_some, Option.getD_some]

theorem emits_append {s t : S} {cs : List C} (h : run step s cs = some t) (ds : List C) :
    emits step out s (cs ++ ds) = emits step out s cs ++ emits step out t ds := by
  induction cs generalizing s with
  | nil =>
      rw [run_nil, Option.some.injEq] at h
      rw [h, List.nil_append, emits, List.nil_append]
  | cons c cs ih =>
      rw [run_cons, Option.bind_eq_some_iff] at h
      obtain ⟨u, hu, h⟩ := h
      rw [List.cons_append, emits_cons hu, emits_cons hu, ih h, List.append_assoc]

theorem emits_preserves {I : S → List O → Prop} (hstep : ∀ s t c l, I s l → step s c = some t → I t (l ++ (out s c).toList))
    {s t : S} {cs : List C} (hs : I s []) (h : run step s cs = some t) : I t (emits step out s cs) := by
  induction cs using List.reverseRecOn generalizing t with
  | nil =>
      rw [run_nil, Option.some.injEq] at h
      exact h ▸ hs
  | append_singleton cs c ih =>
      obtain ⟨u, hu, hc⟩ := run_concat h
      rw [emits_append hu, emits_cons hc, emits, List.append_nil]
      exact hstep u t c _ (ih hu) hc

theorem exists_of_emits {s t : S} {cs : List C} (h : run step s cs = some t) {l r : List O} {a : O}
    (he : emits step out s cs = l ++ a :: r) :
    ∃ pre c post u v, cs = pre ++ c :: post ∧ run step s pre = some u ∧ step u c = some v ∧ run step v post = some t ∧
      emits step out s pre = l ∧ out u c = some a ∧ emits step out v post = r := by
  induction cs generalizing s l with
  | nil =>
      rw [emits] at he
      exact absurd he.symm (List.append_ne_nil_of_right_ne_nil l (List.cons_ne_nil a r))
  | cons c cs ih =>
      rw [run_cons, Option.bind_eq_some_iff] at h
      obtain ⟨u, hu, h⟩ := h
      rw [emits_cons hu] at he
      have hlater : ∀ l', emits step out u cs = l' ++ a :: r → l = (out s c).toList ++ l' →
          ∃ pre d post w v, c :: cs = pre ++ d :: post ∧ run step s pre = some w ∧ step w d = some v ∧
            run step v post = some t ∧ emits step out s pre = l ∧ out w d = some a ∧ emits step out v post = r := by
        rintro l' hl' rfl
        obtain ⟨pre, d, post, w, v, rfl, hw, hv, ht, hpre, hd, hpost⟩ := ih h hl'
        refine ⟨c :: pre, d, post, w, v, rfl, ?_, hv, ht, ?_, hd, hpost⟩
        · rw [run_cons, hu]
          exact hw
        · rw [emits_cons hu, hpre]
      cases ho : out s c with
      | none =>
          rw [ho] at he hlater
          exact hlater l he rfl
      | some b =>
          rw [ho] at he hlater
          rcases List.cons_eq_append_iff.mp he with ⟨rfl, hb⟩ | ⟨l', rfl, hl'⟩
          · rw [List.cons.injEq] at hb
            obtain ⟨rfl, hr⟩ := hb
            exact ⟨[], c, cs, s, u, rfl, rfl, hu, h, rfl, ho, hr.symm⟩
          · exact hlater l' hl' rfl

end Emits

end Thermometer.Lib.Runs
