import Thermometer.BasicBtb
import Thermometer.Lib.Stacks

namespace Thermometer.RasStack

open Trace Lib.Stacks SideTables

def step (size : Nat) (t : Tables) : Call → Tables
  | .predict ip ty => (predictWith size t ip ty).1
  | .update ip branchTarget taken ty => updateWith size t ip branchTarget taken ty
  | .prefetch _ _ _ _ _ => t

def run (size : Nat) (cs : List Call) : Tables := cs.foldl (step size) .initial

def stackStep (size : Nat) (l : List Nat) : Call → List Nat
  | .predict ip ty => if ty.isCall then push size l ip else l
  | .update _ _ _ ty => if ty = .ret then l.tail else l
  | .prefetch _ _ _ _ _ => l

/-- The stack as a list, newest call first. -/
def stack (size : Nat) (cs : List Call) : List Nat := cs.foldl (stackStep size) []

/-- The value that a return peeks at when it is predicted, and pops when it is updated. -/
def reads (size : Nat) (t : Tables) : Call → Option Nat
  | .predict _ ty => if ty = .ret then some (peekRas t) else none
  | .update _ _ _ ty => if ty = .ret then some (popRas size t).2 else none
  | .prefetch _ _ _ _ _ => none

def stackReads (l : List Nat) : Call → Option Nat
  | .predict _ ty => if ty = .ret then some (l.headD 0) else none
  | .update _ _ _ ty => if ty = .ret then some (l.headD 0) else none
  | .prefetch _ _ _ _ _ => none

def isPush : Call → Bool
  | .predict _ ty => ty.isCall
  | _ => false

def isPop : Call → Bool
  | .update _ _ _ ty => ty = .ret
  | _ => false

/-- None of these returns goes past the first of these calls, there are never `size` of them
unreturned at a time, and in the end all have returned. -/
structure Nested (size : Nat) (cs : List Call) : Prop where
  within : ∀ pre post, cs = pre ++ post →
    pre.countP isPop ≤ pre.countP isPush ∧ pre.countP isPush < pre.countP isPop + size
  closed : cs.countP isPop = cs.countP isPush

/-- A return whose call has always been among the newest `size` unreturned ones is
predicted to come back right after that call. -/
def PredictsCalls (size : Nat) (cs : List Call) : Prop :=
  ∀ pre ip ty mid ret post, cs = pre ++ .predict ip ty :: mid ++ .predict ret .ret :: post → ty.isCall = true → Nested size mid →
    (predictWith size (run size (pre ++ .predict ip ty :: mid)) ret .ret).2 =
      some ((ip + getCallSize (run size (pre ++ .predict ip ty :: mid)) ip) % 2 ^ 64, true)

def Stack (size : Nat) (t : Tables) (l : List Nat) : Prop := Stands size 0 t.ras t.rasIndex l

variable {size : Nat} {t : Tables} {l : List Nat}

theorem Stack.peek (h : Stack size t l) : peekRas t = l.headD 0 := by
  rw [List.headD_eq_head?_getD, List.head?_eq_getElem?, ← List.getD_eq_getElem?_getD]
  exact Stands.peek h

theorem Stack.push (h : Stack size t l) (ip : Nat) : Stack size (pushRas size t ip) (Lib.Stacks.push size l ip) :=
  Stands.push h ip

theorem Stack.pop (h : Stack size t l) : Stack size (popRas size t).1 l.tail := Stands.pop h

theorem predictWith_stack (h : Stack size t l) (ip : Nat) (ty : BranchType) :
    Stack size (predictWith size t ip ty).1 (if ty.isCall then Lib.Stacks.push size l ip else l) := by
  have hfirst : (predictWith size t ip ty).1 = if ty.isCall then pushRas size t ip else t := by
    cases ty <;> rfl
  rw [hfirst]
  split_ifs
  · exact h.push ip
  · exact h

theorem recalibrate_stack (h : Stack size t l) (branchTarget : Nat) :
    Stack size (recalibrate size t branchTarget).1 l.tail := by
  simp only [recalibrate]
  split_ifs
  · exact h.pop
  · exact h.pop

theorem updateWith_stack (h : Stack size t l) (ip branchTarget : Nat) (taken : Bool) (ty : BranchType) :
    Stack size (updateWith size t ip branchTarget taken ty) (if ty = .ret then l.tail else l) := by
  cases ty with
  | ret => exact recalibrate_stack h branchTarget
  | notBranch | directJump | indirect | conditional | directCall | indirectCall | other => exact h

theorem step_stack (h : Stack size t l) (c : Call) : Stack size (step size t c) (stackStep size l c) := by
  cases c with
  | predict ip ty => exact predictWith_stack h ip ty
  | update ip branchTarget taken ty => exact updateWith_stack h ip branchTarget taken ty
  | prefetch ip branchTarget ty taken toStreamBuffer => exact h

theorem run_stack (h : 0 < size) (cs : List Call) : Stack size (run size cs) (stack size cs) := by
  induction cs using List.reverseRecOn with
  | nil => exact stands_nil h 0
  | append_singleton cs c ih =>
      rw [run, stack, List.foldl_append, List.foldl_append]
      exact step_stack ih c

theorem reads_eq (h : Stack size t l) (c : Call) : reads size t c = stackReads l c := by
  have hpop : (popRas size t).2 = l.headD 0 := h.peek
  cases c with
  | predict ip ty => rw [reads, stackReads, h.peek]
  | update ip branchTarget taken ty => rw [reads, stackReads, hpop]
  | prefetch ip branchTarget ty taken toStreamBuffer => rfl

theorem stack_concat (size : Nat) (cs : List Call) (c : Call) :
    stack size (cs ++ [c]) = stackStep size (stack size cs) c := by
  rw [stack, List.foldl_append]
  rfl

/-- While the calls above it are fewer than `size`, a call stays where it is. -/
theorem stack_nested (h : 0 < size) (pre : List Call) (ip : Nat) {ty : BranchType} (hty : ty.isCall = true) {mid : List Call}
    (hmid : ∀ p q, mid = p ++ q → p.countP isPop ≤ p.countP isPush ∧ p.countP isPush < p.countP isPop + size) :
    ∃ l₁ l₂, stack size (pre ++ .predict ip ty :: mid) = l₁ ++ ip :: l₂ ∧ l₁.length + mid.countP isPop = mid.countP isPush := by
  induction mid using List.reverseRecOn with
  | nil =>
      refine ⟨[], (stack size pre).take (size - 1), ?_, rfl⟩
      rw [stack_concat, stackStep, if_pos hty, push]
      obtain ⟨n, rfl⟩ := Nat.exists_eq_succ_of_ne_zero h.ne'
      rfl
  | append_singleton mid c ih =>
      obtain ⟨l₁, l₂, hstack, hlength⟩ := ih (fun p q hpq => hmid p (q ++ [c]) (by rw [hpq, List.append_assoc]))
      obtain ⟨hle, hlt⟩ := hmid (mid ++ [c]) [] (List.append_nil _).symm
      rw [List.countP_append, List.countP_append, List.countP_singleton, List.countP_singleton] at hle hlt
      rw [List.countP_append, List.countP_append, List.countP_singleton, List.countP_singleton]
      have hnext : stack size (pre ++ .predict ip ty :: (mid ++ [c])) = stackStep size (l₁ ++ ip :: l₂) c := by
        rw [← hstack, ← stack_concat, List.append_assoc]
        rfl
      rw [hnext]
      cases c with
      | predict ip' ty' =>
          cases hcall : ty'.isCall with
          | false => exact ⟨l₁, l₂, by simp [stackStep, hcall], by simpa [isPush, isPop, hcall] using hlength⟩
          | true =>
              simp only [isPush, isPop, hcall] at hlt ⊢
              obtain ⟨l₃, hpush⟩ := push_append ip' ip l₂ (show l₁.length + 1 < size by simp at hlt; omega)
              refine ⟨ip' :: l₁, l₃, ?_, ?_⟩
              · rw [stackStep, if_pos hcall, hpush]
              · rw [List.length_cons]
                simp
                omega
      | update ip' branchTarget taken ty' =>
          by_cases hret : ty' = .ret
          · subst hret
            cases l₁ with
            | nil =>
                simp [isPush, isPop] at hle hlength
                omega
            | cons x l₁ =>
                refine ⟨l₁, l₂, rfl, ?_⟩
                simp [isPush, isPop] at hlength ⊢
                omega
          · exact ⟨l₁, l₂, by simp [stackStep, hret], by simpa [isPush, isPop, hret] using hlength⟩
      | prefetch ip' branchTarget ty' taken toStreamBuffer => exact ⟨l₁, l₂, rfl, hlength⟩

theorem ras_bounded_stack (h : 0 < size) (cs : List Call) :
    (∀ pre c post, cs = pre ++ c :: post → reads size (run size pre) c = stackReads (stack size pre) c) ∧
      PredictsCalls size cs := by
  refine ⟨fun pre c _ _ => reads_eq (run_stack h pre) c, ?_⟩
  intro pre ip ty mid ret post _ hty hnested
  obtain ⟨l₁, l₂, hstack, hlength⟩ := stack_nested h pre ip hty hnested.within
  have hnil : l₁ = [] := by
    apply List.eq_nil_of_length_eq_zero
    have hclosed := hnested.closed
    omega
  have hpeek : peekRas (run size (pre ++ .predict ip ty :: mid)) = ip := by
    rw [(run_stack h _).peek, hstack, hnil]
    rfl
  generalize run size (pre ++ .predict ip ty :: mid) = t at hpeek ⊢
  rw [← hpeek]
  rfl

/-- A call and its return, with a call and its return between them. -/
theorem ras_bounded_stack_two :
    (∀ pre c post, [Call.predict 100 .directCall, .predict 200 .indirectCall, .update 204 205 true .ret, .predict 108 .ret] =
        pre ++ c :: post → reads 2 (run 2 pre) c = stackReads (stack 2 pre) c) ∧
      PredictsCalls 2 [.predict 100 .directCall, .predict 200 .indirectCall, .update 204 205 true .ret, .predict 108 .ret] :=
  ras_bounded_stack (by decide) _

theorem basicBtb_side {s u : BasicBtb.State} {c : Call} (h : BasicBtb.step s c = some u) :
    u.side = step rasSize s.side c := by
  cases c with
  | predict ip ty =>
      rw [← Option.some.inj h, BasicBtb.btbPrediction]
      split
      · rename_i hside
        exact (congrArg Prod.fst hside).symm
      · rename_i hside
        simp only
        split
        · exact (congrArg Prod.fst hside).symm
        · exact (congrArg Prod.fst hside).symm
  | update ip branchTarget taken ty =>
      rw [← Option.some.inj h, step, ← update_eq, BasicBtb.updateBtb]
      simp only
      split
      · split
        · split_ifs <;> rfl
        · rfl
      · rfl
  | prefetch ip branchTarget ty taken toStreamBuffer =>
      have h : BasicBtb.prefetchBtb s ip branchTarget ty taken toStreamBuffer = some u := h
      rw [BasicBtb.prefetchBtb] at h
      split at h
      · split at h
        · split_ifs at h
          · obtain ⟨b, -, rfl⟩ := Option.map_eq_some_iff.mp h
            rfl
          · exact (Option.some.inj h) ▸ rfl
          · exact (Option.some.inj h) ▸ rfl
        · exact (Option.some.inj h) ▸ rfl
      · exact (Option.some.inj h) ▸ rfl

theorem basicBtb_run_side {index : Nat → Nat} {ways : Nat} {cs : List Call} {u : BasicBtb.State}
    (h : Lib.Runs.run BasicBtb.step (.initial index ways) cs = some u) : u.side = run rasSize cs := by
  induction cs using List.reverseRecOn generalizing u with
  | nil =>
      rw [Lib.Runs.run_nil, Option.some.injEq] at h
      exact h ▸ rfl
  | append_singleton cs c ih =>
      obtain ⟨s, hs, hc⟩ := Lib.Runs.run_concat h
      rw [basicBtb_side hc, ih hs, run, run, List.foldl_append]
      rfl

end Thermometer.RasStack
