import Scriptlet.Session

/-!
# Rounds do not matter once a run ends

A run that ends within some number of rounds ends in the same way within every greater number,
so the result of a run that ends does not depend on the number of rounds.
-/

namespace Scriptlet

/-- A run that was not halted for want of rounds. -/
def Ended {α : Type} (r : EStateM.Result Halt Machine α) : Prop :=
  ∀ m, r ≠ .error .exhausted m

namespace Exec

theorem loop_of_le {condition : Expr} {act act' : Exec Unit}
    (hact : ∀ m, Ended (act m) → act' m = act m) {n n' : Nat} (hn : n ≤ n') (m : Machine)
    (h : Ended (loop condition act n m)) :
    loop condition act' n' m = loop condition act n m := by
  induction n generalizing n' m with
  | zero => exact absurd rfl (h m)
  | succ n ih =>
    obtain ⟨k, rfl⟩ : ∃ k, n' = k + 1 := ⟨n' - 1, by omega⟩
    rw [loop] at h ⊢
    rw [loop]
    cases hc : evaluate condition m with
    | error halt m' => rfl
    | ok value m' =>
      simp only [hc] at h
      dsimp only
      by_cases hv : value.isTruthy
      · simp only [hv, if_true] at h ⊢
        have ha : Ended (act m') := by
          intro m'' he
          rw [he] at h
          exact h m'' rfl
        rw [hact m' ha]
        cases hm : act m' with
        | error halt m'' => rfl
        | ok _ m'' =>
          rw [hm] at h
          exact ih (by omega) m'' h
      · rw [if_neg hv, if_neg hv]

theorem inScope_of_ended {act act' : Exec Unit} (hact : ∀ m, Ended (act m) → act' m = act m)
    (m : Machine) (h : Ended (inScope act m)) : inScope act' m = inScope act m := by
  have ha : Ended (act { m with env := m.env.nest }) := by
    intro m' he
    refine h { m' with env := m'.env.unnest } ?_
    simp only [inScope, he]
  simp only [inScope, hact _ ha]

end Exec

namespace Stmt

mutual

theorem exec_of_le {n n' : Nat} (hn : n ≤ n') (s : Stmt) (m : Machine)
    (h : Ended (s.exec n m)) : s.exec n' m = s.exec n m := by
  match s with
  | .expr e => rfl
  | .print keyword e => rfl
  | .declare name none => rfl
  | .declare name (some e) => rfl
  | .block body =>
    rw [exec] at h ⊢
    rw [exec]
    exact Exec.inScope_of_ended (fun m' h' => execAll_of_le hn body m' h') m h
  | .ifThen condition yes =>
    simp only [exec, bind, EStateM.bind] at h ⊢
    cases hc : Exec.evaluate condition m with
    | error halt m' => rfl
    | ok value m' =>
      simp only [hc] at h
      dsimp only
      by_cases hv : value.isTruthy
      · simp only [hv, if_true] at h ⊢
        exact exec_of_le hn yes m' h
      · simp only [hv]
        rfl
  | .ifElse condition yes no =>
    simp only [exec, bind, EStateM.bind] at h ⊢
    cases hc : Exec.evaluate condition m with
    | error halt m' => rfl
    | ok value m' =>
      simp only [hc] at h
      dsimp only
      by_cases hv : value.isTruthy
      · simp only [hv, if_true] at h ⊢
        exact exec_of_le hn yes m' h
      · simp only [hv] at h ⊢
        exact exec_of_le hn no m' h
  | .whileDo condition body =>
    rw [exec] at h ⊢
    rw [exec]
    exact Exec.loop_of_le (fun m' h' => exec_of_le hn body m' h') hn m h

theorem execAll_of_le {n n' : Nat} (hn : n ≤ n') (body : List Stmt) (m : Machine)
    (h : Ended (execAll n body m)) : execAll n' body m = execAll n body m := by
  match body with
  | [] => rfl
  | s :: rest =>
    simp only [execAll, bind, EStateM.bind] at h ⊢
    have hs : Ended (s.exec n m) := by
      intro m' he
      rw [he] at h
      exact h m' rfl
    rw [exec_of_le hn s m hs]
    cases hm : s.exec n m with
    | error halt m' => rfl
    | ok _ m' =>
      rw [hm] at h
      exact execAll_of_le hn rest m' h

end

end Stmt

namespace Machine

theorem interpret_of_le {n n' : Nat} (hn : n ≤ n') {m : Machine} {statements : List Stmt}
    {answer : Option RuntimeError × Machine} (h : m.interpret n statements = some answer) :
    m.interpret n' statements = some answer := by
  have he : Ended (Stmt.execAll n statements m) := by
    intro m' hm
    simp only [interpret, hm] at h
    cases h
  rw [← h]
  simp only [interpret, Stmt.execAll_of_le hn statements m he]

theorem run_of_le {n n' : Nat} (hn : n ≤ n') {m : Machine} {source : String}
    {answer : Diagnostics × Machine} (h : m.run n source = some answer) :
    m.run n' source = some answer := by
  unfold run at h ⊢
  dsimp only at h ⊢
  split
  · rename_i hf
    rw [if_pos hf, Option.map_eq_some_iff] at h
    obtain ⟨r, hr, rfl⟩ := h
    rw [interpret_of_le hn hr]
    rfl
  · rename_i hf
    rw [if_neg hf] at h
    exact h

end Machine
end Scriptlet
