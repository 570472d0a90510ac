/-! # Lists in which entries that follow each other and are equal are kept once -/

namespace Js5

section
variable {α : Type}

theorem eraseRepsBy_loop (r : α → α → Bool) (l : List α) : ∀ (a : α) (done : List α),
    List.eraseRepsBy.loop r a l done = done.reverse ++ List.eraseRepsBy.loop r a l [] := by
  induction l with
  | nil => simp [List.eraseRepsBy.loop]
  | cons b l ih =>
    intro a done
    cases h : r a b with
    | true =>
      simp only [List.eraseRepsBy.loop, h]
      exact ih a done
    | false =>
      simp only [List.eraseRepsBy.loop, h]
      rw [ih b (a :: done), ih b [a]]
      simp

variable [BEq α] [LawfulBEq α]

theorem eraseReps_cons_self (a : α) (l : List α) : (a :: a :: l).eraseReps = (a :: l).eraseReps := by
  simp [List.eraseReps, List.eraseRepsBy, List.eraseRepsBy.loop]

theorem eraseReps_cons_of_ne {a b : α} (h : a ≠ b) (l : List α) :
    (a :: b :: l).eraseReps = a :: (b :: l).eraseReps := by
  simp only [List.eraseReps, List.eraseRepsBy, List.eraseRepsBy.loop, beq_false_of_ne h]
  rw [eraseRepsBy_loop]
  rfl

theorem mem_eraseReps {x : α} : ∀ {l : List α}, x ∈ l.eraseReps ↔ x ∈ l
  | [] => Iff.rfl
  | [a] => Iff.rfl
  | a :: b :: l => by
    by_cases h : a = b
    · subst h
      rw [eraseReps_cons_self, mem_eraseReps]
      simp
    · rw [eraseReps_cons_of_ne h, List.mem_cons, mem_eraseReps]
      simp

theorem eraseReps_of_nodup : ∀ {l : List α}, l.Nodup → l.eraseReps = l
  | [], _ => rfl
  | [_], _ => rfl
  | a :: b :: l, h => by
    rw [List.nodup_cons] at h
    have hne : a ≠ b := by
      intro he
      exact h.1 (he ▸ List.mem_cons_self ..)
    rw [eraseReps_cons_of_ne hne, eraseReps_of_nodup h.2]

theorem pairwise_eraseReps {r : α → α → Prop} (hr : ∀ a b, r a b → r b a → a = b) :
    ∀ {l : List α}, l.Pairwise r → l.eraseReps.Pairwise fun a b => r a b ∧ a ≠ b
  | [], _ => List.Pairwise.nil
  | [_], _ => List.pairwise_singleton ..
  | a :: b :: l, h => by
    rw [List.pairwise_cons] at h
    by_cases he : a = b
    · subst he
      rw [eraseReps_cons_self]
      exact pairwise_eraseReps hr h.2
    · rw [eraseReps_cons_of_ne he, List.pairwise_cons]
      refine ⟨fun x hx => ?_, pairwise_eraseReps hr h.2⟩
      rw [mem_eraseReps] at hx
      refine ⟨h.1 x hx, fun ha => ?_⟩
      subst ha
      cases hx with
      | head => exact he rfl
      | tail _ hx => exact he (hr a b (h.1 b (List.mem_cons_self ..)) ((List.pairwise_cons.mp h.2).1 a hx))

end

end Js5
