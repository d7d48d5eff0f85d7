import Pixel845.Lib.Prog

/-!
# Programs on a state

A handler that has a state: what an operation answers may depend on the operations before it. The run of a program is taken apart
into its value, the state that it leaves and the operations that it performs, each with a rule for one program behind another.
`Performs` is what a bound on the operations is proved with: every operation of the run passes a test.
-/

namespace Pixel845

/-- What an operation answers in a state, and the state after it. -/
abbrev Handler (Op : Type) (Res : Op → Type) (S : Type) : Type := (o : Op) → S → Res o × S

namespace Prog

variable {Op : Type} {Res : Op → Type} {S α β : Type} (h : Handler Op Res S)

/-- The value that a program ends with. -/
def value : Prog Op Res α → S → α
  | .ret a, _ => a
  | .op o k, s => (k (h o s).1).value (h o s).2

/-- The state that a program leaves. -/
def final : Prog Op Res α → S → S
  | .ret _, s => s
  | .op o k, s => (k (h o s).1).final (h o s).2

/-- The operations that a program performs, in order. -/
def ops : Prog Op Res α → S → List Op
  | .ret _, _ => []
  | .op o k, s => o :: (k (h o s).1).ops (h o s).2

/-- Every operation that a program performs passes a test. -/
def Performs (P : Op → Prop) (p : Prog Op Res α) (s : S) : Prop := ∀ o ∈ p.ops h s, P o

variable (s : S) (a : α) (o : Op) (k : Res o → Prog Op Res α) (p : Prog Op Res α) (f : α → Prog Op Res β) (P : Op → Prop)

@[simp] theorem value_ret : (Prog.ret a : Prog Op Res α).value h s = a := rfl
@[simp] theorem final_ret : (Prog.ret a : Prog Op Res α).final h s = s := rfl
@[simp] theorem ops_ret : (Prog.ret a : Prog Op Res α).ops h s = [] := rfl

@[simp] theorem value_op : (Prog.op o k).value h s = (k (h o s).1).value h (h o s).2 := rfl
@[simp] theorem final_op : (Prog.op o k).final h s = (k (h o s).1).final h (h o s).2 := rfl
@[simp] theorem ops_op : (Prog.op o k).ops h s = o :: (k (h o s).1).ops h (h o s).2 := rfl

@[simp] theorem value_call : (Prog.call o : Prog Op Res (Res o)).value h s = (h o s).1 := rfl
@[simp] theorem final_call : (Prog.call o : Prog Op Res (Res o)).final h s = (h o s).2 := rfl

/-- The second program has its value from the state that the first one leaves. -/
@[simp] theorem value_bind : (p >>= f).value h s = (f (p.value h s)).value h (p.final h s) := by
  induction p generalizing s with
  | ret a => rfl
  | op o k ih => exact ih (h o s).1 (h o s).2

/-- The state that two programs in sequence leave. -/
@[simp] theorem final_bind : (p >>= f).final h s = (f (p.value h s)).final h (p.final h s) := by
  induction p generalizing s with
  | ret a => rfl
  | op o k ih => exact ih (h o s).1 (h o s).2

/-- The operations of two programs in sequence. -/
@[simp] theorem ops_bind : (p >>= f).ops h s = p.ops h s ++ (f (p.value h s)).ops h (p.final h s) := by
  induction p generalizing s with
  | ret a => rfl
  | op o k ih =>
    rw [op_bind, ops_op, ops_op, value_op, final_op, List.cons_append]
    exact congrArg _ (ih (h o s).1 (h o s).2)

@[simp] theorem performs_ret : Performs h P (Prog.ret a : Prog Op Res α) s := fun _ hmem => absurd hmem List.not_mem_nil

/-- An operation must be permitted, and what comes after it. -/
@[simp] theorem performs_op : Performs h P (Prog.op o k) s ↔ P o ∧ Performs h P (k (h o s).1) (h o s).2 := List.forall_mem_cons

@[simp] theorem performs_call : Performs h P (Prog.call o : Prog Op Res (Res o)) s ↔ P o := by
  simp [Performs, Prog.call]

/-- Two programs in sequence perform permitted operations exactly if each does. -/
@[simp] theorem performs_bind :
    Performs h P (p >>= f) s ↔ Performs h P p s ∧ Performs h P (f (p.value h s)) (p.final h s) := by
  rw [Performs, ops_bind]
  exact List.forall_mem_append

end Prog

end Pixel845
