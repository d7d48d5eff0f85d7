import Mathlib.Logic.Relation

/-!
# Programs over operations

A program asks its surroundings for one operation at a time and goes on with the answer. The operations are a parameter: a
device write, a receive, a read of memory. Nothing here says what an operation does; a handler (`Prog.run`, `Prog.trace`) or a
machine (`Machine`, the next module) does.
-/

namespace Pixel845

/-- A program over the operations `Op`, each answered in its own type, that ends with a value of type `α`. -/
inductive Prog (Op : Type) (Res : Op → Type) (α : Type) where
  | ret (a : α)
  | op (o : Op) (k : Res o → Prog Op Res α)

namespace Prog

variable {Op : Type} {Res : Op → Type} {α β γ : Type}

/-- The program that performs one operation and ends with its answer. -/
def call (o : Op) : Prog Op Res (Res o) := .op o .ret

/-- Run a program and go on with its value. -/
def bind : Prog Op Res α → (α → Prog Op Res β) → Prog Op Res β
  | .ret a, f => f a
  | .op o k, f => .op o (fun r => (k r).bind f)

instance : Monad (Prog Op Res) where
  pure := .ret
  bind := bind

@[simp] theorem pure_eq (a : α) : (pure a : Prog Op Res α) = .ret a := rfl

@[simp] theorem ret_bind (a : α) (f : α → Prog Op Res β) : (Prog.ret a >>= f) = f a := rfl

/-- A program behind an operation is run with what comes after it. -/
@[simp] theorem op_bind (o : Op) (k : Res o → Prog Op Res α) (f : α → Prog Op Res β) :
    (Prog.op o k >>= f) = .op o (fun r => k r >>= f) := rfl

/-- What comes behind a single operation is run with its result. -/
@[simp] theorem call_bind (o : Op) (f : Res o → Prog Op Res β) : (Prog.call o >>= f) = .op o f := rfl

theorem bind_ret (p : Prog Op Res α) : (p >>= Prog.ret) = p := by
  induction p with
  | ret a => rfl
  | op o k ih =>
    rw [op_bind]
    congr 1
    funext r
    exact ih r

/-- Programs in sequence can be grouped in any way. -/
theorem bind_assoc (p : Prog Op Res α) (f : α → Prog Op Res β) (g : β → Prog Op Res γ) :
    (p >>= f) >>= g = p >>= fun a => f a >>= g := by
  induction p with
  | ret a => rfl
  | op o k ih =>
    simp only [op_bind]
    congr 1
    funext r
    exact ih r

instance : LawfulMonad (Prog Op Res) :=
  LawfulMonad.mk' _ (fun p => bind_ret p) (fun _ _ => rfl) bind_assoc

/-! ## Handlers -/

/-- The value a program ends with when a handler answers every operation. -/
def run (h : (o : Op) → Res o) : Prog Op Res α → α
  | .ret a => a
  | .op o k => (k (h o)).run h

/-- The operations a program performs, in order, when a handler answers every operation. -/
def trace (h : (o : Op) → Res o) : Prog Op Res α → List Op
  | .ret _ => []
  | .op o k => o :: (k (h o)).trace h

variable (h : (o : Op) → Res o)

@[simp] theorem run_ret (a : α) : (Prog.ret a : Prog Op Res α).run h = a := rfl

@[simp] theorem run_op (o : Op) (k : Res o → Prog Op Res α) : (Prog.op o k).run h = (k (h o)).run h := rfl

@[simp] theorem run_call (o : Op) : (Prog.call o : Prog Op Res (Res o)).run h = h o := rfl

/-- The second program is run with the value of the first. -/
@[simp] theorem run_bind (p : Prog Op Res α) (f : α → Prog Op Res β) : (p >>= f).run h = (f (p.run h)).run h := by
  induction p with
  | ret a => rfl
  | op o k ih => exact ih (h o)

@[simp] theorem trace_ret (a : α) : (Prog.ret a : Prog Op Res α).trace h = [] := rfl

@[simp] theorem trace_op (o : Op) (k : Res o → Prog Op Res α) :
    (Prog.op o k).trace h = o :: (k (h o)).trace h := rfl

@[simp] theorem trace_call (o : Op) : (Prog.call o : Prog Op Res (Res o)).trace h = [o] := rfl

/-- The operations of two programs in sequence are those of each. -/
@[simp] theorem trace_bind (p : Prog Op Res α) (f : α → Prog Op Res β) :
    (p >>= f).trace h = p.trace h ++ (f (p.run h)).trace h := by
  induction p with
  | ret a => rfl
  | op o k ih =>
    rw [op_bind, trace_op, trace_op, run_op, ih (h o)]
    rfl

/-- A program sees a handler only through the answers to the operations it performs: two handlers that agree on those give
the same value. -/
theorem run_congr {h h' : (o : Op) → Res o} (p : Prog Op Res α) (hh : ∀ o ∈ p.trace h, h' o = h o) :
    p.run h' = p.run h := by
  induction p with
  | ret a => rfl
  | op o k ih =>
    have ho : h' o = h o := hh o (by simp)
    rw [run_op, run_op, ho]
    exact ih (h o) (fun x hx => hh x (by simp [hx]))

/-- Two handlers that agree on the operations performed make a program perform the same ones. -/
theorem trace_congr {h h' : (o : Op) → Res o} (p : Prog Op Res α) (hh : ∀ o ∈ p.trace h, h' o = h o) :
    p.trace h' = p.trace h := by
  induction p with
  | ret a => rfl
  | op o k ih =>
    have ho : h' o = h o := hh o (by simp)
    rw [trace_op, trace_op, ho, ih (h o) (fun x hx => hh x (by simp [hx]))]

/-! ## Executions -/

/-- An operation with its answer. -/
abbrev Event (Res : Op → Type) : Type := (o : Op) × Res o

/-- The program performs these operations, with these answers, and ends with the value. Nothing says that an operation is answered
alike each time. -/
inductive Exec : Prog Op Res α → List (Event Res) → α → Prop
  | ret (a : α) : Exec (.ret a) [] a
  | op (o : Op) (r : Res o) {k : Res o → Prog Op Res α} {t : List (Event Res)} {a : α} (hk : Exec (k r) t a) :
      Exec (.op o k) (⟨o, r⟩ :: t) a

/-- An execution of two programs in sequence is one of each. -/
theorem exec_bind {p : Prog Op Res α} {f : α → Prog Op Res β} {t : List (Event Res)} {b : β} (hx : Exec (p >>= f) t b) :
    ∃ t₁ t₂ a, t = t₁ ++ t₂ ∧ Exec p t₁ a ∧ Exec (f a) t₂ b := by
  induction p generalizing t with
  | ret a => exact ⟨[], t, a, rfl, .ret a, hx⟩
  | op o k ih =>
    cases hx with
    | op _ r hk =>
      obtain ⟨t₁, t₂, a, rfl, h1, h2⟩ := ih r hk
      exact ⟨_, t₂, a, rfl, .op o r h1, h2⟩

/-- Executions of two programs are one of their sequence. -/
theorem Exec.bind {p : Prog Op Res α} {f : α → Prog Op Res β} {t₁ t₂ : List (Event Res)} {a : α} {b : β} (h1 : Exec p t₁ a)
    (h2 : Exec (f a) t₂ b) : Exec (p >>= f) (t₁ ++ t₂) b := by
  induction h1 with
  | ret a => exact h2
  | op o r hk ih => exact .op o r (ih h2)

/-- The run with a handler is an execution. -/
theorem exec_run (p : Prog Op Res α) : Exec p ((p.trace h).map fun o => ⟨o, h o⟩) (p.run h) := by
  induction p with
  | ret a => exact .ret a
  | op o k ih => exact .op o (h o) (ih (h o))

/-- Every operation that a program may perform passes a test. -/
def Within (P : Op → Prop) : Prog Op Res α → Prop
  | .ret _ => True
  | .op o k => P o ∧ ∀ r, (k r).Within P

/-- The events of an execution are operations that the program may do. -/
theorem Exec.within {P : Op → Prop} {p : Prog Op Res α} {t : List (Event Res)} {a : α} (hx : Exec p t a) (h : p.Within P) :
    ∀ ev ∈ t, P ev.1 := by
  induction hx with
  | ret a => exact fun _ hmem => absurd hmem List.not_mem_nil
  | op o r _ ih =>
    intro ev hmem
    rcases List.mem_cons.mp hmem with rfl | hmem
    · exact h.1
    · exact ih (h.2 r) ev hmem

/-! ## Programs over more operations -/

section Lift

variable {Op' : Type} {Res' : Op' → Type} (f : Op → Op') (g : (o : Op) → Res' (f o) → Res o)

/-- A program over some operations as one over more of them. -/
def lift : Prog Op Res α → Prog Op' Res' α
  | .ret a => .ret a
  | .op o k => .op (f o) (fun r => (k (g o r)).lift)

/-- A program over other operations has the value that it has with them translated. -/
@[simp] theorem run_lift (h : (o : Op') → Res' o) (p : Prog Op Res α) :
    (p.lift f g).run h = p.run (fun o => g o (h (f o))) := by
  induction p with
  | ret a => rfl
  | op o k ih => exact ih (g o (h (f o)))

/-- The operations of a translated program are those of the program, translated. -/
@[simp] theorem trace_lift (h : (o : Op') → Res' o) (p : Prog Op Res α) :
    (p.lift f g).trace h = (p.trace (fun o => g o (h (f o)))).map f := by
  induction p with
  | ret a => rfl
  | op o k ih =>
    simp only [lift, trace_op, List.map_cons]
    rw [ih]

end Lift

end Prog

end Pixel845
