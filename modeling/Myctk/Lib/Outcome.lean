/-! Programs that fail in ways that a specification leaves open. -/

namespace Myctk.Lib

variable {ε α β : Type} {E : ε → Prop} {P Q : α → Prop}

def Gives (E : ε → Prop) (P : α → Prop) : Except ε α → Prop
  | .ok a => P a
  | .error e => E e

variable {x : Except ε α} {f : α → Except ε β}

theorem Gives.mono (gives : Gives E P x) (imp : ∀ a, P a → Q a) : Gives E Q x := by
  cases x with
  | ok a => exact imp a gives
  | error e => exact gives

theorem Gives.bind {R : β → Prop} (first : Gives E P x) (later : ∀ a, P a → Gives E R (f a)) : Gives E R (x.bind f) := by
  cases x with
  | ok a => exact later a first
  | error e => exact first

theorem Gives.weaken {E' : ε → Prop} (gives : Gives E P x) (imp : ∀ e, E e → E' e) : Gives E' P x := by
  cases x with
  | ok a => exact gives
  | error e => exact imp e gives

theorem ok_of_bind {b : β} (ok : x.bind f = .ok b) : ∃ a, x = .ok a ∧ f a = .ok b := by
  cases x with
  | ok a => exact ⟨a, rfl, ok⟩
  | error e => cases ok

theorem isOk_bind {p : Prop} (later : ∀ a, (f a).isOk ↔ p) : (x >>= f).isOk ↔ x.isOk ∧ p := by
  cases x with
  | error e => simp [Bind.bind, Except.bind, Except.isOk, Except.toBool]
  | ok a => simpa [Bind.bind, Except.bind, Except.isOk, Except.toBool] using later a

theorem isOk_bind_pure {g : α → β} : (x >>= fun a => (pure (g a) : Except ε β)).isOk ↔ x.isOk := by
  cases x with
  | error e => rfl
  | ok a => rfl

theorem Gives.ofOk (gives : Gives E P x) : Gives (fun _ => True) P x := by
  cases x with
  | ok a => exact gives
  | error e => trivial

end Myctk.Lib
