import Mathlib.Tactic

/-!
# Fallible programs

`Except ε` is the result of a function that either returns or stops with an error.  The lemmas
read a successful run of a `do` block backwards, one bind at a time.
-/

namespace Outcome

universe u v

variable {ε : Type u} {α β : Type v}

/-- `require!(c, e)`: stop with `e` unless `c` holds. -/
def require (c : Prop) [Decidable c] (e : ε) : Except ε Unit :=
  if c then .ok () else .error e

/-- `o.ok_or(e)?`: stop with `e` on `none`. -/
def orElse (o : Option α) (e : ε) : Except ε α :=
  match o with
  | some a => .ok a
  | none => .error e

@[simp] theorem bind_eq_ok {x : Except ε α} {f : α → Except ε β} {b : β} :
    (x >>= f) = .ok b ↔ ∃ a, x = .ok a ∧ f a = .ok b := by
  cases x with
  | error e => simp [bind, Except.bind]
  | ok a => simp [bind, Except.bind]

@[simp] theorem pure_eq_ok {a b : α} : (pure a : Except ε α) = .ok b ↔ a = b := by
  simp [pure, Except.pure]

@[simp] theorem require_eq_ok {c : Prop} [Decidable c] {e : ε} {u : Unit} :
    require c e = .ok u ↔ c := by
  unfold require
  split <;> simp_all

@[simp] theorem orElse_eq_ok {o : Option α} {e : ε} {a : α} :
    orElse o e = .ok a ↔ o = some a := by
  unfold orElse
  cases o <;> simp

@[simp] theorem mapError_eq_ok {δ : Type u} {g : ε → δ} {x : Except ε α} {a : α} :
    x.mapError g = .ok a ↔ x = .ok a := by
  cases x <;> simp [Except.mapError]

/-! The same, forwards. -/

theorem ok_bind (a : α) (f : α → Except ε β) : ((.ok a : Except ε α) >>= f) = f a := rfl

theorem error_bind (e : ε) (f : α → Except ε β) : ((.error e : Except ε α) >>= f) = .error e := rfl

theorem require_of {c : Prop} [Decidable c] {e : ε} (h : c) : require c e = .ok () := if_pos h

theorem require_of_not {c : Prop} [Decidable c] {e : ε} (h : ¬ c) : require c e = .error e :=
  if_neg h

theorem orElse_some {e : ε} {a : α} {o : Option α} (h : o = some a) : orElse o e = .ok a := by
  rw [h, orElse]

/-- What holds of everything `o` is, where it is something. -/
theorem forall_eq_some_iff {P : α → Prop} {a : α} {o : Option α} (h : o = some a) :
    (∀ b, o = some b → P b) ↔ P a := by
  simp only [h, Option.some.injEq, forall_eq']

theorem toOption_eq_some {x : Except ε α} {a : α} : x.toOption = some a ↔ x = .ok a := by
  cases x <;> simp [Except.toOption]

theorem isOk_iff {x : Except ε α} : x.isOk = true ↔ ∃ a, x = .ok a := by
  cases x <;> simp [Except.isOk, Except.toBool]

theorem isOk_unit_iff {x : Except ε Unit} : x.isOk = true ↔ x = .ok () :=
  isOk_iff.trans Unique.exists_iff

/-! ## The same program on other data -/

section Map

variable {γ : Type v}

theorem map_of_bind (x : Except ε α) (f : α → Except ε β) (g : β → γ) :
    (x >>= f).map g = x >>= fun a ↦ (f a).map g := by
  cases x <;> rfl

theorem map_of_pure (a : α) (g : α → β) : (pure a : Except ε α).map g = pure (g a) := rfl

theorem bind_of_map (x : Except ε α) (f : α → β) (g : β → Except ε γ) :
    (x.map f) >>= g = x >>= fun a ↦ g (f a) := by
  cases x <;> rfl

theorem mapError_of_map {δ : Type u} (x : Except ε α) (f : α → β) (g : ε → δ) :
    (x.map f).mapError g = (x.mapError g).map f := by
  cases x <;> rfl

theorem map_of_ite (c : Prop) [Decidable c] (x y : Except ε α) (f : α → β) :
    (if c then x else y).map f = if c then x.map f else y.map f := by
  split <;> rfl

theorem isOk_map (x : Except ε α) (f : α → β) : (x.map f).isOk = x.isOk := by
  cases x <;> rfl

end Map

end Outcome
