import Mathlib.Data.List.Forall2

/-! When a chain of steps that may fail has a result, and what two results have in common. -/

namespace RecordSchema
variable {ε α β : Type}

@[simp] theorem ok_bind (a : α) (f : α → Except ε β) : (Except.ok a >>= f) = f a := rfl

@[simp] theorem error_bind (e : ε) (f : α → Except ε β) : (Except.error e >>= f) = .error e := rfl

theorem bind_eq_ok {x : Except ε α} {f : α → Except ε β} {b : β} :
    (x >>= f) = .ok b ↔ ∃ a, x = .ok a ∧ f a = .ok b := by
  cases x with
  | error e => simp
  | ok a => simp

theorem bind_eq_error {x : Except ε α} {f : α → Except ε β} {e : ε} :
    (x >>= f) = .error e ↔ x = .error e ∨ ∃ a, x = .ok a ∧ f a = .error e := by
  cases x with
  | error e => simp
  | ok a => simp

theorem map_eq_ok {x : Except ε α} {f : α → β} {b : β} :
    f <$> x = .ok b ↔ ∃ a, x = .ok a ∧ f a = b := by
  cases x with
  | error e => simp [Functor.map, Except.map]
  | ok a => simp [Functor.map, Except.map]

theorem map_eq_error {x : Except ε α} {f : α → β} {e : ε} :
    f <$> x = .error e ↔ x = .error e := by
  cases x with
  | error e => simp [Functor.map, Except.map]
  | ok a => simp [Functor.map, Except.map]

theorem rel_self {R : α → α → Prop} (h : ∀ a, R a a) (x : Option α) : Option.Rel R x x := by
  cases x with
  | none => exact .none
  | some a => exact .some (h a)

theorem congr_of_rel {R : α → α → Prop} {x y : Option α} (h : Option.Rel R x y)
    (f : Option α → β) (hf : ∀ {a b}, R a b → f (some a) = f (some b)) : f x = f y := by
  cases h with
  | none => rfl
  | some h => exact hf h

theorem mapM_eq_ok {f : α → Except ε β} {xs : List α} {ys : List β} :
    xs.mapM f = .ok ys ↔ List.Forall₂ (fun x y => f x = .ok y) xs ys := by
  induction xs generalizing ys with
  | nil =>
      rw [List.mapM_nil, List.forall₂_nil_left_iff]
      exact ⟨fun h => (Except.ok.inj h).symm, fun h => by rw [h]; rfl⟩
  | cons x xs ih =>
      simp only [List.mapM_cons, bind_eq_ok, List.forall₂_cons_left_iff, ih]
      constructor
      · rintro ⟨y, hy, rest, hr, h⟩
        exact ⟨y, rest, hy, hr, (Except.ok.inj h).symm⟩
      · rintro ⟨y, rest, hy, hr, rfl⟩
        exact ⟨y, hy, rest, hr, rfl⟩

/-- A run over a list fails with the first step that does. -/
theorem mapM_eq_error {f : α → Except ε β} {xs : List α} {e : ε} :
    xs.mapM f = .error e ↔ ∃ front x back ys, xs = front ++ x :: back ∧
      List.Forall₂ (fun x y => f x = .ok y) front ys ∧ f x = .error e := by
  induction xs with
  | nil =>
      rw [List.mapM_nil]
      constructor
      · intro h
        cases h
      · rintro ⟨front, x, back, ys, h, -⟩
        simp at h
  | cons x xs ih =>
      rw [List.mapM_cons, bind_eq_error]
      constructor
      · rintro (h | ⟨y, hy, h⟩)
        · exact ⟨[], x, xs, [], rfl, .nil, h⟩
        · rcases bind_eq_error.mp h with h | ⟨ys, -, h⟩
          · obtain ⟨front, z, back, ys, rfl, hfront, hz⟩ := ih.mp h
            exact ⟨x :: front, z, back, y :: ys, rfl, .cons hy hfront, hz⟩
          · cases h
      · rintro ⟨front, z, back, ys, h, hfront, hz⟩
        cases hfront with
        | nil =>
            obtain ⟨rfl, rfl⟩ := List.cons.inj h
            exact .inl hz
        | cons hy hfront =>
            obtain ⟨rfl, rfl⟩ := List.cons.inj h
            exact .inr ⟨_, hy, bind_eq_error.mpr (.inl (ih.mpr ⟨_, z, back, _, rfl, hfront, hz⟩))⟩

section
variable {f : α → Except ε β} {xs : List α} {ys : List β}

theorem length_of_mapM (h : xs.mapM f = .ok ys) : ys.length = xs.length :=
  (mapM_eq_ok.mp h).length_eq.symm

theorem filterMap_of_mapM {g : α → Option β} (agree : ∀ {x y}, f x = .ok y → g x = some y)
    (h : xs.mapM f = .ok ys) : xs.filterMap g = ys := by
  induction mapM_eq_ok.mp h with
  | nil => rfl
  | cons hf hrest ih => rw [List.filterMap_cons_some (agree hf), ih (mapM_eq_ok.mpr hrest)]

theorem exists_of_mem_mapM (h : xs.mapM f = .ok ys) {y : β} (hy : y ∈ ys) :
    ∃ x ∈ xs, f x = .ok y := by
  induction mapM_eq_ok.mp h with
  | nil => exact absurd hy List.not_mem_nil
  | cons hf hrest ih =>
      rcases List.mem_cons.mp hy with rfl | hy
      · exact ⟨_, List.mem_cons_self, hf⟩
      · obtain ⟨x, hx, hfx⟩ := ih (mapM_eq_ok.mpr hrest) hy
        exact ⟨x, List.mem_cons_of_mem _ hx, hfx⟩

theorem exists_of_mem_of_mapM (h : xs.mapM f = .ok ys) {x : α} (hx : x ∈ xs) :
    ∃ y ∈ ys, f x = .ok y := by
  induction mapM_eq_ok.mp h with
  | nil => exact absurd hx List.not_mem_nil
  | cons hf hrest ih =>
      rcases List.mem_cons.mp hx with rfl | hx
      · exact ⟨_, List.mem_cons_self, hf⟩
      · obtain ⟨y, hy, hfx⟩ := ih (mapM_eq_ok.mpr hrest) hx
        exact ⟨y, List.mem_cons_of_mem _ hy, hfx⟩

/-- A run whose steps all have counterparts has a counterpart. -/
theorem exists_mapM {γ δ : Type} {g : γ → Except ε δ} {R : β → δ → Prop} {zs : List γ}
    (h : xs.mapM f = .ok ys)
    (step : List.Forall₂ (fun x z => ∀ y, f x = .ok y → ∃ w, g z = .ok w ∧ R y w) xs zs) :
    ∃ ws, zs.mapM g = .ok ws ∧ List.Forall₂ R ys ws := by
  induction mapM_eq_ok.mp h generalizing zs with
  | nil =>
      obtain rfl := List.forall₂_nil_left_iff.mp step
      exact ⟨[], rfl, .nil⟩
  | cons hf hrest ih =>
      obtain ⟨z, zs, hz, hzs, rfl⟩ := List.forall₂_cons_left_iff.mp step
      obtain ⟨w, hw, hyw⟩ := hz _ hf
      obtain ⟨ws, hws, hrel⟩ := ih (mapM_eq_ok.mpr hrest) hzs
      exact ⟨w :: ws, mapM_eq_ok.mpr (.cons hw (mapM_eq_ok.mp hws)), .cons hyw hrel⟩

theorem getElem?_of_mapM (h : xs.mapM f = .ok ys) {i : Nat} {y : β} (hy : ys[i]? = some y) :
    ∃ x, xs[i]? = some x ∧ f x = .ok y := by
  induction mapM_eq_ok.mp h generalizing i with
  | nil => cases hy
  | cons hf hrest ih =>
      cases i with
      | zero => exact ⟨_, rfl, Option.some.inj hy ▸ hf⟩
      | succ i => exact ih (mapM_eq_ok.mpr hrest) hy

end

end RecordSchema
