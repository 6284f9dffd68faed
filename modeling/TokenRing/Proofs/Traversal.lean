import Mathlib.Data.List.Forall2

/-!
# Computations that may fail

What it takes for steps made one after another to succeed. A list can be gone through if the step
succeeds for all of its elements; otherwise the first element for which it fails is the reason.
-/

namespace TokenRing

variable {ε ε' α β : Type}

/-! ### Steps -/

namespace Except

/-- A sequence of two steps succeeds if both do. -/
theorem bind_eq_ok_iff {x : Except ε α} {f : α → Except ε β} {b : β} :
    x >>= f = .ok b ↔ ∃ a, x = .ok a ∧ f a = .ok b := by
  cases x <;> simp [bind, Except.bind]

/-- A sequence of two steps fails where the first does, or else where the second does. -/
theorem bind_eq_error_iff {x : Except ε α} {f : α → Except ε β} {e : ε} :
    x >>= f = .error e ↔ x = .error e ∨ ∃ a, x = .ok a ∧ f a = .error e := by
  cases x <;> simp [bind, Except.bind]

theorem map_eq_ok_iff {x : Except ε α} {f : α → β} {b : β} :
    x.map f = .ok b ↔ ∃ a, x = .ok a ∧ f a = b := by
  cases x <;> simp [Except.map]

theorem map_eq_error_iff {x : Except ε α} {f : α → β} {e : ε} :
    x.map f = .error e ↔ x = .error e := by
  cases x <;> simp [Except.map]

theorem mapError_eq_ok_iff {x : Except ε α} {f : ε → ε'} {a : α} :
    x.mapError f = .ok a ↔ x = .ok a := by
  cases x <;> simp [Except.mapError]

theorem mapError_eq_error_iff {x : Except ε α} {f : ε → ε'} {e' : ε'} :
    x.mapError f = .error e' ↔ ∃ e, x = .error e ∧ f e = e' := by
  cases x <;> simp [Except.mapError]

end Except

/-! ### Lists -/

variable {f : α → Except ε β}

/-- A traversal gives one result for each member, in order. -/
theorem mapM_eq_ok_iff {list : List α} {results : List β} :
    list.mapM f = .ok results ↔ List.Forall₂ (fun a b => f a = .ok b) list results := by
  induction list generalizing results with
  | nil => cases results <;> simp [pure, Except.pure]
  | cons a rest ih =>
    rw [List.mapM_cons, Except.bind_eq_ok_iff, List.forall₂_cons_left_iff]
    simp only [Except.bind_eq_ok_iff, ih]
    constructor
    · rintro ⟨b, hb, bs, hbs, h⟩
      exact ⟨b, bs, hb, hbs, (Except.ok.inj h).symm⟩
    · rintro ⟨b, bs, hb, hbs, rfl⟩
      exact ⟨b, hb, bs, hbs, rfl⟩

/-- The results of a traversal are those of its members. -/
theorem mem_of_mapM_eq_ok {list : List α} {results : List β} (h : list.mapM f = .ok results)
    {b : β} : b ∈ results ↔ ∃ a ∈ list, f a = .ok b := by
  rw [mapM_eq_ok_iff] at h
  induction h with
  | nil => simp
  | cons hstep _ ih => simp [ih, hstep, eq_comm]

theorem exists_of_mapM_eq_ok {list : List α} {results : List β} (h : list.mapM f = .ok results) :
    ∀ a ∈ list, ∃ b, f a = .ok b := by
  rw [mapM_eq_ok_iff] at h
  induction h with
  | nil => nofun
  | cons hstep _ ih => exact List.forall_mem_cons.2 ⟨⟨_, hstep⟩, ih⟩

theorem map_of_mapM_eq_ok {γ : Type} {u : α → γ} {v : β → γ}
    (hstep : ∀ a b, f a = .ok b → v b = u a) {list : List α} {results : List β}
    (h : list.mapM f = .ok results) : results.map v = list.map u := by
  rw [mapM_eq_ok_iff] at h
  induction h with
  | nil => rfl
  | cons hhead _ ih => rw [List.map_cons, List.map_cons, hstep _ _ hhead, ih]

/-- Nothing behind the first failure is looked at. -/
theorem mapM_eq_error_iff {list : List α} {e : ε} :
    list.mapM f = .error e ↔ ∃ before a after, list = before ++ a :: after ∧
      (∀ b ∈ before, ∃ v, f b = .ok v) ∧ f a = .error e := by
  induction list with
  | nil => simp [pure, Except.pure]
  | cons a rest ih =>
    rw [List.mapM_cons, Except.bind_eq_error_iff]
    simp only [Except.bind_eq_error_iff, ih]
    constructor
    · rintro (ha | ⟨v, hv, hrest | ⟨bs, -, h⟩⟩)
      · exact ⟨[], a, rest, rfl, nofun, ha⟩
      · obtain ⟨before, a', after, rfl, hbefore, ha'⟩ := hrest
        exact ⟨a :: before, a', after, rfl, List.forall_mem_cons.2 ⟨⟨v, hv⟩, hbefore⟩, ha'⟩
      · cases h
    · rintro ⟨before, a', after, heq, hbefore, ha'⟩
      cases before with
      | nil =>
        obtain ⟨rfl, rfl⟩ := List.cons.inj heq
        exact .inl ha'
      | cons b before =>
        obtain ⟨rfl, rfl⟩ := List.cons.inj heq
        obtain ⟨⟨v, hv⟩, hbefore⟩ := List.forall_mem_cons.1 hbefore
        exact .inr ⟨v, hv, .inl ⟨before, a', after, rfl, hbefore, ha'⟩⟩

theorem exists_mapM_eq_ok {list : List α} (h : ∀ a ∈ list, ∃ b, f a = .ok b) :
    ∃ results, list.mapM f = .ok results := by
  cases hmapM : list.mapM f with
  | ok results => exact ⟨results, rfl⟩
  | error e =>
    obtain ⟨before, a, after, rfl, -, hrefused⟩ := mapM_eq_error_iff.1 hmapM
    obtain ⟨b, hb⟩ := h a (List.mem_append_right before List.mem_cons_self)
    rw [hb] at hrefused
    cases hrefused

end TokenRing
