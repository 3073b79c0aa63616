import Mathlib.Data.List.Forall2

namespace StackCode

/-!
# Fallible computations

When sequences of fallible steps succeed.

* `bind_eq_ok`, `map_eq_ok`, `mapError_eq_ok` — success of a composed step, by success of its
  parts; `bind_eq_error`, `mapError_eq_error` say when it fails.
* `mapM_eq_ok` — a traversal succeeds when every element does.
* `exists_of_mapM_eq_error`, `exists_of_forM_eq_error` — one that fails does so at an element.
* `run_bind_eq_ok`, `run_pure_eq_ok`, `run_mapM_cons_eq_ok` — success of composed actions on a
  state; `run_bind_eq_error` says when they fail.
-/

variable {ε ε' α β γ : Type}

/-- A sequence succeeds when both of its steps do. -/
theorem bind_eq_ok {x : Except ε α} {f : α → Except ε β} {b : β} :
    x >>= f = .ok b ↔ ∃ a, x = .ok a ∧ f a = .ok b := by
  cases x with
  | error e => exact ⟨nofun, nofun⟩
  | ok a => exact ⟨fun h => ⟨a, rfl, h⟩, fun ⟨_, ha, h⟩ => by cases ha; exact h⟩

/-- A sequence fails when one of its steps does. -/
theorem bind_eq_error {x : Except ε α} {f : α → Except ε β} {e : ε} :
    x >>= f = .error e ↔ x = .error e ∨ ∃ a, x = .ok a ∧ f a = .error e := by
  cases x with
  | error e' =>
    constructor
    · intro h
      cases h
      exact .inl rfl
    · rintro (h | ⟨_, h, -⟩)
      · cases h
        rfl
      · cases h
  | ok a =>
    refine ⟨fun h => .inr ⟨a, rfl, h⟩, ?_⟩
    rintro (h | ⟨_, ha, h⟩)
    · cases h
    · cases ha
      exact h

/-- A converted result comes from a result. -/
theorem map_eq_ok {f : α → β} {x : Except ε α} {b : β} :
    f <$> x = .ok b ↔ ∃ a, x = .ok a ∧ f a = b := by
  cases x with
  | error e => exact ⟨nofun, nofun⟩
  | ok a => simp [Functor.map, Except.map]

/-- Converting faults does not touch results. -/
theorem mapError_eq_ok {f : ε → ε'} {x : Except ε α} {a : α} :
    x.mapError f = .ok a ↔ x = .ok a := by
  cases x <;> simp [Except.mapError]

/-- A converted fault comes from a fault. -/
theorem mapError_eq_error {f : ε → ε'} {x : Except ε α} {e : ε'} :
    x.mapError f = .error e ↔ ∃ e', x = .error e' ∧ f e' = e := by
  cases x <;> simp [Except.mapError]

/-- A failure is no value, whichever way it is put. -/
theorem error_eq_ok_iff {e : ε} {a : α} :
    (.error e : Except ε α) = .ok a ↔ (none : Option α) = some a := by
  constructor
  · intro h
    cases h
  · intro h
    cases h

/-- What is `ok` has a result. -/
theorem exists_of_isOk {x : Except ε α} (h : x.isOk = true) : ∃ a, x = .ok a := by
  cases x with
  | error e => cases h
  | ok a => exact ⟨a, rfl⟩

/-- What has a result as an option has that result. -/
theorem eq_ok_of_toOption {x : Except ε α} {a : α} (h : x.toOption = some a) : x = .ok a := by
  cases x with
  | error e => cases h
  | ok b => exact congrArg Except.ok (Option.some.inj h)

/-- **Traversals.** A list is traversed with success when every element is. -/
theorem mapM_eq_ok {f : α → Except ε β} {xs : List α} {ys : List β} :
    xs.mapM f = .ok ys ↔ List.Forall₂ (fun x y => f x = .ok y) xs ys := by
  induction xs generalizing ys with
  | nil =>
    rw [List.mapM_nil, List.forall₂_nil_left_iff]
    exact ⟨fun h => by cases h; rfl, fun h => by rw [h]; rfl⟩
  | cons x xs ih =>
    rw [List.mapM_cons, bind_eq_ok]
    constructor
    · rintro ⟨y, hy, h⟩
      obtain ⟨zs, hzs, h⟩ := bind_eq_ok.1 h
      cases h
      exact .cons hy (ih.1 hzs)
    · intro h
      obtain ⟨y, zs, hy, hzs, rfl⟩ := List.forall₂_cons_left_iff.1 h
      exact ⟨y, hy, bind_eq_ok.2 ⟨zs, ih.2 hzs, rfl⟩⟩

/-- A traversal that fails does so at an element. -/
theorem exists_of_mapM_eq_error {f : α → Except ε β} {xs : List α} {e : ε}
    (h : xs.mapM f = .error e) : ∃ x ∈ xs, f x = .error e := by
  induction xs with
  | nil => cases h
  | cons x xs ih =>
    rw [List.mapM_cons] at h
    rcases bind_eq_error.1 h with hx | ⟨y, -, h⟩
    · exact ⟨x, List.mem_cons_self, hx⟩
    · rcases bind_eq_error.1 h with h | ⟨ys, -, h⟩
      · obtain ⟨x', hx', h⟩ := ih h
        exact ⟨x', List.mem_cons_of_mem _ hx', h⟩
      · cases h

/-- A check of all elements that fails does so at one of them. -/
theorem exists_of_forM_eq_error {f : α → Except ε Unit} {xs : List α} {e : ε}
    (h : xs.forM f = .error e) : ∃ x ∈ xs, f x = .error e := by
  induction xs with
  | nil => cases h
  | cons x xs ih =>
    have h : (do f x; xs.forM f) = .error e := h
    rcases bind_eq_error.1 h with hx | ⟨_, -, h⟩
    · exact ⟨x, List.mem_cons_self, hx⟩
    · obtain ⟨x', hx', h⟩ := ih h
      exact ⟨x', List.mem_cons_of_mem _ hx', h⟩

/-- To check consecutive numbers is to check the elements of a list, when a number is checked as
    the element at its place is. -/
theorem forM_range'_eq {f : Nat → Except ε Unit} {g : α → Except ε Unit} {xs : List α} {n : Nat}
    (h : ∀ k x, xs[k]? = some x → f (n + k) = g x) :
    (List.range' n xs.length).forM f = xs.forM g := by
  induction xs generalizing n with
  | nil => rfl
  | cons x xs ih =>
    have hrest : ∀ k y, xs[k]? = some y → f (n + 1 + k) = g y := by
      intro k y hk
      rw [Nat.add_assoc, Nat.add_comm 1 k]
      exact h (k + 1) y hk
    show (do f n; (List.range' (n + 1) xs.length).forM f) = (do g x; xs.forM g)
    rw [ih hrest, ← h 0 x rfl, Nat.add_zero]

/-- The element at each place of a traversal comes from the element there. -/
theorem getElem_of_mapM_eq_ok {f : α → Except ε β} {xs : List α} {ys : List β}
    (h : xs.mapM f = .ok ys) (k : Nat) (hk : k < xs.length) (hk' : k < ys.length) :
    f xs[k] = .ok ys[k] :=
  (List.forall₂_iff_get.1 (mapM_eq_ok.1 h)).2 k hk hk'

/-- A list that is mapped without fault keeps its length. -/
theorem length_of_mapM_eq_ok {f : α → Except ε β} {xs : List α} {ys : List β}
    (h : xs.mapM f = .ok ys) : ys.length = xs.length :=
  (mapM_eq_ok.1 h).length_eq.symm

/-- A traversal succeeds with `ys` when the elements at each place do. -/
theorem mapM_eq_ok_of_getElem {f : α → Except ε β} {xs : List α} {ys : List β}
    (hlen : xs.length = ys.length)
    (h : ∀ k (hk : k < xs.length) (hk' : k < ys.length), f xs[k] = .ok ys[k]) :
    xs.mapM f = .ok ys :=
  mapM_eq_ok.2 (List.forall₂_iff_get.2 ⟨hlen, h⟩)

/-- Relations by way of a third list: what stands in the middle is found element by element. -/
theorem forall₂_exists {P : α → γ → Prop} {g : α → γ → β} {xs : List α} {ys : List β} :
    List.Forall₂ (fun x y => ∃ a, P x a ∧ g x a = y) xs ys ↔
      ∃ as, List.Forall₂ P xs as ∧ List.zipWith g xs as = ys := by
  induction xs generalizing ys with
  | nil =>
    simp only [List.forall₂_nil_left_iff]
    exact ⟨fun h => ⟨[], rfl, h.symm⟩, fun ⟨as, has, h⟩ => by rw [← h, List.zipWith_nil_left]⟩
  | cons x xs ih =>
    simp only [List.forall₂_cons_left_iff, ih]
    constructor
    · rintro ⟨_, _, ⟨a, ha, rfl⟩, ⟨as, has, rfl⟩, rfl⟩
      exact ⟨a :: as, ⟨a, as, ha, has, rfl⟩, rfl⟩
    · rintro ⟨_, ⟨a, as, ha, has, rfl⟩, rfl⟩
      exact ⟨_, _, ⟨a, ha, rfl⟩, ⟨as, has, rfl⟩, rfl⟩

/-! ### Actions on a state -/

section

variable {σ : Type} {s s' : σ}

/-- A sequence of actions succeeds when both of them do, one after the other. -/
theorem run_bind_eq_ok {x : EStateM ε σ α} {f : α → EStateM ε σ β} {b : β} :
    (x >>= f).run s = .ok b s' ↔ ∃ a t, x.run s = .ok a t ∧ (f a).run t = .ok b s' := by
  rw [EStateM.run_bind]
  cases x.run s with
  | ok a t => exact ⟨fun h => ⟨a, t, rfl, h⟩, fun ⟨_, _, hx, h⟩ => by cases hx; exact h⟩
  | error e t => exact ⟨nofun, fun ⟨_, _, hx, _⟩ => by cases hx⟩

/-- A sequence of actions fails when one of them does. -/
theorem run_bind_eq_error {x : EStateM ε σ α} {f : α → EStateM ε σ β} {e : ε} :
    (x >>= f).run s = .error e s' ↔
      x.run s = .error e s' ∨ ∃ a t, x.run s = .ok a t ∧ (f a).run t = .error e s' := by
  rw [EStateM.run_bind]
  cases x.run s with
  | ok a t =>
    constructor
    · exact fun h => .inr ⟨a, t, rfl, h⟩
    · rintro (h | ⟨_, _, hx, h⟩)
      · cases h
      · cases hx
        exact h
  | error e t =>
    constructor
    · intro h
      cases h
      exact .inl rfl
    · rintro (h | ⟨_, _, hx, -⟩)
      · cases h
        rfl
      · cases hx

/-- A pure action returns its value and leaves the state. -/
theorem run_pure_eq_ok {a b : α} :
    (pure a : EStateM ε σ α).run s = .ok b s' ↔ a = b ∧ s = s' := by
  rw [EStateM.run_pure]
  simp

/-- A traversal runs the action of the first element, and then those of the others. -/
theorem run_mapM_cons_eq_ok {f : α → EStateM ε σ β} {x : α} {xs : List α} {ys : List β} :
    ((x :: xs).mapM f).run s = .ok ys s' ↔
      ∃ y t zs, (f x).run s = .ok y t ∧ (xs.mapM f).run t = .ok zs s' ∧ y :: zs = ys := by
  rw [List.mapM_cons, run_bind_eq_ok]
  constructor
  · rintro ⟨y, t, hx, h⟩
    obtain ⟨zs, _, hxs, h⟩ := run_bind_eq_ok.1 h
    obtain ⟨rfl, rfl⟩ := run_pure_eq_ok.1 h
    exact ⟨y, t, zs, hx, hxs, rfl⟩
  · rintro ⟨y, t, zs, hx, hxs, rfl⟩
    exact ⟨y, t, hx, run_bind_eq_ok.2 ⟨zs, s', hxs, rfl⟩⟩

/-- In a traversal that succeeds, the action of every element does, from some state on. -/
theorem exists_run_of_mapM {f : α → EStateM ε σ β} {g : α → β} {xs : List α}
    (h : (xs.mapM f).run s = .ok (xs.map g) s') :
    ∀ x ∈ xs, ∃ t t', (f x).run t = .ok (g x) t' := by
  induction xs generalizing s with
  | nil => exact List.forall_mem_nil _
  | cons x xs ih =>
    obtain ⟨y, t, zs, hx, hxs, heq⟩ := run_mapM_cons_eq_ok.1 h
    obtain ⟨rfl, rfl⟩ := List.cons.inj heq
    exact List.forall_mem_cons.2 ⟨⟨s, t, hx⟩, ih hxs⟩

end

end StackCode
