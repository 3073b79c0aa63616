import Mathlib.Data.List.Perm.Subperm
import StackCode.Pool

namespace StackCode.Pool

/-!
# Successors

Instructions that took over from each other form chains, which may run in circles.

* `follow` — the instruction after a number of links.
* `Heir` — the first accepted instruction behind another one on its chain.
* `follow_inj` — up to the heir no instruction comes twice, so that an heir is no further away than
  the pool has instructions.
* `successor_eq_some` — the bounded walk finds the heir.
-/

variable {p : Pool} {accept : Handle → Bool} {id heir : Handle} {n : Nat}

/-! ### Chains -/

/-- The instruction after `n` links from `id`, where there are that many. -/
def follow (p : Pool) : (n : Nat) → Handle → Option Handle
  | 0, id => some id
  | n + 1, id => (p.stolenBy id).bind (p.follow n)

/-- No links lead nowhere else. -/
@[simp] theorem follow_zero : p.follow 0 id = some id := rfl

/-- The first link leads to the thief, and the others on from there. -/
theorem follow_succ : p.follow (n + 1) id = (p.stolenBy id).bind (p.follow n) := rfl

/-- Links can be followed in two parts. -/
theorem follow_add (m n : Nat) (id : Handle) :
    p.follow (m + n) id = (p.follow m id).bind (p.follow n) := by
  induction m generalizing id with
  | zero => rw [Nat.zero_add, follow_zero, Option.bind_some]
  | succ m ih =>
    rw [Nat.add_right_comm, follow_succ, follow_succ, Option.bind_assoc]
    exact congrArg _ (funext ih)

/-- Only instructions of the pool have links. -/
theorem lt_size_of_stolenBy {next : Handle} (h : p.stolenBy id = some next) : id < p.size := by
  obtain ⟨slot, hslot, -⟩ := Option.bind_eq_some_iff.1 h
  exact (Array.getElem?_eq_some_iff.1 hslot).1

/-- Every instruction on the way is one of the pool. -/
theorem exists_follow_lt (h : p.follow n id = some heir) {m : Nat} (hm : m < n) :
    ∃ x < p.size, p.follow m id = some x := by
  obtain ⟨k, rfl⟩ := Nat.exists_eq_add_of_lt hm
  rw [Nat.add_assoc, follow_add] at h
  obtain ⟨x, hx, hrest⟩ := Option.bind_eq_some_iff.1 h
  obtain ⟨next, hnext, -⟩ := Option.bind_eq_some_iff.1 hrest
  exact ⟨x, lt_size_of_stolenBy hnext, hx⟩

/-! ### Heirs -/

/-- The instruction after `n` links is accepted, and none of those before it on the way, from the
    `m`-th on. -/
structure FirstFrom (p : Pool) (accept : Handle → Bool) (m n : Nat) (id heir : Handle) : Prop where
  reached : p.follow n id = some heir
  accepted : accept heir = true
  first : ∀ k, m ≤ k → k < n → ∀ x, p.follow k id = some x → accept x = false

/-- `heir` is the first accepted instruction after one or more links from `id`. -/
def Heir (p : Pool) (accept : Handle → Bool) (id heir : Handle) : Prop :=
  ∃ n, 0 < n ∧ p.FirstFrom accept 1 n id heir

/-- **No way back.** On the way to an heir no instruction comes twice: from the second time on, the
    way to the heir would have been shorter. -/
theorem follow_inj (h : p.FirstFrom accept 1 n id heir) {i j : Nat} (hij : i < j) (hj : j < n) :
    p.follow i id ≠ p.follow j id := by
  intro heq
  -- From the `i`-th instruction the heir is as far as from the `j`-th.
  have hshort : p.follow (i + (n - j)) id = some heir := by
    rw [follow_add, heq, ← follow_add, Nat.add_sub_cancel' (Nat.le_of_lt hj)]
    exact h.reached
  have hnot := h.first (i + (n - j)) (by omega) (by omega) heir hshort
  rw [h.accepted] at hnot
  cases hnot

/-- **Bound.** An heir is no further away than the pool has instructions. -/
theorem FirstFrom.le_size (h : p.FirstFrom accept 1 n id heir) : n ≤ p.size := by
  -- The instructions on the way are pairwise different ones of the pool.
  have hnodup : ((List.range n).map fun k => (p.follow k id).getD 0).Nodup := by
    refine List.pairwise_map.2 (List.pairwise_lt_range.imp_of_mem fun {i j} hi hj hij heq => ?_)
    obtain ⟨x, -, hx⟩ := exists_follow_lt h.reached (List.mem_range.1 hi)
    obtain ⟨y, -, hy⟩ := exists_follow_lt h.reached (List.mem_range.1 hj)
    rw [hx, hy, Option.getD_some, Option.getD_some] at heq
    exact follow_inj h hij (List.mem_range.1 hj) (by rw [hx, hy, heq])
  have hsub : ((List.range n).map fun k => (p.follow k id).getD 0) ⊆ List.range p.size := by
    intro x hx
    obtain ⟨k, hk, rfl⟩ := List.mem_map.1 hx
    obtain ⟨y, hlt, hy⟩ := exists_follow_lt h.reached (List.mem_range.1 hk)
    rw [hy, Option.getD_some]
    exact List.mem_range.2 hlt
  simpa using (List.subperm_of_subset hnodup hsub).length_le

/-! ### Walks -/

/-- After no links, only the start itself can be accepted. -/
theorem firstFrom_zero : p.FirstFrom accept 0 0 id heir ↔ id = heir ∧ accept heir = true := by
  constructor
  · intro h
    exact ⟨Option.some.inj h.reached, h.accepted⟩
  · rintro ⟨rfl, haccept⟩
    exact ⟨rfl, haccept, fun k _ hk => absurd hk (Nat.not_lt_zero k)⟩

/-- The way from an instruction that is not accepted itself. -/
theorem firstFrom_zero_succ :
    p.FirstFrom accept 0 (n + 1) id heir ↔
      accept id = false ∧ p.FirstFrom accept 1 (n + 1) id heir := by
  constructor
  · intro h
    exact ⟨h.first 0 (Nat.le_refl _) (Nat.succ_pos n) id rfl, h.reached, h.accepted,
      fun k _ => h.first k (Nat.zero_le k)⟩
  · rintro ⟨hid, h⟩
    refine ⟨h.reached, h.accepted, fun k _ hk x hx => ?_⟩
    cases k with
    | zero =>
      cases hx
      exact hid
    | succ k => exact h.first (k + 1) (Nat.succ_pos k) hk x hx

/-- The way from an instruction is one link longer than that from the one that took over. -/
theorem firstFrom_succ {next : Handle} (hnext : p.stolenBy id = some next) :
    p.FirstFrom accept 1 (n + 1) id heir ↔ p.FirstFrom accept 0 n next heir := by
  have hfollow : ∀ k, p.follow (k + 1) id = p.follow k next := fun k => by
    rw [follow_succ, hnext, Option.bind_some]
  constructor
  · rintro ⟨hreached, haccepted, hfirst⟩
    refine ⟨hfollow n ▸ hreached, haccepted, fun k _ hk x hx => ?_⟩
    exact hfirst (k + 1) (Nat.succ_pos k) (Nat.succ_lt_succ hk) x (by rw [hfollow, hx])
  · rintro ⟨hreached, haccepted, hfirst⟩
    refine ⟨by rw [hfollow, hreached], haccepted, fun k hk hkn x hx => ?_⟩
    obtain ⟨k, rfl⟩ := Nat.exists_eq_succ_of_ne_zero (Nat.ne_of_gt hk)
    exact hfirst k (Nat.zero_le _) (Nat.lt_of_succ_lt_succ hkn) x (hfollow k ▸ hx)

/-- There is no way from an instruction that nobody took over from. -/
theorem not_firstFrom_succ (hnext : p.stolenBy id = none) {m : Nat} :
    ¬p.FirstFrom accept m (n + 1) id heir := by
  intro h
  have hreached := h.reached
  rw [follow_succ, hnext] at hreached
  cases hreached

/-- A walk with some fuel finds the first accepted instruction that is nearer than its fuel. -/
theorem acceptedIn_eq_some {fuel : Nat} :
    p.acceptedIn accept fuel id = some heir ↔ ∃ n < fuel, p.FirstFrom accept 0 n id heir := by
  induction fuel generalizing id with
  | zero => simp [acceptedIn]
  | succ fuel ih =>
    rw [acceptedIn]
    -- Either the walk ends here, or it goes on along the link with one turn less.
    by_cases hid : accept id = true
    · rw [if_pos hid]
      constructor
      · rintro ⟨⟩
        exact ⟨0, Nat.succ_pos _, firstFrom_zero.2 ⟨rfl, hid⟩⟩
      · rintro ⟨n, -, h⟩
        cases n with
        | zero => exact h.reached
        | succ n =>
          obtain ⟨hfalse, -⟩ := firstFrom_zero_succ.1 h
          rw [hid] at hfalse
          cases hfalse
    · rw [if_neg hid]
      have hfalse : accept id = false := by simpa using hid
      have hzero : ¬p.FirstFrom accept 0 0 id heir := by
        intro h
        obtain ⟨rfl, haccept⟩ := firstFrom_zero.1 h
        exact hid haccept
      cases hnext : p.stolenBy id with
      | none =>
        refine ⟨nofun, fun ⟨n, _, h⟩ => ?_⟩
        cases n with
        | zero => exact absurd h hzero
        | succ n => exact absurd h (not_firstFrom_succ hnext)
      | some next =>
        dsimp only
        rw [ih]
        constructor
        · rintro ⟨n, hn, h⟩
          exact ⟨n + 1, Nat.succ_lt_succ hn,
            firstFrom_zero_succ.2 ⟨hfalse, (firstFrom_succ hnext).2 h⟩⟩
        · rintro ⟨n, hn, h⟩
          cases n with
          | zero => exact absurd h hzero
          | succ n =>
            exact ⟨n, Nat.lt_of_succ_lt_succ hn,
              (firstFrom_succ hnext).1 (firstFrom_zero_succ.1 h).2⟩

/-- **Successors.** The walk, bounded by the size of the pool, finds the heir wherever it is. -/
theorem successor_eq_some : p.successor id accept = some heir ↔ p.Heir accept id heir := by
  unfold successor Heir
  cases hnext : p.stolenBy id with
  | none =>
    refine ⟨nofun, fun ⟨n, hn, h⟩ => ?_⟩
    obtain ⟨n, rfl⟩ := Nat.exists_eq_succ_of_ne_zero (Nat.ne_of_gt hn)
    exact absurd h (not_firstFrom_succ hnext)
  | some next =>
    dsimp only
    rw [acceptedIn_eq_some]
    constructor
    · rintro ⟨n, -, h⟩
      exact ⟨n + 1, Nat.succ_pos n, (firstFrom_succ hnext).2 h⟩
    · rintro ⟨n, hn, h⟩
      obtain ⟨n, rfl⟩ := Nat.exists_eq_succ_of_ne_zero (Nat.ne_of_gt hn)
      exact ⟨n, h.le_size, (firstFrom_succ hnext).1 h⟩

end StackCode.Pool
