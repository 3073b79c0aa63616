import Mathlib.Data.Nat.Find
import StackCode.Proofs.Pool.Calls
import StackCode.Proofs.Pool.Steals

namespace StackCode.Pool

/-!
# Chains that are followed to their end

An heir is no further away than the pool has instructions (`follow_inj`).  The end of a chain is the
heir of its start when nothing but ends is accepted, so the same bound holds for both walks.

The walks along thieves are bounded by the size of the pool, and chains may run in circles.

* `Met` — an instruction that is met on a chain, behind its start.
* `EndsIn` — a chain ends in an instruction that nobody took over from.
* `exists_heir` — a chain on which an accepted instruction is met has an heir.
* `le_size_of_free` — no chain that ends is longer than the pool.
* `chains_followed` — both walks go far enough, whatever the links of the pool are.
-/

variable {p : Pool} {accept : Handle → Bool} {id last x : Handle} {n fuel : Nat}

/-- `x` is met when links are followed from `id`, after one or more of them. -/
def Met (p : Pool) (id x : Handle) : Prop := ∃ n, 0 < n ∧ p.follow n id = some x

/-- The chain that starts with `id` leads to `last`, which nobody took over from. -/
def EndsIn (p : Pool) (id last : Handle) : Prop :=
  (∃ n, p.follow n id = some last) ∧ p.stolenBy last = none

/-! ### Heirs -/

/-- An heir is met, and accepted. -/
theorem Heir.met (h : p.Heir accept id x) : p.Met id x ∧ accept x = true := by
  obtain ⟨n, hn, hfirst⟩ := h
  exact ⟨⟨n, hn, hfirst.reached⟩, hfirst.accepted⟩

/-- Of the accepted instructions that are met, one is met first. -/
theorem exists_heir (h : p.Met id x) (haccept : accept x = true) :
    ∃ heir, p.Heir accept id heir := by
  classical
  have hsome : ∃ n, 0 < n ∧ ∃ y, p.follow n id = some y ∧ accept y = true := by
    obtain ⟨n, hn, hx⟩ := h
    exact ⟨n, hn, x, hx, haccept⟩
  obtain ⟨hpos, heir, hreached, haccepted⟩ := Nat.find_spec hsome
  refine ⟨heir, Nat.find hsome, hpos, hreached, haccepted, fun k hk hlt y hy => ?_⟩
  have hearlier := Nat.find_min hsome hlt
  exact Bool.eq_false_iff.2 fun hy' => hearlier ⟨hk, y, hy, hy'⟩

/-- **No heir.** The walk gives up only when no instruction that is met is accepted. -/
theorem successor_eq_none :
    p.successor id accept = none ↔ ∀ x, p.Met id x → accept x = false := by
  constructor
  · intro hnone x hx
    refine Bool.eq_false_iff.2 fun haccept => ?_
    obtain ⟨heir, hheir⟩ := exists_heir hx haccept
    rw [successor_eq_some.2 hheir] at hnone
    cases hnone
  · intro h
    refine Option.eq_none_iff_forall_ne_some.2 fun heir hheir => ?_
    obtain ⟨hmet, haccept⟩ := (successor_eq_some.1 hheir).met
    rw [h heir hmet] at haccept
    cases haccept

/-! ### Ends -/

/-- On the way to another instruction, everyone has been taken over from. -/
theorem stolenBy_ne_none_of_follow (h : p.follow n id = some last) {k : Nat} (hk : k < n)
    (hx : p.follow k id = some x) : p.stolenBy x ≠ none := by
  obtain ⟨m, rfl⟩ := Nat.exists_eq_add_of_lt hk
  rw [Nat.add_assoc, follow_add, hx, Option.bind_some, follow_succ] at h
  obtain ⟨next, hnext, -⟩ := Option.bind_eq_some_iff.1 h
  rw [hnext]
  exact Option.some_ne_none next

/-- **Bound.** A chain that ends is no longer than the pool: its end is the heir of its start when
    nothing but ends is accepted. -/
theorem le_size_of_free (h : p.follow n id = some last) (hfree : p.stolenBy last = none) :
    n ≤ p.size := by
  have hfirst : p.FirstFrom (fun x => (p.stolenBy x).isNone) 1 n id last := by
    refine ⟨h, by rw [hfree]; rfl, fun k _ hk x hx => ?_⟩
    exact Option.isNone_eq_false_iff.2
      (Option.isSome_iff_ne_none.2 (stolenBy_ne_none_of_follow h hk hx))
  exact hfirst.le_size

/-- A walk with enough fuel comes to the end of the chain, and stays there. -/
theorem resolveIn_eq (h : p.follow n id = some last) (hfree : p.stolenBy last = none)
    (hn : n ≤ fuel) : p.resolveIn fuel id = last := by
  -- The induction is on the number of links up to the end.
  induction n generalizing id fuel with
  | zero =>
    cases h
    exact resolveIn_of_none hfree fuel
  | succ n ih =>
    obtain ⟨fuel, rfl⟩ := Nat.exists_eq_add_of_le' hn
    obtain ⟨next, hnext, hrest⟩ := Option.bind_eq_some_iff.1 (follow_succ.symm.trans h)
    rw [show fuel + (n + 1) = fuel + n + 1 from rfl, resolveIn, hnext]
    exact ih hrest (Nat.le_add_left n fuel)

/-- A walk ends somewhere on the chain. -/
theorem exists_follow_resolveIn (fuel : Nat) (id : Handle) :
    ∃ n, p.follow n id = some (p.resolveIn fuel id) := by
  induction fuel generalizing id with
  | zero => exact ⟨0, rfl⟩
  | succ fuel ih =>
    rw [resolveIn]
    cases hnext : p.stolenBy id with
    | none => exact ⟨0, rfl⟩
    | some next =>
      obtain ⟨n, hn⟩ := ih next
      exact ⟨n + 1, by rw [follow_succ, hnext]; exact hn⟩

/-- What a chain ends in is found by the walk to its end. -/
theorem EndsIn.resolve_eq (h : p.EndsIn id last) : p.resolve id = last := by
  obtain ⟨⟨n, hn⟩, hfree⟩ := h
  exact resolveIn_eq hn hfree (le_size_of_free hn hfree)

/-- **Ends.** A chain ends in what its start resolves to, if that was not taken over from; otherwise
    it runs in a circle. -/
theorem endsIn_iff : p.EndsIn id last ↔ p.resolve id = last ∧ p.stolenBy last = none := by
  constructor
  · exact fun h => ⟨h.resolve_eq, h.2⟩
  · rintro ⟨rfl, hfree⟩
    exact ⟨exists_follow_resolveIn p.size id, hfree⟩

/-- **Chains.** In every pool, whatever its links: the successor of an instruction is the first
    accepted one that is met on its chain, and there is none only if no accepted one is met.  An
    instruction resolves to the end of its chain, where there is one, and the end to itself. -/
theorem chains_followed (p : Pool) (id : Handle) (accept : Handle → Bool) :
    (∀ heir, p.successor id accept = some heir ↔ p.Heir accept id heir) ∧
      (p.successor id accept = none ↔ ∀ x, p.Met id x → accept x = false) ∧
      ∀ last, p.EndsIn id last → p.resolve id = last ∧ p.resolve last = last := by
  refine ⟨fun heir => successor_eq_some, successor_eq_none, fun last h => ⟨h.resolve_eq, ?_⟩⟩
  exact (endsIn_iff.1 ⟨⟨0, rfl⟩, h.2⟩).1

/-- Three instructions that took over from each other in a circle, which a fourth one leads into,
    and a chain of two links. -/
def circling : Pool :=
  afterCalls {} [.insertMany (List.replicate 7 (.nop, .none)), .steal 1 0, .steal 2 1, .steal 0 2,
    .steal 1 3, .steal 5 4, .steal 6 5]

/-- Every instruction of the circle is met from the fourth one, which is not met itself; the chain
    of `4` ends in `6`. -/
theorem chains_followed_circling :
    circling.Heir (· = 0) 3 0 ∧ (∀ x, circling.Met 3 x → x ≠ 3) ∧ circling.EndsIn 4 6 ∧
      circling.resolve 4 = 6 ∧ circling.resolve 6 = 6 := by
  have hends : circling.EndsIn 4 6 := ⟨⟨2, by decide +kernel⟩, by decide +kernel⟩
  obtain ⟨-, -, hresolve⟩ := chains_followed circling 4 fun _ => true
  obtain ⟨hheir, -, -⟩ := chains_followed circling 3 (· = 0)
  obtain ⟨-, hnone, -⟩ := chains_followed circling 3 (· = 3)
  refine ⟨(hheir 0).1 (by decide +kernel), fun x hx => ?_, hends, hresolve 6 hends⟩
  simpa using hnone.1 (by decide +kernel) x hx

end StackCode.Pool
