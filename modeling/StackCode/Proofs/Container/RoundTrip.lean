import StackCode.Proofs.Container.Constants
import StackCode.Proofs.Container.Trailer

namespace StackCode

/-!
# Containers: the round trip

Writer and reader meet at the frame of a unit: the one puts the bytes of the constants into it, the
other finds them there.

* `Const.ReadsBack` — a reader reads what is written for a constant as that constant.
* `Const.readsBack_read` — so does the reader of constants, by induction on the depth.
* `Container.read_of_write` — a container is read back from its bytes.
-/

namespace Const

open Reader

variable {items : List Const} {unit : StoredUnit} {bytes : List UInt8}

/-! ### Reading back -/

/-- Where at most `size` bytes are written for a constant, `r` reads them as that constant. -/
def ReadsBack (r : Reader Const) (size : Nat) : Prop :=
  ∀ c bytes, c.write? = .ok bytes → bytes.length ≤ size →
    ∀ s s', s.Leaves bytes s' → r.run s = .ok c s'

variable {r : Reader Const} {size : Nat} {s s' : Input}

/-- Items that read back one by one read back in a row. -/
theorem ReadsBack.run_times (h : ReadsBack r size) (hwrite : writeItems? items = .ok bytes)
    (hsize : bytes.length ≤ size) (hleaves : s.Leaves bytes s') :
    (times r items.length).run s = .ok items s' := by
  induction items generalizing s bytes with
  | nil =>
    rw [writeItems?] at hwrite
    cases hwrite
    exact run_pure_eq_ok.2 ⟨rfl, (Input.leaves_nil.1 hleaves).symm⟩
  | cons c items ih =>
    rw [writeItems?_cons] at hwrite
    obtain ⟨first, rest, hfirst, hrest, rfl⟩ := andThen_eq_ok.1 hwrite
    obtain ⟨t, hleft, hright⟩ := Input.leaves_append.1 hleaves
    rw [List.length_append] at hsize
    have hc := h c first hfirst (by omega) s t hleft
    have hitems := ih hrest (by omega) hright
    exact run_bind_eq_ok.2 ⟨c, t, hc, run_bind_eq_ok.2 ⟨items, s', hitems, rfl⟩⟩

/-- A unit is read back where its constants are. -/
theorem ReadsBack.readsToEnd (h : ReadsBack r size) (hwrite : unit.write? = .ok s.rest)
    (hsize : s.rest.length ≤ size) : ReadsToEnd (StoredUnit.readWith r) s unit := by
  rw [StoredUnit.write?_eq] at hwrite
  obtain ⟨front, items, back, hitems, hrest, -⟩ := StoredUnit.frame?_split hwrite
  rw [hitems] at hwrite
  have hlen : items.length ≤ s.rest.length := by
    rw [hrest, List.length_append, List.length_append]
    omega
  have hleaves : Input.Leaves ⟨items, 4⟩ items ⟨[], 4 + items.length⟩ :=
    ⟨(List.append_nil items).symm, rfl⟩
  exact StoredUnit.readsToEnd_readWith.2
    ⟨items, hwrite, _, h.run_times hitems (by omega) hleaves, rfl⟩

/-- **Constants.** The reader of constants reads back what is written for them. -/
theorem readsBack_read (size : Nat) : ReadsBack (Const.read size) size := by
  induction size with
  | zero =>
    -- At least one byte is written for a constant.
    intro c bytes hwrite hsize
    have := length_pos_of_write? hwrite
    omega
  | succ size ih =>
    intro c bytes hwrite hsize s s' hleaves
    rw [run_read]
    cases c with
    | none | ellipsis | int v | float x | str v | bytes bs =>
      rw [write?] at hwrite
      exact ⟨bytes, hwrite, hleaves⟩
    | bool b =>
      rw [write?] at hwrite
      cases b with
      | false => exact ⟨0, ⟨bytes, hwrite, hleaves⟩, rfl⟩
      | true => exact ⟨1, ⟨bytes, hwrite, hleaves⟩, rfl⟩
    | tuple items =>
      obtain ⟨n, body, hn, hbody, rfl⟩ := write?_tuple_eq_ok.1 hwrite
      obtain ⟨t, hleft, hright⟩ := Input.leaves_append.1 hleaves
      -- The tag takes a byte, so the items fit the depth that is left.
      have hbodySize : body.length ≤ size := by
        rw [List.length_append, List.length_append, List.length_singleton] at hsize
        omega
      have hhead := andThen_eq_ok.2 ⟨[7], n, rfl, hn, rfl⟩
      exact ⟨t, ⟨[7] ++ n, hhead, hleft⟩, ih.run_times hbody hbodySize hright⟩
    | code unit =>
      obtain ⟨content, hcontent, hblob⟩ := write?_code_eq_ok.1 hwrite
      have hcontentSize : content.length ≤ size := by
        rw [(writeFields?_taggedBlob.1 hblob).2, List.length_cons, List.length_append] at hsize
        omega
      exact ⟨content, ⟨bytes, hblob, hleaves⟩, ih.readsToEnd hcontent hcontentSize⟩

end Const

/-! ### Containers -/

namespace Container

variable {c : Container} {bytes : List UInt8}

/-- **Round trip.** A container is read back from its bytes. -/
theorem read_of_write (h : c.write? = .ok bytes) : read? bytes = .ok c := by
  obtain ⟨sections, hsections, rfl⟩ := write?_eq_ok.1 h
  refine read?_eq_ok.2 ⟨_, rfl, run?_readBody.2 ⟨⟨sections, 7⟩, ⟨rfl, rfl⟩, ?_⟩⟩
  refine (Const.readsBack_read _).readsToEnd hsections ?_
  rw [List.length_append]
  exact Nat.le_add_left _ _

/-- A unit with a tuple and a nested unit among its constants. -/
def adder : Container where
  encoding := .wordcode
  unit := {
    name := "main"
    filename := "adder"
    code := [100, 0]
    consts := [
      .tuple [.bool true, .float ⟨0x7FF8000000000001⟩, .tuple []],
      .code { name := "add", argcount := 2, consts := [.none, .int (-1), .bytes [0, 255]]
              varnames := ["x", "y"] }]
    names := ["add"]
    lineTable := [0, 1] }

/-- It is written and read back, the NaN and the empty tuple included. -/
theorem read_write_adder : ∃ bytes, adder.write? = .ok bytes ∧ read? bytes = .ok adder := by
  obtain ⟨bytes, h⟩ := exists_of_isOk (x := adder.write?) (by decide +kernel)
  exact ⟨bytes, h, read_of_write h⟩

end Container

end StackCode
