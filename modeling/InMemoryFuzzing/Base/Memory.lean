import Mathlib.Tactic.Common

/-!
# Flat memory

A memory is a total function from indices to cells. `load` reads a block,
`store` overwrites one; `Holds` says that a block is at an index, and is what
the proofs about parsers and writers carry along.
-/

namespace InMemoryFuzzing.Base

/-- The cells from some pointer on. -/
abbrev Memory (α : Type) := Nat → α

namespace Memory

variable {α : Type}

/-- The `n` cells from `offset` on. -/
def load (mem : Memory α) : Nat → Nat → List α
  | _, 0 => []
  | offset, n + 1 => mem offset :: load mem (offset + 1) n

/-- Overwrite the cells from `offset` on. -/
def store (mem : Memory α) (offset : Nat) (block : List α) : Memory α :=
  fun i => if i < offset then mem i else (block[i - offset]?).getD (mem i)

/-- The block stands at `offset`. -/
def Holds (mem : Memory α) (offset : Nat) (block : List α) : Prop :=
  mem.load offset block.length = block

@[simp] theorem load_zero (mem : Memory α) (offset : Nat) : mem.load offset 0 = [] := rfl

@[simp] theorem load_length (mem : Memory α) (offset n : Nat) : (mem.load offset n).length = n := by
  induction n generalizing offset with
  | zero => rfl
  | succ n ih => simp [load, ih]

theorem load_add (mem : Memory α) (offset m n : Nat) :
    mem.load offset (m + n) = mem.load offset m ++ mem.load (offset + m) n := by
  induction m generalizing offset with
  | zero => simp
  | succ m ih =>
      rw [Nat.succ_add, load, load, ih, List.cons_append, Nat.add_assoc, Nat.add_comm 1 m]

theorem load_congr {mem mem' : Memory α} {offset n : Nat}
    (h : ∀ i, offset ≤ i → i < offset + n → mem i = mem' i) :
    mem.load offset n = mem'.load offset n := by
  induction n generalizing offset with
  | zero => rfl
  | succ n ih =>
      rw [load, load, h offset (Nat.le_refl _) (by omega),
        ih (fun i hlo hhi => h i (by omega) (by omega))]

theorem holds_append {mem : Memory α} {offset : Nat} {front back : List α} :
    mem.Holds offset (front ++ back) ↔
      mem.Holds offset front ∧ mem.Holds (offset + front.length) back := by
  unfold Holds
  rw [List.length_append, load_add]
  constructor
  · intro h
    exact List.append_inj h (load_length _ _ _)
  · rintro ⟨hfront, hback⟩
    rw [hfront, hback]

/-- What stands in front of a larger block stands in the memory as well. -/
theorem holds_of_prefix {mem : Memory α} {offset n : Nat} {block : List α}
    (h : block <+: mem.load offset n) : mem.Holds offset block ∧ block.length ≤ n := by
  obtain ⟨rest, hrest⟩ := h
  have hlen := congrArg List.length hrest
  rw [List.length_append, load_length] at hlen
  have hsplit : block ++ rest =
      mem.load offset block.length ++ mem.load (offset + block.length) rest.length := by
    rw [hrest, ← hlen, load_add]
  exact ⟨(List.append_inj hsplit (load_length _ _ _).symm).1.symm, by omega⟩

theorem prefix_of_holds {mem : Memory α} {offset n : Nat} {block : List α}
    (h : mem.Holds offset block) (hlen : block.length ≤ n) : block <+: mem.load offset n := by
  obtain ⟨k, rfl⟩ := Nat.exists_eq_add_of_le hlen
  rw [load_add, h]
  exact List.prefix_append _ _

/-! ## Loads behind stores -/

theorem store_of_lt (mem : Memory α) (block : List α) {offset i : Nat} (h : i < offset) :
    mem.store offset block i = mem i := if_pos h

theorem store_of_le (mem : Memory α) {block : List α} {offset i : Nat}
    (h : offset + block.length ≤ i) : mem.store offset block i = mem i := by
  rw [store, if_neg (by omega), List.getElem?_eq_none (by omega), Option.getD_none]

/-- A store leaves every block alone that it does not overlap. -/
theorem holds_store_of_disjoint {mem : Memory α} {offset a : Nat} {block other : List α}
    (h : mem.Holds a other)
    (hdisj : a + other.length ≤ offset ∨ offset + block.length ≤ a) :
    (mem.store offset block).Holds a other := by
  unfold Holds
  have hsame : (mem.store offset block).load a other.length = mem.load a other.length := by
    apply load_congr
    intro i hlo hhi
    rcases hdisj with hleft | hright
    · exact store_of_lt mem block (by omega)
    · exact store_of_le mem (by omega)
  rw [hsame, h]

private theorem load_eq_of_getElem? {mem : Memory α} {offset : Nat} {block : List α}
    (h : ∀ i, i < block.length → some (mem (offset + i)) = block[i]?) :
    mem.load offset block.length = block := by
  induction block generalizing offset with
  | nil => rfl
  | cons a rest ih =>
      have hhead := h 0 (by simp)
      rw [List.getElem?_cons_zero, Option.some_inj, Nat.add_zero] at hhead
      rw [List.length_cons, load, hhead, ih]
      intro i hi
      have := h (i + 1) (by simpa using hi)
      rwa [List.getElem?_cons_succ, ← Nat.add_assoc, Nat.add_right_comm] at this

theorem holds_store_self (mem : Memory α) (offset : Nat) (block : List α) :
    (mem.store offset block).Holds offset block := by
  apply load_eq_of_getElem?
  intro i hi
  rw [store, if_neg (by omega), Nat.add_sub_cancel_left, List.getElem?_eq_getElem hi,
    Option.getD_some]

/-- Storing right behind a block makes the block longer. -/
theorem holds_store_append {mem : Memory α} {offset : Nat} {front : List α}
    (h : mem.Holds offset front) (back : List α) :
    (mem.store (offset + front.length) back).Holds offset (front ++ back) :=
  holds_append.mpr ⟨holds_store_of_disjoint h (.inl (Nat.le_refl _)), holds_store_self _ _ _⟩

end Memory

end InMemoryFuzzing.Base
