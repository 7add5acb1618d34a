import Open3DStream.Lib.Buffer

/-! Heaps of blocks that are allocated, moved and freed. -/

namespace Open3DStream.Lib

variable {γ : Type}

/-- The blocks that were ever allocated, each at its number; those that were freed are gone. -/
structure Heap (γ : Type) where
  blocks : List (Option (List γ))
deriving DecidableEq

/-- What becomes of a request for memory. A block that is to be resized may stay where it is. -/
inductive Allocation where
  | fails | inPlace | moves
deriving DecidableEq

namespace Heap

/-- The live block that a pointer designates; `none` is the null pointer. -/
def block (h : Heap γ) (p : Option Nat) : Option (List γ) := p.bind fun i => h.blocks[i]?.join

def put (h : Heap γ) (i : Nat) (b : Option (List γ)) : Heap γ := ⟨h.blocks.set i b⟩

def alloc (h : Heap γ) (b : List γ) : Option Nat × Heap γ :=
  (some h.blocks.length, ⟨h.blocks ++ [some b]⟩)

/-- A copy to the start of a block, which has to be live and long enough. -/
def store (h : Heap γ) (p : Option Nat) (bytes : List γ) : Option (Heap γ) := do
  let i ← p
  let b ← h.block p
  if bytes.length ≤ b.length then some (h.put i (some (overwrite b 0 bytes))) else none

section allocator

variable [Inhabited γ]

def malloc (h : Heap γ) (n : Nat) : Allocation → Option Nat × Heap γ
  | .fails => (none, h)
  | _ => h.alloc (resize [] n)

/-- The new size is not zero. -/
def realloc (h : Heap γ) (p : Option Nat) (n : Nat) (how : Allocation) :
    Option (Option Nat × Heap γ) :=
  match p with
  | none => some (h.malloc n how)
  | some i => do
    let b ← h.block (some i)
    match how with
    | .fails => some (none, h)
    | .inPlace => some (some i, h.put i (some (resize b n)))
    | .moves => some ((h.put i none).alloc (resize b n))

end allocator

variable {h h' : Heap γ} {p q : Option Nat} {b : List γ}

theorem lt_of_block {i : Nat} (hb : h.block (some i) = some b) : i < h.blocks.length := by
  rw [block, Option.bind_some, Option.join_eq_some_iff] at hb
  exact (List.getElem?_eq_some_iff.mp hb).1

theorem block_put {i : Nat} (hi : i < h.blocks.length) (b : Option (List γ)) :
    (h.put i b).block (some i) = b := by
  rw [block, Option.bind_some, put, List.getElem?_set_self hi, Option.join_some]

theorem block_alloc_fst (h : Heap γ) (b : List γ) : (h.alloc b).2.block (h.alloc b).1 = some b := by
  rw [alloc, block, Option.bind_some, List.getElem?_concat_length, Option.join_some]

theorem block_alloc_of_lt {i : Nat} (hi : i < h.blocks.length) (b : List γ) :
    (h.alloc b).2.block (some i) = h.block (some i) := by
  rw [alloc, block, Option.bind_some, List.getElem?_append_left hi, block, Option.bind_some]

theorem store_of_block {i : Nat} (hb : h.block (some i) = some b) {bytes : List γ}
    (hle : bytes.length ≤ b.length) :
    h.store (some i) bytes = some (h.put i (some (overwrite b 0 bytes))) := by
  rw [store, Option.bind_eq_bind, Option.bind_some, hb, Option.bind_eq_bind, Option.bind_some,
    if_pos hle]

theorem store_dead (hb : h.block p = none) (bytes : List γ) : h.store p bytes = none := by
  cases p with
  | none => rfl
  | some i => rw [store, Option.bind_eq_bind, Option.bind_some, hb, Option.bind_eq_bind, Option.bind_none]

/-- There is room for a copy, which leaves what lies behind it. -/
theorem store_of_le (hb : h.block p = some b) {bytes : List γ} (hle : bytes.length ≤ b.length) :
    ∃ h', h.store p bytes = some h' ∧ h'.block p = some (bytes ++ b.drop bytes.length) := by
  cases p with
  | none => cases hb
  | some i =>
    refine ⟨_, store_of_block hb hle, ?_⟩
    rw [block_put (lt_of_block hb), overwrite, List.take_zero, List.nil_append, Nat.zero_add]

variable [Inhabited γ]

theorem realloc_of_block {i : Nat} (hb : h.block (some i) = some b) (n : Nat) (how : Allocation) :
    h.realloc (some i) n how = some (match how with
      | .fails => (none, h)
      | .inPlace => (some i, h.put i (some (resize b n)))
      | .moves => (h.put i none).alloc (resize b n)) := by
  rw [realloc, hb]
  cases how <;> rfl

theorem realloc_fails (hb : h.block p = some b) (n : Nat) : h.realloc p n .fails = some (none, h) := by
  cases p with
  | none => cases hb
  | some i => rw [realloc_of_block hb]

/-- A live block that is resized is found in its place or, when it has moved, in a new one only. -/
theorem realloc_live (hb : h.block p = some b) (n : Nat) {how : Allocation} (hne : how ≠ .fails) :
    ∃ q h', h.realloc p n how = some (q, h') ∧ q ≠ none ∧ h'.block q = some (resize b n) ∧
      (how = .inPlace → q = p) ∧ (how = .moves → h'.block p = none) := by
  cases p with
  | none => cases hb
  | some i =>
    have hi := lt_of_block hb
    rw [realloc_of_block hb]
    cases how with
    | fails => exact absurd rfl hne
    | inPlace =>
      exact ⟨_, _, rfl, Option.some_ne_none i, block_put hi _, fun _ => rfl, fun h => by cases h⟩
    | moves =>
      have hdead : ((h.put i none).alloc (resize b n)).2.block (some i) = none := by
        rw [block_alloc_of_lt ((List.length_set ..).symm ▸ hi), block_put hi]
      exact ⟨_, _, rfl, Option.some_ne_none _, block_alloc_fst _ _, fun h => (by cases h), fun _ => hdead⟩

end Heap

end Open3DStream.Lib
