import ByteBricks.BlockStore
import Mathlib.Data.Nat.Log
import Mathlib.Tactic.Ring

/-! # Block Stores as Lists

  A store shows the list of its elements in the order in which they were stored. All blocks
  but the last one are full, which makes the block and the place of an element known from its
  position alone. Main statement: whatever is done to a store, it shows the list to which the
  same is done, and no block grows beyond its capacity. -/

namespace ByteBricks.BlockStore

variable {α : Type}

/-! ### Capacities -/

theorem capacity_eq (block : Nat) : capacity block = 64 * 2 ^ block :=
  Nat.shiftLeft_eq 64 block

theorem capacity_mono {k k' : Nat} (h : k ≤ k') : capacity k ≤ capacity k' := by
  rw [capacity_eq, capacity_eq]
  exact Nat.mul_le_mul_left _ (Nat.pow_le_pow_right (by omega) h)

theorem base_eq (block : Nat) : base block = 64 * 2 ^ block - 64 := by
  rw [← capacity_eq]
  rfl

/-- The elements of a block begin where those of the block before it end. -/
theorem base_succ (block : Nat) : base (block + 1) = base block + capacity block := by
  have hpos := Nat.two_pow_pos block
  rw [base_eq, base_eq, capacity_eq, Nat.pow_succ]
  omega

/-! ### Positions -/

/-- The positions of a block are those from its base on, as many as its capacity. -/
theorem locate_base_add {block place : Nat} (h : place < capacity block) :
    locate (base block + place) = (block, place) := by
  have hpos := Nat.two_pow_pos block
  have hlog : ((base block + place) / 64 + 1).log2 = block := by
    rw [capacity_eq] at h
    rw [base_eq]
    apply (Nat.log2_eq_iff (by omega)).2
    rw [Nat.pow_succ]
    omega
  show (((base block + place) / 64 + 1).log2, _ - base ((base block + place) / 64 + 1).log2) = _
  rw [hlog, Nat.add_sub_cancel_left]

/-- A position behind the base of a block is in the block, or behind the base of the next. -/
theorem locate_cases (block i : Nat) :
    i < capacity block ∧ locate (base block + i) = (block + 0, i) ∨
      ∃ j, i = capacity block + j ∧ base block + i = base (block + 1) + j := by
  by_cases hi : i < capacity block
  · exact .inl ⟨hi, locate_base_add hi⟩
  · have hbase := base_succ block
    exact .inr ⟨i - capacity block, by omega, by omega⟩

/-! ### Filled Blocks -/

/-- Blocks from a number on hold a list. All but the last one are full. -/
inductive Filled : (block : Nat) → List (Array α) → List α → Prop where
  /-- The last block has room. -/
  | last {block : Nat} {b : Array α} : b.size ≤ capacity block → Filled block [b] b.toList
  /-- A full block has others behind it. -/
  | full {block : Nat} {b : Array α} {bs : List (Array α)} {l : List α} :
    b.size = capacity block → Filled (block + 1) bs l → Filled block (b :: bs) (b.toList ++ l)

namespace Filled

variable {block : Nat} {bs : List (Array α)} {l : List α}

theorem flatMap_toList (h : Filled block bs l) : bs.flatMap Array.toList = l := by
  induction h with
  | last hsize => simp
  | full hsize hrest ih => rw [List.flatMap_cons, ih]

theorem ne_nil (h : Filled block bs l) : bs ≠ [] := by
  cases h <;> simp

/-- No block holds more than its capacity. -/
theorem size_le (h : Filled block bs l) {k : Nat} {b : Array α} (hk : bs[k]? = some b) :
    b.size ≤ capacity (block + k) := by
  induction h generalizing k with
  | last hsize =>
    obtain ⟨rfl, rfl⟩ : k = 0 ∧ _ = b := by simpa [List.getElem?_singleton] using hk
    exact hsize
  | @full block b' bs l hsize hrest ih =>
    cases k with
    | zero =>
      cases hk
      exact Nat.le_of_eq hsize
    | succ k =>
      have hle := ih hk
      rwa [Nat.add_right_comm, Nat.add_assoc] at hle

/-- All blocks in front of the last one count. -/
theorem base_le (h : Filled block bs l) :
    base (block + (bs.length - 1)) ≤ base block + l.length := by
  induction h with
  | last hsize => simp
  | @full block b bs l hsize hrest ih =>
    have hne := List.length_pos_iff.2 hrest.ne_nil
    have hbase := base_succ block
    have hlast : block + ((b :: bs).length - 1) = block + 1 + (bs.length - 1) := by
      rw [List.length_cons]
      omega
    have hb : b.toList.length = b.size := Array.length_toList
    rw [hlast, List.length_append]
    omega

/-- An element is found at the place of its position, where another one may take its place. -/
theorem element (h : Filled block bs l) {i : Nat} (hi : i < l.length) :
    ∃ k place, locate (base block + i) = (block + k, place) ∧
      bs[k]?.bind (·[place]?) = l[i]? ∧
      ∀ a, Filled block (bs.modify k (·.setIfInBounds place a)) (l.set i a) := by
  induction h generalizing i with
  | @last block b hsize =>
    rw [Array.length_toList] at hi
    refine ⟨0, i, locate_base_add (by omega), by simp, fun a => ?_⟩
    have hset : (b.setIfInBounds i a).toList = b.toList.set i a := Array.toList_setIfInBounds
    rw [← hset]
    exact .last (by simpa using hsize)
  | @full block b bs l hsize hrest ih =>
    have hb : b.toList.length = b.size := Array.length_toList
    rw [List.length_append] at hi
    rcases locate_cases block i with ⟨hlt, hlocate⟩ | ⟨j, rfl, hbehind⟩
    · refine ⟨0, i, hlocate, ?_, fun a => ?_⟩
      · rw [List.getElem?_append_left (by omega)]
        simp
      · have hset : (b.setIfInBounds i a).toList = b.toList.set i a := Array.toList_setIfInBounds
        rw [List.set_append_left _ _ (by omega), ← hset]
        exact .full (by simpa using hsize) hrest
    · obtain ⟨k, place, hlocate, hget, hset⟩ := ih (i := j) (by omega)
      refine ⟨k + 1, place, ?_, ?_, fun a => ?_⟩
      · rw [hbehind, hlocate, Nat.add_right_comm, Nat.add_assoc]
      · rw [List.getElem?_append_right (by omega), hb, hsize, Nat.add_sub_cancel_left]
        exact hget
      · rw [List.set_append_right _ _ (by omega), hb, hsize, Nat.add_sub_cancel_left]
        exact .full hsize (hset a)

/-- The block of the next element is there, or it is the one to be opened. -/
theorem next (h : Filled block bs l) :
    ∃ k place, locate (base block + l.length) = (block + k, place) ∧ k ≤ bs.length ∧
      ∀ a, Filled block ((if k = bs.length then bs ++ [#[]] else bs).modify k (·.push a))
        (l ++ [a]) := by
  induction h with
  | @last block b hsize =>
    have hb : b.toList.length = b.size := Array.length_toList
    rcases locate_cases block b.toList.length with ⟨hlt, hlocate⟩ | ⟨j, hj, hbehind⟩
    · refine ⟨0, _, hlocate, by simp, fun a => ?_⟩
      have hpush : (b.push a).toList = b.toList ++ [a] := Array.toList_push
      rw [if_neg (by simp), ← hpush]
      exact .last (by rw [Array.size_push]; omega)
    · -- The last block is full, so the element goes into a new one.
      obtain rfl : j = 0 := by omega
      have hroom : 0 < capacity (block + 1) :=
        Nat.lt_of_lt_of_le (by decide) (capacity_mono (Nat.zero_le _))
      refine ⟨1, 0, by rw [hbehind]; exact locate_base_add hroom, by simp, fun a => ?_⟩
      exact .full (by omega) (.last hroom)
  | @full block b bs l hsize hrest ih =>
    have hb : b.toList.length = b.size := Array.length_toList
    obtain ⟨k, place, hlocate, hle, hpush⟩ := ih
    refine ⟨k + 1, place, ?_, by simpa using hle, fun a => ?_⟩
    · rw [List.length_append, hb, hsize, ← Nat.add_assoc, ← base_succ, hlocate,
        Nat.add_right_comm, Nat.add_assoc]
    · have hfilled := Filled.full hsize (hpush a)
      rw [← List.append_assoc] at hfilled
      by_cases hk : k = bs.length
      · rw [if_pos hk] at hfilled
        rw [if_pos (by simpa using hk)]
        exact hfilled
      · rw [if_neg hk] at hfilled
        rw [if_neg (by simpa using hk)]
        exact hfilled

end Filled

/-! ### Stores -/

/-- The store holds the elements of a list. -/
structure Holds (s : BlockStore α) (l : List α) : Prop where
  /-- It counts its elements. -/
  size : s.size = l.length
  /-- Its blocks are filled one after the other. -/
  filled : Filled 0 s.blocks.toList l

theorem base_zero : base 0 = 0 := rfl

theorem holds_empty : (empty : BlockStore α).Holds [] where
  size := rfl
  filled := .last (Nat.zero_le _)

namespace Holds

variable {s : BlockStore α} {l : List α}

theorem get? (h : s.Holds l) (i : Handle) : s.get? i = l[i.raw]? := by
  unfold BlockStore.get?
  split
  · next hi =>
    rw [h.size] at hi
    obtain ⟨k, place, hlocate, hget, -⟩ := h.filled.element hi
    rw [base_zero, Nat.zero_add, Nat.zero_add] at hlocate
    rw [hlocate, ← hget]
    simp
  · next hi =>
    rw [h.size] at hi
    exact (List.getElem?_eq_none (Nat.le_of_not_lt hi)).symm

theorem toList (h : s.Holds l) : s.toList = l := h.filled.flatMap_toList

theorem set (h : s.Holds l) (i : Handle) (a : α) : (s.set i a).Holds (l.set i.raw a) := by
  by_cases hi : i.raw < l.length
  · obtain ⟨k, place, hlocate, -, hset⟩ := h.filled.element hi
    rw [base_zero, Nat.zero_add, Nat.zero_add] at hlocate
    unfold BlockStore.set
    rw [h.size, if_pos hi, hlocate]
    constructor
    · rw [List.length_set]
    · show Filled 0 (s.blocks.modify k _).toList _
      rw [Array.toList_modify]
      exact hset a
  · unfold BlockStore.set
    rw [h.size, if_neg hi, List.set_eq_of_length_le (Nat.le_of_not_lt hi)]
    exact h

/-- The blocks of the next element are those that there are, or one more. -/
theorem opened (h : s.Holds l) : ∃ k place, locate s.size = (k, place) ∧
    s.opened.toList =
      (if k = s.blocks.toList.length then s.blocks.toList ++ [#[]] else s.blocks.toList) ∧
    k ≤ s.blocks.toList.length ∧
    ∀ a, Filled 0 (s.opened.toList.modify k (·.push a)) (l ++ [a]) := by
  obtain ⟨k, place, hlocate, hle, hpush⟩ := h.filled.next
  rw [base_zero, Nat.zero_add, Nat.zero_add, ← h.size] at hlocate
  have hopened : s.opened.toList =
      if k = s.blocks.toList.length then s.blocks.toList ++ [#[]] else s.blocks.toList := by
    unfold BlockStore.opened
    rw [hlocate, Array.length_toList]
    split
    · rw [Array.toList_push]
    · rfl
  refine ⟨k, place, hlocate, hopened, hle, fun a => ?_⟩
  rw [hopened]
  exact hpush a

/-- The block of the next element is there once it has been opened. -/
theorem room (h : s.Holds l) : (locate s.size).1 < s.opened.size := by
  obtain ⟨k, place, hlocate, hopened, hle, -⟩ := h.opened
  rw [← Array.length_toList, hopened, hlocate]
  by_cases hk : k = s.blocks.toList.length
  · rw [if_pos hk, List.length_append, List.length_singleton]
    show k < _
    omega
  · rw [if_neg hk]
    show k < _
    omega

theorem push (h : s.Holds l) (a : α) : (s.push a).2.Holds (l ++ [a]) := by
  obtain ⟨k, place, hlocate, -, -, hpush⟩ := h.opened
  constructor
  · show s.size + 1 = _
    rw [List.length_append, h.size]
    rfl
  · show Filled 0 (s.opened.modify (locate s.size).1 _).toList _
    rw [hlocate, Array.toList_modify]
    exact hpush a

/-- A store that is cleared is the empty one. -/
theorem clear (h : s.Holds l) : s.clear = empty := by
  obtain ⟨b, bs, hblocks⟩ := List.exists_cons_of_ne_nil h.filled.ne_nil
  obtain ⟨blocks, size⟩ := s
  have hblocks : blocks = (b :: bs).toArray := by rw [← hblocks]
  subst hblocks
  simp [BlockStore.clear, empty, Array.modify, Array.modifyM]

end Holds

/-! ### Histories -/

/-- What is done to a store. -/
inductive Use (α : Type) where
  /-- An element is appended. -/
  | push (a : α)
  /-- The element that a handle refers to is replaced. -/
  | set (h : Handle) (a : α)
  /-- All elements are removed. -/
  | clear

/-- The store after it has been used. -/
def Use.store (s : BlockStore α) : Use α → BlockStore α
  | .push a => (s.push a).2
  | .set h a => s.set h a
  | .clear => s.clear

/-- What the use does to a list. -/
def Use.list (l : List α) : Use α → List α
  | .push a => l ++ [a]
  | .set h a => l.set h.raw a
  | .clear => []

theorem Holds.use {s : BlockStore α} {l : List α} (h : s.Holds l) (u : Use α) :
    (u.store s).Holds (u.list l) := by
  cases u with
  | push a => exact h.push a
  | set i a => exact h.set i a
  | clear =>
    show s.clear.Holds []
    rw [h.clear]
    exact holds_empty

theorem Holds.uses {s : BlockStore α} {l : List α} (h : s.Holds l) (us : List (Use α)) :
    (us.foldl Use.store s).Holds (us.foldl Use.list l) := by
  induction us generalizing s l with
  | nil => exact h
  | cons u us ih => exact ih (h.use u)

/-- What a store shows that stands for a list. -/
structure Shows (s : BlockStore α) (l : List α) : Prop where
  /-- It has as many elements. -/
  size : s.size = l.length
  /-- It is empty if the list is. -/
  isEmpty : s.isEmpty = l.isEmpty
  /-- A handle leads to the element at its index, and to none from the length of the list on. -/
  get? : ∀ h : Handle, s.get? h = l[h.raw]?
  /-- All elements are listed in their order. -/
  toList : s.toList = l
  /-- The next handle is the length of the list. -/
  fresh : ∀ a, (s.push a).1 = ⟨l.length⟩
  /-- The block of the next element is there once it has been opened. -/
  room : (locate s.size).1 < s.opened.size
  /-- An element is replaced, and no other. -/
  set : ∀ (h : Handle) (a : α), h.raw < l.length →
    ∀ h' : Handle, (s.set h a).get? h' = if h' = h then some a else s.get? h'
  /-- No block has more elements than it was made for. -/
  bounded : ∀ (k : Nat) (b : Array α), s.blocks[k]? = some b →
    b.size ≤ capacity k ∧ capacity k = 64 * 2 ^ k
  /-- The elements that 32 bits can count lie in 27 blocks. -/
  few : l.length ≤ 2 ^ 32 → s.blocks.size ≤ 27

theorem Holds.shows {s : BlockStore α} {l : List α} (h : s.Holds l) : s.Shows l where
  size := h.size
  isEmpty := by
    unfold BlockStore.isEmpty
    rw [h.size]
    cases l <;> rfl
  get? := h.get?
  toList := h.toList
  fresh a := by rw [← h.size]; rfl
  room := h.room
  set i a hi i' := by
    rw [(h.set i a).get? i', h.get? i', List.getElem?_set]
    by_cases heq : i' = i
    · subst heq
      simp [hi]
    · have hraw : i.raw ≠ i'.raw := by
        rintro hraw
        obtain ⟨i⟩ := i
        obtain ⟨i'⟩ := i'
        exact heq (congrArg Handle.mk hraw.symm)
      simp [heq, hraw]
  bounded k b hk := by
    refine ⟨?_, capacity_eq k⟩
    rw [← Array.getElem?_toList] at hk
    have hle := h.filled.size_le hk
    rwa [Nat.zero_add] at hle
  few hl := by
    have hle := h.filled.base_le
    rw [base_zero, Nat.zero_add, Nat.zero_add, Array.length_toList, base_eq] at hle
    by_contra hmany
    have hpow : 2 ^ 27 ≤ 2 ^ (s.blocks.size - 1) := Nat.pow_le_pow_right (by decide) (by omega)
    omega

/-- **Main theorem.** A store that is used in any way shows the list that is used in the same
    way. -/
theorem shows_of_uses (us : List (Use α)) :
    (us.foldl Use.store empty).Shows (us.foldl Use.list []) :=
  (holds_empty.uses us).shows

end ByteBricks.BlockStore
