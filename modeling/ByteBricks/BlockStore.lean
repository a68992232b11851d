/-! # Block Stores

  A growing store whose elements never move. They lie in blocks, each of which has
  twice the capacity of the one before, and a block takes no element beyond its
  capacity. An element is referred to by the number of elements stored before it. -/

namespace ByteBricks

/-- A reference to an element of a block store. -/
structure Handle where
  /-- The number of elements stored before it. -/
  raw : Nat
  deriving DecidableEq, Repr

/-- A short text for a reference. -/
def Handle.describe (h : Handle) : String := "#" ++ toString h.raw

/-- A store of elements in blocks of doubling capacity. -/
structure BlockStore (α : Type) where
  /-- The blocks in order. -/
  blocks : Array (Array α)
  /-- The number of elements. -/
  size : Nat

namespace BlockStore

variable {α : Type}

/-- The capacity of the first block. -/
def firstCapacity : Nat := 64

/-- The capacity of a block. -/
def capacity (block : Nat) : Nat := firstCapacity <<< block

/-- The number of elements in the blocks before a block. They have room for as many as
    it has itself, but for the capacity of the first. -/
def base (block : Nat) : Nat := capacity block - firstCapacity

/-- The block of the element at a position, and its place in the block. -/
def locate (position : Nat) : Nat × Nat :=
  let block := (position / firstCapacity + 1).log2
  (block, position - base block)

/-- The store without elements, which has room for the first block. -/
def empty : BlockStore α := ⟨#[#[]], 0⟩

instance : Inhabited (BlockStore α) := ⟨empty⟩

/-- The blocks that one more element is put into. A new block is opened when the last
    one is full. -/
def opened (s : BlockStore α) : Array (Array α) :=
  if (locate s.size).1 = s.blocks.size then s.blocks.push #[] else s.blocks

/-- Appends an element. -/
def push (s : BlockStore α) (a : α) : Handle × BlockStore α :=
  (⟨s.size⟩, ⟨s.opened.modify (locate s.size).1 (·.push a), s.size + 1⟩)

/-- The element that a handle refers to. -/
def get? (s : BlockStore α) (h : Handle) : Option α :=
  if h.raw < s.size then
    let (block, place) := locate h.raw
    s.blocks[block]?.bind (·[place]?)
  else none

/-- Replaces the element that a handle refers to, if there is one. -/
def set (s : BlockStore α) (h : Handle) (a : α) : BlockStore α :=
  if h.raw < s.size then
    let (block, place) := locate h.raw
    { s with blocks := s.blocks.modify block (·.setIfInBounds place a) }
  else s

/-- Changes the element that a handle refers to, if there is one. -/
def modify (s : BlockStore α) (h : Handle) (f : α → α) : BlockStore α :=
  match s.get? h with
  | some a => s.set h (f a)
  | none => s

/-- Removes all elements. The first block stays, and has no elements. -/
def clear (s : BlockStore α) : BlockStore α := ⟨(s.blocks.take 1).modify 0 fun _ => #[], 0⟩

/-- Whether there are no elements. -/
def isEmpty (s : BlockStore α) : Bool := s.size == 0

/-- The elements in the order in which they were stored. -/
def toList (s : BlockStore α) : List α := s.blocks.toList.flatMap Array.toList

/-- The elements in brackets, separated by commas. -/
def describe (element : α → String) (s : BlockStore α) : String :=
  "[" ++ ", ".intercalate (s.toList.map element) ++ "]"

end BlockStore

end ByteBricks
