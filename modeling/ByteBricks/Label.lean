/-! # Labels

  The names of bricks and struct definitions hold at most 31 bytes of UTF-8. A
  longer name is cut after the last character that fits as a whole. -/

namespace ByteBricks

/-- The largest number of UTF-8 bytes of a label. -/
def Label.maxSize : Nat := 31

/-- A name of at most 31 bytes. -/
@[ext] structure Label where
  /-- The text of the name. -/
  text : String
  /-- The text is short enough. -/
  size_le : text.utf8ByteSize ≤ Label.maxSize
  deriving DecidableEq

namespace Label

/-- The leading characters that fit into `budget` bytes of UTF-8; the first
    character that does not fit ends the list. -/
def takeBytes : (budget : Nat) → List Char → List Char
  | _, [] => []
  | budget, c :: cs => if c.utf8Size ≤ budget then c :: takeBytes (budget - c.utf8Size) cs else []

theorem utf8ByteSize_takeBytes_le (budget : Nat) (cs : List Char) :
    (String.ofList (takeBytes budget cs)).utf8ByteSize ≤ budget := by
  induction cs generalizing budget with
  | nil => simp [takeBytes]
  | cons c cs ih =>
    unfold takeBytes
    split
    · next fits =>
      have rest := ih (budget - c.utf8Size)
      rw [String.ofList_cons, String.utf8ByteSize_append, String.utf8ByteSize_singleton]
      omega
    · simp

/-- The label of a name, which is cut if it is too long. -/
def ofString (name : String) : Label where
  text := String.ofList (takeBytes maxSize name.toList)
  size_le := utf8ByteSize_takeBytes_le maxSize name.toList

/-- All characters fit into as many bytes as they have. -/
theorem takeBytes_eq_self {budget : Nat} {cs : List Char}
    (h : (String.ofList cs).utf8ByteSize ≤ budget) : takeBytes budget cs = cs := by
  induction cs generalizing budget with
  | nil => rfl
  | cons c cs ih =>
    rw [String.ofList_cons, String.utf8ByteSize_append, String.utf8ByteSize_singleton] at h
    have fits : c.utf8Size ≤ budget := by omega
    have rest : takeBytes (budget - c.utf8Size) cs = cs := ih (by omega)
    rw [takeBytes, if_pos fits, rest]

/-- A name that is short enough is not cut. -/
theorem text_ofString {name : String} (h : name.utf8ByteSize ≤ maxSize) :
    (ofString name).text = name := by
  have hsize : (String.ofList name.toList).utf8ByteSize ≤ maxSize := by
    rw [String.ofList_toList]
    exact h
  show String.ofList (takeBytes maxSize name.toList) = name
  rw [takeBytes_eq_self hsize, String.ofList_toList]

instance : Inhabited Label := ⟨ofString ""⟩

end Label

end ByteBricks
