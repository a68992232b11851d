import ByteBricks.Label
import Mathlib.Order.Bounds.Basic

/-! # Cutting Names

  A name that is too long is cut at the last boundary between two characters that is within
  the limit. The boundary can be searched for byte by byte, from the limit back to the front:
  a character has at most four bytes, so the search ends soon. Main statement: a label is the
  longest beginning of its name that fits, which the first bytes of the name determine. -/

namespace ByteBricks.Label

variable {name other : String} {e position : Nat}

/-! ### Boundaries -/

/-- Whether a character of the text begins at a byte, or the text ends there. -/
def IsBoundary (name : String) (position : Nat) : Prop := String.Pos.Raw.IsValid name ⟨position⟩

instance (name : String) (position : Nat) : Decidable (IsBoundary name position) :=
  inferInstanceAs (Decidable (String.Pos.Raw.IsValid name ⟨position⟩))

theorem IsBoundary.le_size (h : IsBoundary name position) : position ≤ name.utf8ByteSize :=
  String.Pos.Raw.IsValid.le_utf8ByteSize h

theorem isBoundary_append {front back : String} : IsBoundary (front ++ back) position ↔
    IsBoundary front position ∨
      front.utf8ByteSize ≤ position ∧ IsBoundary back (position - front.utf8ByteSize) :=
  String.Pos.Raw.isValid_append

/-- No boundary is inside of a character. -/
theorem isBoundary_singleton {c : Char} :
    IsBoundary (String.singleton c) position ↔ position = 0 ∨ position = c.utf8Size := by
  unfold IsBoundary
  rw [String.Pos.Raw.isValid_singleton, String.Pos.Raw.ext_iff]
  rfl

/-- The bytes in front of a position tell whether it is a boundary. -/
theorem isBoundary_congr {limit : Nat} (hle : position ≤ limit)
    (h : other.toByteArray.extract 0 limit = name.toByteArray.extract 0 limit) :
    IsBoundary other position ↔ IsBoundary name position := by
  have hsize : min limit other.utf8ByteSize = min limit name.utf8ByteSize := by
    simpa using congrArg ByteArray.size h
  have hbytes : other.toByteArray.extract 0 position = name.toByteArray.extract 0 position := by
    have hextract := congrArg (·.extract 0 position) h
    simpa [ByteArray.extract_extract, Nat.min_eq_left hle] using hextract
  unfold IsBoundary
  rw [String.Pos.Raw.isValid_iff_isValidUTF8_extract_zero,
    String.Pos.Raw.isValid_iff_isValidUTF8_extract_zero]
  show position ≤ other.utf8ByteSize ∧ _ ↔ position ≤ name.utf8ByteSize ∧ _
  rw [hbytes, show position ≤ other.utf8ByteSize ↔ position ≤ name.utf8ByteSize by omega]

/-- The boundary that is met first on the way back from a position, one byte at a time. There
    is none if the way leads in front of the text. -/
def boundaryBefore? (name : String) : Nat → Option Nat
  | 0 => if IsBoundary name 0 then some 0 else none
  | position + 1 =>
    if IsBoundary name (position + 1) then some (position + 1) else boundaryBefore? name position

/-- The way back leads to the greatest boundary. -/
theorem boundaryBefore?_eq_some
    (h : IsGreatest {e | e ≤ position ∧ IsBoundary name e} e) :
    boundaryBefore? name position = some e := by
  induction position with
  | zero =>
    obtain rfl : e = 0 := Nat.le_zero.1 h.1.1
    exact if_pos h.1.2
  | succ position ih =>
    rw [boundaryBefore?]
    split
    · next hboundary =>
      have hle := h.2 ⟨Nat.le_refl _, hboundary⟩
      rw [Nat.le_antisymm h.1.1 hle]
    · next hboundary =>
      have hne : e ≠ position + 1 := by
        rintro rfl
        exact hboundary h.1.2
      have hle := h.1.1
      exact ih ⟨⟨by omega, h.1.2⟩, fun p hp => h.2 ⟨Nat.le_succ_of_le hp.1, hp.2⟩⟩

/-! ### Cuts -/

/-- What does not fit any more begins with a character that is too long. -/
theorem takeBytes_append_rest (budget : Nat) (cs : List Char) :
    ∃ rest, cs = takeBytes budget cs ++ rest ∧ ∀ c ∈ rest.head?,
      budget < (String.ofList (takeBytes budget cs)).utf8ByteSize + c.utf8Size := by
  induction cs generalizing budget with
  | nil => exact ⟨[], rfl, by simp⟩
  | cons c cs ih =>
    rw [takeBytes]
    split
    · next hfits =>
      obtain ⟨rest, hcs, hrest⟩ := ih (budget - c.utf8Size)
      refine ⟨rest, congrArg (c :: ·) hcs, fun d hd => ?_⟩
      have hlt := hrest d hd
      rw [String.ofList_cons, String.utf8ByteSize_append, String.utf8ByteSize_singleton]
      omega
    · next hfits =>
      refine ⟨c :: cs, rfl, fun d hd => ?_⟩
      obtain rfl : c = d := by simpa using hd
      simp
      omega

/-- A label is a beginning of its name, and the next character does not fit. -/
theorem exists_rest (name : String) :
    ∃ rest : List Char, name = (ofString name).text ++ String.ofList rest ∧
      ∀ c ∈ rest.head?, maxSize < (ofString name).text.utf8ByteSize + c.utf8Size := by
  obtain ⟨rest, hname, hrest⟩ := takeBytes_append_rest maxSize name.toList
  refine ⟨rest, ?_, hrest⟩
  show name = String.ofList (takeBytes maxSize name.toList) ++ _
  rw [← String.ofList_append, ← hname, String.ofList_toList]

/-- A label ends at the last boundary within the limit. -/
theorem isGreatest_size (name : String) :
    IsGreatest {e | e ≤ maxSize ∧ IsBoundary name e} (ofString name).text.utf8ByteSize := by
  obtain ⟨rest, hname, hrest⟩ := exists_rest name
  constructor
  · have hend : IsBoundary ((ofString name).text ++ String.ofList rest)
        (ofString name).text.utf8ByteSize :=
      isBoundary_append.2 (.inl String.Pos.Raw.isValid_rawEndPos)
    rw [← hname] at hend
    exact ⟨(ofString name).size_le, hend⟩
  · rintro e ⟨hle, he⟩
    -- A boundary behind the label is behind the character that does not fit.
    rw [hname, isBoundary_append] at he
    rcases he with hfront | ⟨hstart, hback⟩
    · exact hfront.le_size
    · cases rest with
      | nil =>
        have hend := hback.le_size
        simp at hend
        omega
      | cons c rest =>
        have hlt := hrest c rfl
        rw [String.ofList_cons, isBoundary_append, isBoundary_singleton,
          String.utf8ByteSize_singleton] at hback
        omega

/-- At the limit, or at the end of a shorter name, at most three bytes are cut off. -/
theorem le_size_add_three (name : String) :
    min name.utf8ByteSize maxSize ≤ (ofString name).text.utf8ByteSize + 3 := by
  obtain ⟨rest, hname, hrest⟩ := exists_rest name
  cases rest with
  | nil =>
    have hsize := congrArg String.utf8ByteSize hname
    simp at hsize
    omega
  | cons c rest =>
    have hlt := hrest c rfl
    have hfour := c.utf8Size_le_four
    omega

/-- The label is the name, cut as it should be. -/
structure IsCutOf (label : Label) (name : String) : Prop where
  /-- It is a beginning of the name. -/
  splits : ∃ rest, name = label.text ++ rest
  /-- It ends at the last boundary within the limit. -/
  longest : IsGreatest {e | e ≤ maxSize ∧ IsBoundary name e} label.text.utf8ByteSize
  /-- The way back from the limit, or from the end of a shorter name, leads there. -/
  found : boundaryBefore? name (min name.utf8ByteSize maxSize) = some label.text.utf8ByteSize
  /-- It has at most three steps. -/
  near : min name.utf8ByteSize maxSize ≤ label.text.utf8ByteSize + 3

theorem isCutOf_ofString (name : String) : (ofString name).IsCutOf name where
  splits := by
    obtain ⟨rest, hname, -⟩ := exists_rest name
    exact ⟨_, hname⟩
  longest := isGreatest_size name
  found := by
    -- All boundaries are within the name, so its end makes no difference to the limit.
    apply boundaryBefore?_eq_some
    refine ⟨⟨?_, (isGreatest_size name).1.2⟩, fun e he => (isGreatest_size name).2 ⟨?_, he.2⟩⟩
    · exact Nat.le_min.2 ⟨(isGreatest_size name).1.2.le_size, (ofString name).size_le⟩
    · exact Nat.le_trans he.1 (Nat.min_le_right _ _)
  near := le_size_add_three name

/-- A cut is made by its bytes. -/
theorem IsCutOf.toByteArray {label : Label} (h : label.IsCutOf name) :
    label.text.toByteArray = name.toByteArray.extract 0 label.text.utf8ByteSize := by
  obtain ⟨rest, hname⟩ := h.splits
  rw [hname, String.toByteArray_append]
  exact (ByteArray.extract_append_eq_left String.size_toByteArray.symm).symm

/-- Names that agree on as many bytes as the limit are cut alike. -/
theorem ofString_congr
    (h : other.toByteArray.extract 0 maxSize = name.toByteArray.extract 0 maxSize) :
    ofString other = ofString name := by
  have hcut := isCutOf_ofString name
  have hother := isCutOf_ofString other
  have hsize : (ofString other).text.utf8ByteSize = (ofString name).text.utf8ByteSize := by
    have hset : {e | e ≤ maxSize ∧ IsBoundary other e} = {e | e ≤ maxSize ∧ IsBoundary name e} := by
      ext e
      exact and_congr_right fun hle => isBoundary_congr hle h
    have hlongest := hother.longest
    rw [hset] at hlongest
    exact hlongest.unique hcut.longest
  apply Label.ext
  apply String.toByteArray_inj.1
  have hbytes := congrArg (·.extract 0 (ofString name).text.utf8ByteSize) h
  rw [hother.toByteArray, hcut.toByteArray, hsize]
  simpa [ByteArray.extract_extract, Nat.min_eq_left (ofString name).size_le] using hbytes

/-- **Main theorem.** A label is the longest beginning of its name that is within the limit and
    ends between two characters. From the limit, a search for its end takes at most three steps
    back and never leaves the name. Cutting a label changes nothing, and a name within the limit
    is not cut; names that agree on as many bytes as the limit get the same label. -/
theorem ofString_cuts (name : String) :
    (ofString name).IsCutOf name ∧
    ofString (ofString name).text = ofString name ∧
    (name.utf8ByteSize ≤ maxSize → (ofString name).text = name) ∧
    ∀ other : String,
      other.toByteArray.extract 0 maxSize = name.toByteArray.extract 0 maxSize →
        ofString other = ofString name := by
  refine ⟨isCutOf_ofString name, ?_, text_ofString, fun other h => ofString_congr h⟩
  apply Label.ext
  exact text_ofString (ofString name).size_le

end ByteBricks.Label
