import ByteBricks.Execution.Run
import Mathlib.Data.List.OfFn

/-! # Views with the Same Contents

  Bytes that the caller holds, bytes in memory and a file are read in ways of their own. What
  a read gives is settled by the bytes that the view holds, and an execution learns nothing
  else about its view. A file holds bytes only if it keeps them: it has their length, and no
  read of it fails or gives others. Main statement: views that hold the same bytes have the
  same length, answer all reads alike, and give the same execution. -/

namespace ByteBricks

/-! ### Contents -/

/-- The file keeps the bytes: as many as when it was opened, and a read within them fills its
    buffer with those that it asks for. -/
structure File.Keeps (f : File) (d : Array UInt8) : Prop where
  length : f.length = d.size
  readExact : ∀ offset count, offset + count ≤ d.size →
    ∃ bytes, f.readExact offset count = .ok bytes ∧ bytes.toList = sliceOf d offset count

namespace View

/-- The view holds the bytes. -/
def Holds (d : Array UInt8) : View → Prop
  | bytes b => b = d
  | input (.memory b) => b = d
  | input (.opened f) => f.Keeps d

/-- The view holds some bytes, so that no read of it fails within them. -/
def Steady (v : View) : Prop := ∃ d, v.Holds d

theorem steady_bytes (d : Array UInt8) : (bytes d).Steady := ⟨d, rfl⟩

theorem steady_memory (d : Array UInt8) : (input (.memory d)).Steady := ⟨d, rfl⟩

theorem sliceOf_eq (b : Array UInt8) (offset count : Nat) :
    sliceOf b offset count = (b.toList.drop offset).take count := by
  unfold sliceOf
  rw [Array.toList_extract, List.extract_eq_take_drop, Nat.add_sub_cancel_left]

theorem length_sliceOf {bytes : Array UInt8} {offset length : Nat}
    (h : offset + length ≤ bytes.size) : (sliceOf bytes offset length).length = length := by
  unfold sliceOf
  rw [Array.length_toList, Array.size_extract]
  omega

theorem getElem?_sliceOf (b : Array UInt8) {offset count k : Nat} (hk : k < count) :
    (sliceOf b offset count)[k]? = b[offset + k]? := by
  unfold sliceOf
  rw [Array.getElem?_toList, Array.getElem?_extract]
  split
  · rfl
  · next hout => exact (Array.getElem?_eq_none (by omega)).symm

/-- Only as many bytes are taken as there are behind the offset. -/
theorem take_min (l : List UInt8) (offset count : Nat) :
    (l.drop offset).take (min (l.length - offset) count) = (l.drop offset).take count := by
  rw [Nat.min_comm, ← List.length_drop, ← List.take_take, List.take_length]

/-- A file whose bytes are all known keeps them, and zeros behind them. -/
theorem keeps_padded (front : Array UInt8) (n : Nat) :
    (File.padded front n).Keeps (.ofFn fun k : Fin n => front.getD k 0) where
  length := Array.size_ofFn.symm
  readExact offset count h := by
    refine ⟨_, rfl, ?_⟩
    rw [Array.size_ofFn] at h
    apply List.ext_getElem?
    intro k
    by_cases hk : k < count
    · rw [getElem?_sliceOf _ hk, Array.getElem?_ofFn, dif_pos (by omega)]
      simp [hk]
    · rw [List.getElem?_eq_none (by simpa using hk), List.getElem?_eq_none]
      rw [length_sliceOf (by rwa [Array.size_ofFn])]
      omega

section Holds

variable {v : View} {d : Array UInt8}

theorem Holds.length (h : v.Holds d) : v.length = d.size := by
  cases v with
  | bytes b => exact congrArg Array.size h
  | input i =>
    cases i with
    | memory b => exact congrArg Array.size h
    | opened f => exact File.Keeps.length h

theorem Holds.isEmpty (h : v.Holds d) : v.isEmpty = d.isEmpty := by
  unfold View.isEmpty Array.isEmpty
  rw [h.length]
  rfl

/-- A read gives the bytes from its offset on, up to the end of its buffer or of what the view
    holds. It fails if and only if it starts behind the end. -/
theorem Holds.read (h : v.Holds d) (offset count : Nat) :
    v.read offset count =
      if d.size < offset then .error .beyondEnd
      else .ok ((d.toList.drop offset).take count) := by
  cases v with
  | bytes b =>
    have hb : b = d := h
    subst hb
    show (if b.size < offset then _ else Except.ok (sliceOf b offset count)) = _
    rw [sliceOf_eq]
  | input i =>
    cases i with
    | memory b =>
      have hb : b = d := h
      subst hb
      show (if b.size < offset then _ else
        Except.ok (sliceOf b offset (min (b.size - offset) count))) = _
      rw [sliceOf_eq, ← Array.length_toList, take_min]
    | opened f =>
      have hkeeps : f.Keeps d := h
      have hlength : (Input.opened f).length = d.size := hkeeps.length
      show (Input.opened f).read offset count = _
      unfold Input.read
      rw [hlength]
      split
      · rfl
      · next hin =>
        obtain ⟨bytes, hbytes, hlist⟩ :=
          hkeeps.readExact offset (min (d.size - offset) count) (by omega)
        dsimp only
        rw [hbytes]
        dsimp only
        rw [hlist, sliceOf_eq, ← Array.length_toList, take_min]

end Holds

/-- A read that ends before the data does gives all bytes that it asks for, unless the file
    cannot be read. -/
theorem read_cases {v : View} {offset count : Nat} (h : offset + count ≤ v.length) :
    (∃ bytes, v.read offset count = .ok bytes ∧ bytes.length = count) ∨
      ∃ e, v.read offset count = .error (.io e) := by
  cases v with
  | bytes b =>
    have hsize : offset + count ≤ b.size := h
    exact .inl ⟨_, if_neg (by omega), length_sliceOf hsize⟩
  | input i =>
    have hlength : offset + count ≤ i.length := h
    have havailable : min (i.length - offset) count = count := by omega
    show (∃ bytes, i.read offset count = .ok bytes ∧ bytes.length = count) ∨
      ∃ e, i.read offset count = .error (.io e)
    unfold Input.read
    rw [if_neg (by omega), havailable]
    cases i with
    | memory b => exact .inl ⟨_, rfl, length_sliceOf hlength⟩
    | opened f =>
      cases hread : f.readExact offset count with
      | ok bytes => exact .inl ⟨bytes.toList, by simp [hread], by simp⟩
      | error e => exact .inr ⟨e, by simp [hread]⟩

/-! ### Bytes -/

/-- The byte at an offset. -/
def byte? : View → (offset : Nat) → Option UInt8
  | bytes b, k => b[k]?
  | input (.memory b), k => b[k]?
  | input (.opened f), k => if k < f.length then (f.readExact k 1).toOption.map (·[0]) else none

theorem Holds.byte? {v : View} {d : Array UInt8} (h : v.Holds d) (k : Nat) :
    v.byte? k = d[k]? := by
  cases v with
  | bytes b => exact congrArg (·[k]?) h
  | input i =>
    cases i with
    | memory b => exact congrArg (·[k]?) h
    | opened f =>
      have hkeeps : f.Keeps d := h
      show (if k < f.length then _ else none) = _
      rw [hkeeps.length]
      split
      · next hk =>
        obtain ⟨bytes, hbytes, hlist⟩ := hkeeps.readExact k 1 hk
        have hfirst : (sliceOf d k 1)[0]? = d[k + 0]? := getElem?_sliceOf d Nat.one_pos
        rw [← hlist] at hfirst
        rw [hbytes, ← Nat.add_zero k, ← hfirst]
        simp [Except.toOption]
      · next hk => exact (Array.getElem?_eq_none (by omega)).symm

/-- A read within a steady view gives the bytes from its offset on. -/
theorem Steady.getElem?_of_read {v : View} (hv : v.Steady) {offset count k : Nat}
    {b : List UInt8} (h : v.read offset count = .ok b) (hk : k < count) :
    b[k]? = v.byte? (offset + k) := by
  obtain ⟨d, hd⟩ := hv
  rw [hd.read] at h
  split at h
  · cases h
  · cases h
    rw [hd.byte?, ← sliceOf_eq, getElem?_sliceOf d hk]

theorem Steady.read_eq_ok {v : View} (hv : v.Steady) {offset count : Nat}
    (h : offset + count ≤ v.length) :
    ∃ bytes, v.read offset count = .ok bytes ∧ bytes.length = count := by
  obtain ⟨d, hd⟩ := hv
  rw [hd.length] at h
  have hin : ¬ d.size < offset := by omega
  refine ⟨sliceOf d offset count, ?_, length_sliceOf h⟩
  rw [hd.read, if_neg hin, sliceOf_eq]

/-! ### Views that are Alike -/

/-- Nothing tells the views apart. -/
structure Alike (v v' : View) : Prop where
  /-- They are of the same length. -/
  length : v'.length = v.length
  /-- They answer each read alike. -/
  read : ∀ offset count, v'.read offset count = v.read offset count

theorem alike_of_holds {v v' : View} {d : Array UInt8} (h : v.Holds d) (h' : v'.Holds d) :
    v.Alike v' where
  length := by rw [h.length, h'.length]
  read offset count := by rw [h.read, h'.read]

end View

namespace Execution

open Template (Declaration Expr)

/-! ### Executions -/

variable {v v' : View} (h : v.Alike v') (o : ByteOrder)

include h

theorem checkBounds_alike (line : Nat) (name : String) (start stop : Int64) :
    checkBounds v' line name start stop = checkBounds v line name start stop := by
  unfold checkBounds
  rw [h.length]

theorem read_alike (line : Nat) (name : String) (t : Primitive) (offset : Int64) :
    Data.read ⟨v', o⟩ line name t offset = Data.read ⟨v, o⟩ line name t offset := by
  unfold Data.read
  dsimp only
  rw [checkBounds_alike h, h.length]
  simp only [h.read]

theorem eval_alike (store : Store) (e : Expr) : eval ⟨v', o⟩ store e = eval ⟨v, o⟩ store e := by
  induction e with
  | literal m value => rfl
  | access m t a => simp only [eval, read_alike h]
  | element m t baseMark a index ih => simp only [eval, ih, read_alike h]
  | arith m t op lhs rhs ihl ihr => simp only [eval, ihl, ihr]

theorem extent_alike (store : Store) (d : Declaration) :
    extent ⟨v', o⟩ store d = extent ⟨v, o⟩ store d := by
  have hcount : evalCount ⟨v', o⟩ store d.mark.line d.count =
      evalCount ⟨v, o⟩ store d.mark.line d.count := by
    cases d.count with
    | none => rfl
    | some e => simp only [evalCount, eval_alike h]
  unfold extent
  rw [hcount]

theorem layOut_alike (store : Store) (wall : Wall) (struct : String) (offset : Nat)
    (ds : List Declaration) :
    layOut ⟨v', o⟩ store wall struct offset ds = layOut ⟨v, o⟩ store wall struct offset ds := by
  induction ds generalizing offset with
  | nil => rfl
  | cons d rest ih => simp only [layOut, extent_alike h, ih]

theorem step_alike (s : State) (c : Command) : step ⟨v', o⟩ s c = step ⟨v, o⟩ s c := by
  cases c with
  | declare line struct members =>
    show declareStruct _ s line struct members = declareStruct _ s line struct members
    unfold declareStruct
    rw [layOut_alike h]
  | place d =>
    show placeField _ s d = placeField _ s d
    unfold placeField
    simp only [extent_alike h, checkBounds_alike h]
  | evaluate e =>
    show noteValue _ s e = noteValue _ s e
    unfold noteValue
    rw [eval_alike h]

theorem run_alike (s : State) (commands : List Command) :
    run ⟨v', o⟩ s commands = run ⟨v, o⟩ s commands := by
  induction commands generalizing s with
  | nil => rfl
  | cons c rest ih => simp only [run, step_alike h, ih]

omit h

/-- **Main theorem.** A view that holds the bytes `d` has their length, and gives from each
    offset the bytes up to the end of the buffer or of `d`, or fails if and only if the offset
    lies behind the end. So each execution goes as it does over the bytes themselves, be it to
    its end or to a fault. -/
theorem execute_eq_of_contents {d : Array UInt8} {v : View} (h : v.Holds d) :
    v.length = d.size ∧ v.isEmpty = d.isEmpty ∧
    (∀ offset count, v.read offset count =
      if d.size < offset then .error .beyondEnd else .ok ((d.toList.drop offset).take count)) ∧
    ∀ (template : Template) (wall : Wall) (options : Options),
      template.execute wall v options = template.execute wall (.bytes d) options := by
  refine ⟨h.length, h.isEmpty, h.read, fun template wall options => ?_⟩
  have halike : v.Alike (.bytes d) := View.alike_of_holds h rfl
  unfold Template.execute Template.runOn
  rw [run_alike halike]

/-- Bytes in memory and a file that has been made longer hold the same bytes. -/
theorem lengthened_execute :
    View.Holds #[4, 2, 0, 0, 0] (.input (.opened (.padded #[4, 2] 5))) ∧
    View.Holds #[4, 2, 0, 0, 0] (.input (.memory #[4, 2, 0, 0, 0])) ∧
    View.read (.input (.opened (.padded #[4, 2] 5))) 1 9 = .ok [2, 0, 0, 0] ∧
    View.read (.input (.opened (.padded #[4, 2] 5))) 6 1 = .error .beyondEnd ∧
    ∀ (template : Template) (wall : Wall) (options : Options),
      template.execute wall (.input (.opened (.padded #[4, 2] 5))) options =
        template.execute wall (.input (.memory #[4, 2, 0, 0, 0])) options := by
  have hfile : View.Holds #[4, 2, 0, 0, 0] (.input (.opened (.padded #[4, 2] 5))) := by
    have hbytes : (.ofFn fun k : Fin 5 => #[4, 2].getD k 0 : Array UInt8) = #[4, 2, 0, 0, 0] := by
      decide
    have hkeeps := View.keeps_padded #[4, 2] 5
    rwa [hbytes] at hkeeps
  have hmemory : View.Holds #[4, 2, 0, 0, 0] (.input (.memory #[4, 2, 0, 0, 0])) := rfl
  obtain ⟨-, -, hread, hexecute⟩ := execute_eq_of_contents hfile
  obtain ⟨-, -, -, hexecute'⟩ := execute_eq_of_contents hmemory
  exact ⟨hfile, hmemory, hread 1 9, hread 6 1, fun template wall options =>
    (hexecute template wall options).trans (hexecute' template wall options).symm⟩

/-- A file that is gone answers no read within it. -/
example : View.read (.input (.opened ⟨5, fun _ _ => .error ⟨"gone"⟩⟩)) 1 2 =
    .error (.io ⟨"gone"⟩) := rfl

end Execution

end ByteBricks
