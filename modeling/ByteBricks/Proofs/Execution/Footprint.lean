import ByteBricks.Proofs.Execution.Soundness

/-! # The Footprint of an Execution

  Which bytes an execution depends on: those between its first offset and the offset
  that it ends at. Every field of the store lies there, every reference of a typed
  expression leads to such a field or to a part of one, and so every number is read
  from there. The lemmas allow for more bytes in front of the other view, by which its
  fields and reads lie further on. Main statement: two views with the same bytes there
  give the same outcome. -/

namespace ByteBricks

/-! ### Bytes of a View -/

namespace View

/-- The views hold bytes, and these are the same from the offset `lo` up to the offset `hi`. -/
structure AgreeOn (v v' : View) (lo hi : Int) : Prop where
  /-- The one view holds bytes. -/
  left : v.Steady
  /-- The other view holds bytes. -/
  right : v'.Steady
  /-- They are the same. -/
  bytes : ∀ k : Nat, lo ≤ k → (k : Int) < hi → v.byte? k = v'.byte? k

theorem AgreeOn.mono {v v' : View} {lo hi hi' : Int} (h : v.AgreeOn v' lo hi) (hle : hi' ≤ hi) :
    v.AgreeOn v' lo hi' :=
  ⟨h.left, h.right, fun k hlo hhi => h.bytes k hlo (Int.lt_of_lt_of_le hhi hle)⟩

/-- Two reads give the same bytes if the views have the same ones at their offsets. -/
theorem read_congr {v v' : View} (hs : v.Steady) (hs' : v'.Steady) {offset offset' count : Nat}
    (hv : offset + count ≤ v.length) (hv' : offset' + count ≤ v'.length)
    (h : ∀ k < count, v'.byte? (offset' + k) = v.byte? (offset + k)) :
    v'.read offset' count = v.read offset count := by
  obtain ⟨b, hb, hlen⟩ := hs.read_eq_ok hv
  obtain ⟨b', hb', hlen'⟩ := hs'.read_eq_ok hv'
  have heq : b' = b := by
    apply List.ext_getElem?
    intro k
    by_cases hk : k < count
    · rw [hs.getElem?_of_read hb hk, hs'.getElem?_of_read hb' hk]
      exact h k hk
    · rw [List.getElem?_eq_none (by omega), List.getElem?_eq_none (by omega)]
  rw [hb, hb', heq]

end View

/-! ### Offsets -/

/-- The offset of the same byte with as many bytes in front. -/
def advance (k : Nat) (offset : Int64) : Int64 := Int64.ofInt (offset.toInt + k)

theorem toInt_advance {k : Nat} {offset : Int64} (h : offset.toInt + k ≤ Word.int64Max) :
    (advance k offset).toInt = offset.toInt + k := by
  have hlo : Word.int64Min ≤ offset.toInt := offset.le_toInt
  unfold Word.int64Min at hlo
  unfold Word.int64Max at h
  exact Int64.toInt_ofInt_of_le (by omega) (by omega)

@[simp] theorem advance_zero (offset : Int64) : advance 0 offset = offset := by
  unfold advance
  rw [Int.natCast_zero, Int.add_zero, Int64.ofInt_toInt]

/-- An offset with bytes in front is an offset if there is room for them. -/
theorem int64?_advance {k : Nat} {i : Int} {offset : Int64} (h : Word.int64? i = some offset)
    (hhi : i + k ≤ Word.int64Max) : Word.int64? (i + k) = some (advance k offset) := by
  obtain ⟨hlo, -, -⟩ := Word.int64?_eq_some_iff.1 h
  unfold advance
  rw [Word.toInt_of_int64? h]
  exact if_pos ⟨by omega, hhi⟩

namespace Execution

open Template (Access Context Declaration Entry Expr CommandTyped CommandsTyped)

/-! ### Where Fields Lie -/

/-- A field starts at `lo` or behind it, and its elements end at `hi` or in front of it. -/
def Field.Between (f : Field) (layouts : List Layout) (lo hi : Int) : Prop :=
  lo ≤ f.start.toInt ∧
    ∃ n, f.element.size? layouts = some n ∧ f.start.toInt + (n * f.count : Nat) ≤ hi

theorem Field.Between.mono {f : Field} {layouts : List Layout} {lo hi hi' : Int}
    (h : f.Between layouts lo hi) (more : List Layout) (hhi : hi ≤ hi') :
    f.Between (layouts ++ more) lo hi' := by
  obtain ⟨hlo, n, hn, hbounds⟩ := h
  exact ⟨hlo, n, Element.size?_append hn more, Int.le_trans hbounds hhi⟩

variable {Γ : Context} {data data' : Data} {view' : View} {k : Nat} {lo hi : Int}

/-- What a reference leads to lies where the fields of the store do. -/
theorem Agrees.locate_between {s : Store} {view : View} (h : Agrees Γ s view)
    (hs : ∀ f ∈ s.fields, f.Between s.layouts lo hi) {line : Nat} {a : Access} {b : Entry}
    (ha : Γ.target? a = some b) {f : Field} (hf : s.locate line a = .ok f) :
    f.Between s.layouts lo hi := by
  cases a with
  | field name =>
    have hfind := locate_field_eq_ok_iff.1 hf
    exact hs f (List.mem_of_find?_eq_some hfind)
  | member owner part =>
    obtain ⟨parent, i, l, m, start, hparent, hi', hl, hm, hstart, rfl⟩ :=
      locate_member_eq_ok_iff.1 hf
    obtain ⟨p, struct, e, hp, harray, -, -, -⟩ := Context.target?_member.1 ha
    -- The owner holds a single struct, in which the member lies.
    obtain ⟨parent', hparent', hstands, -⟩ := h.fields owner.text p hp
    rw [hparent] at hparent'
    cases hparent'
    have hsingle := hstands.single harray
    obtain ⟨n', hn', hmlo, hmhi⟩ := h.within l (List.mem_of_getElem? hl) m
      (List.mem_of_find?_eq_some hm)
    obtain ⟨hplo, n, hn, hbounds⟩ := hs parent (List.mem_of_find?_eq_some hparent)
    rw [hi', Element.size?, hl] at hn
    have hsize : l.size = n := Option.some.inj hn
    have hoffset := Word.toInt_of_int64? hstart
    rw [hsingle, Nat.mul_one] at hbounds
    refine ⟨?_, n', hn', ?_⟩
    · show lo ≤ start.toInt
      omega
    · show start.toInt + (n' * m.count : Nat) ≤ hi
      omega

/-- The same field with as many bytes in front. -/
def Field.advance (k : Nat) (f : Field) : Field := { f with start := ByteBricks.advance k f.start }

/-- The same store with as many bytes in front of its fields. The members of its structs count
    from the start of the struct and stay where they are. -/
def Store.advance (k : Nat) (s : Store) : Store :=
  { s with fields := s.fields.map (Field.advance k) }

theorem field?_advance (k : Nat) (s : Store) (name : String) :
    (s.advance k).field? name = (s.field? name).map (Field.advance k) :=
  List.find?_map

@[simp] theorem Store.advance_zero (s : Store) : s.advance 0 = s := by
  have hfield : Field.advance 0 = id := by
    funext f
    unfold Field.advance
    rw [ByteBricks.advance_zero]
    rfl
  unfold Store.advance
  rw [hfield, List.map_id]

/-! ### Reading -/

/-- An element that an array has lies behind the start of the array. -/
theorem elementOffset_eq_ok {f : Field} {line : Nat} {t : Primitive} {i offset : Int64}
    (h : f.elementOffset line t i = .ok offset) :
    0 ≤ i.toInt ∧ i.toInt < f.count ∧ offset.toInt = f.start.toInt + i.toInt * t.size := by
  unfold Field.elementOffset at h
  split at h
  · next hindex => exact ⟨hindex.1, hindex.2, Word.toInt_of_int64? (require_eq_ok.1 h)⟩
  · simp at h

/-- The elements up to an index end where the array does, or before. -/
theorem element_end_le {t : Primitive} {count : Nat} {i : Int} (hlo : 0 ≤ i) (hhi : i < count) :
    0 ≤ i * t.size ∧ i * t.size + t.size ≤ (t.size * count : Nat) := by
  obtain ⟨k, rfl⟩ := Int.eq_ofNat_of_zero_le hlo
  have hpart : (k + 1) * t.size ≤ t.size * count := by
    rw [Nat.mul_comm t.size]
    exact Nat.mul_le_mul_right _ (by omega)
  rw [Nat.add_mul, Nat.one_mul] at hpart
  have hcast : ((k * t.size : Nat) : Int) = (k : Int) * t.size := Int.natCast_mul _ _
  omega

/-- The fields of a store lie between two offsets, and other data have the same bytes as far
    behind these offsets as they have more bytes in front. -/
structure Footprint (Γ : Context) (s : Store) (data data' : Data) (k : Nat) (lo hi : Int) :
    Prop where
  /-- The store knows what the context knows. -/
  agrees : Agrees Γ s data.view
  /-- The fields lie between the offsets. -/
  between : ∀ f ∈ s.fields, f.Between s.layouts lo hi
  /-- The data hold bytes. -/
  left : data.view.Steady
  /-- The other data hold bytes. -/
  right : data'.view.Steady
  /-- The other data have the same bytes there. -/
  same : ∀ i : Nat, lo ≤ i → (i : Int) < hi → data'.view.byte? (i + k) = data.view.byte? i
  /-- They do not end before. -/
  length : hi + k ≤ data'.view.length
  /-- All of these bytes have offsets. -/
  fits : hi + k ≤ Word.int64Max
  /-- Numbers have the same byte order. -/
  order : data'.order = data.order

namespace Footprint

variable {s : Store}

/-- A reference leads to the same field, with more bytes in front. -/
theorem locate (h : Footprint Γ s data data' k lo hi) {line : Nat} {a : Access} {b : Entry}
    (ha : Γ.target? a = some b) {f : Field} (hf : s.locate line a = .ok f) :
    (s.advance k).locate line a = .ok (f.advance k) := by
  have hfits := h.fits
  obtain ⟨-, n, -, hhi⟩ := h.agrees.locate_between h.between ha hf
  cases a with
  | field name =>
    have hfind := locate_field_eq_ok_iff.1 hf
    apply locate_field_eq_ok_iff.2
    rw [field?_advance, hfind]
    rfl
  | member owner part =>
    obtain ⟨parent, i, l, m, start, hparent, hi', hl, hm, hstart, rfl⟩ :=
      locate_member_eq_ok_iff.1 hf
    obtain ⟨-, n', -, hphi⟩ := h.between parent (List.mem_of_find?_eq_some hparent)
    have hoffset := Word.toInt_of_int64? hstart
    have hparent' : (s.advance k).field? owner.text = some (parent.advance k) := by
      rw [field?_advance, hparent]
      rfl
    -- The owner has moved, and the member lies where it did in the owner.
    have hmoved : (parent.advance k).start.toInt = parent.start.toInt + k :=
      toInt_advance (by omega)
    have hstart' : Word.int64? ((parent.advance k).start.toInt + m.start.toInt) =
        some (ByteBricks.advance k start) := by
      dsimp only at hhi
      rw [hmoved, Int.add_right_comm]
      exact int64?_advance hstart (by omega)
    exact locate_member_eq_ok_iff.2
      ⟨parent.advance k, i, l, m, _, hparent', hi', hl, hm, hstart', rfl⟩

/-- A number between the offsets is the same in the other data. -/
theorem read (h : Footprint Γ s data data' k lo hi) (line : Nat) (name : String) {t : Primitive}
    {offset : Int64} (hholds : data.Holds t offset) (hlo : lo ≤ offset.toInt)
    (hhi : offset.toInt + t.size ≤ hi) :
    data'.read line name t (ByteBricks.advance k offset) = data.read line name t offset := by
  obtain ⟨hstart, hstop, hmax⟩ := hholds
  have hlength := h.length
  have hfits := h.fits
  have hmoved : (ByteBricks.advance k offset).toInt = offset.toInt + k := toInt_advance (by omega)
  refine read_eq_of_bytes line name ⟨hstart, hstop, hmax⟩ ⟨by omega, by omega, by omega⟩ h.order ?_
  refine View.read_congr h.left h.right (by omega) (by omega) fun i hi => ?_
  have hnat : (ByteBricks.advance k offset).toInt.toNat + i = offset.toInt.toNat + i + k := by omega
  rw [hnat]
  exact h.same _ (by omega) (by omega)

/-- The elements of an array have moved as the array has. -/
theorem elementOffset (h : Footprint Γ s data data' k lo hi) {f : Field} {t : Primitive}
    (hhi : f.start.toInt + (t.size * f.count : Nat) ≤ hi) (line : Nat) (i : Int64) :
    (f.advance k).elementOffset line t i =
      (f.elementOffset line t i).map (ByteBricks.advance k) := by
  have hfits := h.fits
  have hmoved : (f.advance k).start.toInt = f.start.toInt + k := toInt_advance (by omega)
  have hcount : (f.advance k).count = f.count := rfl
  unfold Field.elementOffset
  rw [hcount, hmoved, Int.add_right_comm]
  split
  · next hindex =>
    obtain ⟨hfront, hend⟩ := element_end_le (t := t) hindex.1 hindex.2
    have hmin : Word.int64Min ≤ f.start.toInt := f.start.le_toInt
    have hoffset : Word.int64? (f.start.toInt + i.toInt * t.size) =
        some (Int64.ofInt (f.start.toInt + i.toInt * t.size)) := if_pos ⟨by omega, by omega⟩
    rw [hoffset, int64?_advance hoffset (by omega)]
    rfl
  · rfl

/-- A typed expression has the same value in the other data, or the same fault. -/
theorem eval (h : Footprint Γ s data data' k lo hi) {e : Expr} (he : e.Typed Γ) :
    eval data' (s.advance k) e = eval data s e := by
  induction e with
  | literal m value => rfl
  | access m t field =>
    obtain ⟨b, hb, harray, ht⟩ := he
    obtain ⟨f, hf, helement, hisArray, hsingle, n, hn, hcovered⟩ := h.agrees.locate m.line hb ht
    obtain ⟨hlo, n', hn', hbounds⟩ := h.agrees.locate_between h.between hb hf
    rw [helement] at hn hn'
    cases hn
    cases hn'
    -- The field holds a single number, which has bytes, so it lies between the offsets.
    rw [hsingle harray, Nat.mul_one] at hcovered hbounds
    have hpos := t.size_pos
    have hread := h.read m.line f.name (t := t) ⟨by omega, by omega, by omega⟩ hlo (by omega)
    have helement' : (f.advance k).element = .primitive t := helement
    have hisArray' : (f.advance k).isArray = b.isArray := hisArray
    rw [Execution.eval, Execution.eval, hf, h.locate hb hf]
    simp only [bind, Except.bind, Field.primitive, helement, helement', hisArray, hisArray', harray]
    exact hread
  | element m t baseMark field index ih =>
    obtain ⟨⟨b, hb, harray, ht⟩, hindex, -⟩ := he
    obtain ⟨f, hf, helement, -, -, n, hn, hcovered⟩ := h.agrees.locate baseMark.line hb ht
    obtain ⟨hlo, n', hn', hbounds⟩ := h.agrees.locate_between h.between hb hf
    rw [helement] at hn hn'
    cases hn
    cases hn'
    have hprimitive : f.primitive m.line = .ok t := by
      unfold Field.primitive
      rw [helement]
    have hprimitive' : (f.advance k).primitive m.line = .ok t := hprimitive
    rw [Execution.eval, Execution.eval, hf, h.locate hb hf, ih hindex]
    simp only [bind, Except.bind, hprimitive, hprimitive']
    cases Execution.eval data s index with
    | error halt => rfl
    | ok value =>
      dsimp only
      cases value.integer m.line with
      | error halt => rfl
      | ok i =>
        dsimp only
        rw [h.elementOffset hbounds]
        cases hoffset : f.elementOffset m.line t i with
        | error halt => rfl
        | ok offset =>
          -- The element lies within its array, and that lies between the offsets.
          obtain ⟨hilo, hihi, hstart⟩ := elementOffset_eq_ok hoffset
          obtain ⟨hfront, hend⟩ := element_end_le (t := t) hilo hihi
          have hpos := t.size_pos
          exact h.read m.line f.name ⟨by omega, by omega, by omega⟩ (by omega) (by omega)
  | arith m t op lhs rhs ihl ihr =>
    obtain ⟨hl, hr, -⟩ := he
    rw [Execution.eval, Execution.eval, ihl hl, ihr hr]

theorem evalCount (h : Footprint Γ s data data' k lo hi) (line : Nat) {count : Option Expr}
    (hcount : ∀ e, count = some e → e.Typed Γ ∧ e.type.isInteger = true) :
    evalCount data' (s.advance k) line count = evalCount data s line count := by
  cases count with
  | none => rfl
  | some e => rw [Execution.evalCount, Execution.evalCount, h.eval (hcount e rfl).1]

/-- Types and sizes are those of the structs, which stay as they are. -/
theorem extent (h : Footprint Γ s data data' k lo hi) {d : Declaration} (hd : d.Typed Γ) :
    extent data' (s.advance k) d = extent data s d := by
  rw [Execution.extent, Execution.extent, h.evalCount d.mark.line hd.2]
  rfl

theorem layOut (h : Footprint Γ s data data' k lo hi) (w : Wall) (struct : String) (offset : Nat)
    {ds : List Declaration} (hds : ∀ d ∈ ds, d.Typed Γ) :
    layOut data' (s.advance k) w struct offset ds = layOut data s w struct offset ds := by
  induction ds generalizing offset with
  | nil => rfl
  | cons d ds ih =>
    have hrest (offset : Nat) := ih offset fun d' hd' => hds d' (List.mem_cons_of_mem _ hd')
    rw [Execution.layOut, Execution.layOut, h.extent (hds d List.mem_cons_self)]
    simp only [hrest]
    rfl

end Footprint

/-! ### Runs -/

/-- Where the fields of a state lie: between an offset and the cursor. -/
structure Covers (Γ : Context) (s : State) (data : Data) (lo : Int) : Prop where
  /-- The store knows what the context knows. -/
  agrees : Agrees Γ s.store data.view
  /-- The fields lie in front of the cursor. -/
  between : ∀ f ∈ s.store.fields, f.Between s.store.layouts lo s.cursor.toInt
  /-- The cursor has not moved back. -/
  start : lo ≤ s.cursor.toInt

variable {s s' t : State}

/-- No command moves the cursor back. -/
theorem cursor_le_of_step {c : Command} (h : step data s c = .ok s') :
    s.cursor.toInt ≤ s'.cursor.toInt := by
  cases c with
  | declare line struct members =>
    obtain ⟨body, index, wall, -, -, rfl⟩ := declareStruct_eq_ok_iff.1 h
    exact Int.le_refl _
  | evaluate e =>
    obtain ⟨value, -, rfl⟩ := noteValue_eq_ok_iff.1 h
    exact Int.le_refl _
  | place d =>
    obtain ⟨e, -, ⟨-, rfl⟩ | ⟨-, stop, answer, hstop, -, -, rfl⟩⟩ := placeField_eq_ok_iff.1 h
    · exact Int.le_refl _
    · obtain ⟨-, hstop⟩ := fieldStop_eq_some_iff.1 hstop
      have hend := Word.toInt_of_int64? hstop
      show s.cursor.toInt ≤ stop.toInt
      omega

theorem cursor_le_of_run {commands : List Command} (h : run data s commands = (t, none)) :
    s.cursor.toInt ≤ t.cursor.toInt := by
  induction commands generalizing s with
  | nil =>
    cases h
    exact Int.le_refl _
  | cons c rest ih =>
    obtain ⟨s', hstep, hrest⟩ := run_cons_eq_none h
    exact Int.le_trans (cursor_le_of_step hstep) (ih hrest)

theorem Covers.step (h : Covers Γ s data lo) {c : Command} (hc : CommandTyped Γ c)
    (hstep : step data s c = .ok s') : Covers (Γ.after c) s' data lo where
  agrees := h.agrees.step hc hstep
  start := Int.le_trans h.start (cursor_le_of_step hstep)
  between := by
    cases c with
    | declare line struct members =>
      obtain ⟨body, index, wall, -, -, rfl⟩ := declareStruct_eq_ok_iff.1 hstep
      exact fun f hf => (h.between f hf).mono _ (Int.le_refl _)
    | evaluate e =>
      obtain ⟨value, -, rfl⟩ := noteValue_eq_ok_iff.1 hstep
      exact h.between
    | place d =>
      obtain ⟨e, he, hcases⟩ := placeField_eq_ok_iff.1 hstep
      obtain ⟨n, -, -, hn, hsize, -⟩ := extent_eq_ok_iff.1 he
      have hn := elementSize_eq_ok_iff.1 hn
      rcases hcases with ⟨hzero, rfl⟩ | ⟨-, stop, answer, hstop, -, -, rfl⟩
      · intro f hf
        rcases List.mem_cons.1 hf with rfl | hf
        · rw [hsize] at hzero
          refine ⟨h.start, n, hn, ?_⟩
          show s.cursor.toInt + (n * e.count : Nat) ≤ s.cursor.toInt
          omega
        · exact h.between f hf
      · obtain ⟨-, hstop⟩ := fieldStop_eq_some_iff.1 hstop
        have hend := Word.toInt_of_int64? hstop
        intro f hf
        rw [note_store] at hf ⊢
        rcases List.mem_cons.1 hf with rfl | hf
        · -- The cursor moves to the end of the new field.
          refine ⟨h.start, n, hn, ?_⟩
          show s.cursor.toInt + (n * e.count : Nat) ≤ stop.toInt
          rw [← hsize]
          omega
        · have hbetween : f.Between (s.store.layouts ++ []) lo stop.toInt :=
            (h.between f hf).mono [] (by omega)
          rw [List.append_nil] at hbetween
          exact hbetween

/-- A command that succeeds does so in the other view, with the same state afterwards. -/
theorem Covers.step_congr (h : Covers Γ s data lo) {c : Command} (hc : CommandTyped Γ c)
    (hstep : Execution.step data s c = .ok s') (hsame : data.view.AgreeOn view' lo s'.cursor.toInt)
    (hlength : s'.cursor.toInt ≤ view'.length) :
    Execution.step ⟨view', data.order⟩ s c = .ok s' := by
  have hcursor := cursor_le_of_step hstep
  -- What the command reads was placed in front of it, at or before the cursor there.
  have hfoot : Footprint Γ s.store data ⟨view', data.order⟩ 0 lo s.cursor.toInt := by
    constructor
    case agrees => exact h.agrees
    case between => exact h.between
    case left => exact hsame.left
    case right => exact hsame.right
    case same => exact fun i hlo hhi => (hsame.bytes i hlo (by omega)).symm
    case length =>
      dsimp only
      omega
    case fits =>
      have hmax : s.cursor.toInt < 2 ^ 63 := s.cursor.toInt_lt
      unfold Word.int64Max
      omega
    case order => rfl
  have hstore : s.store.advance 0 = s.store := Store.advance_zero _
  cases c with
  | declare line struct members =>
    obtain ⟨body, index, wall, hbody, hfound, rfl⟩ := declareStruct_eq_ok_iff.1 hstep
    obtain ⟨-, -, htyped, -⟩ := hc
    have hbody' := hfoot.layOut s.wall struct 0 fun d hd => (htyped d hd).1
    rw [hstore] at hbody'
    exact declareStruct_eq_ok_iff.2 ⟨body, index, wall, hbody'.trans hbody, hfound, rfl⟩
  | evaluate e =>
    obtain ⟨value, hvalue, rfl⟩ := noteValue_eq_ok_iff.1 hstep
    have hvalue' := hfoot.eval hc
    rw [hstore] at hvalue'
    exact noteValue_eq_ok_iff.2 ⟨value, hvalue'.trans hvalue, rfl⟩
  | place d =>
    obtain ⟨e, he, hcases⟩ := placeField_eq_ok_iff.1 hstep
    have he' := hfoot.extent hc
    rw [hstore] at he'
    refine placeField_eq_ok_iff.2 ⟨e, he'.trans he, ?_⟩
    rcases hcases with ⟨hzero, rfl⟩ | ⟨hne, stop, answer, hstop, hbounds, hanswer, rfl⟩
    · exact .inl ⟨hzero, rfl⟩
    · -- The end of the field is the new cursor, which lies within the other view too.
      obtain ⟨hstart, hend, -⟩ := checkBounds_eq_ok_iff.1 hbounds
      have hbounds' : checkBounds view' d.mark.line d.name.text s.cursor stop = .ok () :=
        checkBounds_eq_ok_iff.2 ⟨hstart, hend, hlength⟩
      exact .inr ⟨hne, stop, answer, hstop, hbounds', hanswer, rfl⟩

/-- A complete run goes the same way in the other view. -/
theorem Covers.run_congr (h : Covers Γ s data lo) {commands : List Command}
    (hc : CommandsTyped Γ commands) (hrun : run data s commands = (t, none))
    (hsame : data.view.AgreeOn view' lo t.cursor.toInt) (hlength : t.cursor.toInt ≤ view'.length) :
    run ⟨view', data.order⟩ s commands = (t, none) := by
  -- Each step ends in front of the last cursor, so the views agree on all that it covers.
  induction commands generalizing Γ s with
  | nil => exact hrun
  | cons c rest ih =>
    obtain ⟨s', hstep, hrest⟩ := run_cons_eq_none hrun
    obtain ⟨hc, htyped⟩ := hc
    have hcursor := cursor_le_of_run hrest
    have hstep' := h.step_congr hc hstep (hsame.mono hcursor) (by omega)
    rw [run_cons_of_ok hstep']
    exact ih (h.step hc hstep) htyped hrest

theorem covers_start (w : Wall) (cursor : Int64) (data : Data) :
    Covers .empty (.start w cursor) data cursor.toInt where
  agrees := agrees_empty data.view
  between := fun _ hf => nomatch hf
  start := Int.le_refl _

/-- **Main theorem.** The outcome of an execution that gets to its end depends on the bytes
    between its first and its last offset alone. -/
theorem execute_eq_of_agreeOn {template : Template} (ht : template.IsCompiled) (w : Wall)
    {view view' : View} {options : Options} {r : Report}
    (hr : (template.execute w view options).result = .ok r) (hlength : r.stop.toInt ≤ view'.length)
    (hsame : view.AgreeOn view' options.start.toInt r.stop.toInt) :
    template.execute w view' options = template.execute w view options := by
  obtain ⟨source, hsource⟩ := ht
  obtain ⟨htyped, -⟩ := Template.typed_of_compile hsource
  obtain ⟨s, hrun, rfl, -⟩ := execute_eq_ok_iff.1 hr
  have hcovers := covers_start w options.start ⟨view, options.order⟩
  have hrun' : template.runOn w view' options = (s, none) :=
    hcovers.run_congr htyped hrun hsame hlength
  unfold Template.execute
  rw [hrun, hrun']

/-- A template whose second field takes its count and whose last line takes an element and a
    member from the data. -/
def windowed : Template :=
  .ofSource "struct Head \x7b uint8 n; uint8 k; \x7d Head h; uint8[h.n] body; body[h.k] * h.n;"

/-- The bytes in front of the first field and behind the last one do not matter, and neither
    does where they come from. -/
theorem windowed_execute :
    windowed.IsCompiled ∧
      (∃ r, (windowed.execute .crowded (.bytes #[9, 2, 1, 5, 6, 7]) ⟨1, .little⟩).result = .ok r ∧
        r.stop = 5) ∧
      View.AgreeOn (.bytes #[9, 2, 1, 5, 6, 7]) (.input (.file #[0, 2, 1, 5, 6] 8)) 1 5 ∧
      windowed.execute .crowded (.input (.file #[0, 2, 1, 5, 6] 8)) ⟨1, .little⟩ =
        windowed.execute .crowded (.bytes #[9, 2, 1, 5, 6, 7]) ⟨1, .little⟩ := by
  have hcompiled : windowed.IsCompiled := Template.isCompiled_ofSource (by decide +kernel)
  have hstop : ((windowed.execute .crowded (.bytes #[9, 2, 1, 5, 6, 7])
      ⟨1, .little⟩).result.toOption.map (·.stop)) = some 5 := by decide +kernel
  obtain ⟨r, hr, hstop⟩ := Option.map_eq_some_iff.1 hstop
  have hr := Wall.toOption_eq_some_iff.1 hr
  have hsame : View.AgreeOn (.bytes #[9, 2, 1, 5, 6, 7]) (.input (.file #[0, 2, 1, 5, 6] 8))
      1 5 := by
    refine ⟨View.steady_bytes _, ⟨_, View.keeps_padded _ _⟩, fun k hlo hhi => ?_⟩
    obtain rfl | rfl | rfl | rfl : k = 1 ∨ k = 2 ∨ k = 3 ∨ k = 4 := by omega
    all_goals rfl
  refine ⟨hcompiled, ⟨r, hr, hstop⟩, hsame, ?_⟩
  apply execute_eq_of_agreeOn hcompiled .crowded hr
  · rw [hstop]
    decide
  · rw [hstop]
    exact hsame

end Execution

end ByteBricks
