import ByteBricks.Proofs.Execution.Mirrors

/-! # Reading Members

  What a reference to a member of a struct reads. The number is read through the layout
  of the struct, and stands where the brick is that the wall's definition has for the
  member: what is read is what is shown. Main statement: this holds for each command of
  a finished execution, and each struct that it declares has a definition that mirrors
  its layout. -/

namespace ByteBricks.Execution

open Template (Access Context Declaration Entry Expr CommandTyped CommandsTyped)

variable {Γ : Context} {data : Data} {s s' t : State}

/-! ### Numbers -/

/-- The bytes of a number stand at an offset of the data, and this is its value. They are what
    the view gives there, and one by one its bytes if it holds any. -/
def Data.NumberAt (data : Data) (t : Primitive) (offset : Int) (value : Value) : Prop :=
  ∃ (start : Nat) (bytes : List UInt8), offset = start ∧ bytes.length = t.size ∧
    data.view.read start t.size = .ok bytes ∧
    (data.view.Steady → ∀ k < t.size, bytes[k]? = data.view.byte? (start + k)) ∧
    Value.ofNumber (t.number data.order bytes) = .ok value

/-- A read within the data gives the value of the bytes at its offset. -/
theorem numberAt_of_read {line : Nat} {name : String} {t : Primitive} {offset : Int64}
    {value : Value} (hholds : data.Holds t offset)
    (h : data.read line name t offset = .ok value) : data.NumberAt t offset.toInt value := by
  have hstart := hholds.start
  rcases read_of_holds line name hholds with ⟨bytes, hbytes, hlength, hvalue⟩ | ⟨e, -, hfail⟩
  · refine ⟨offset.toInt.toNat, bytes, by omega, hlength, hbytes, ?_, ?_⟩
    · intro hview k hk
      exact hview.getElem?_of_read hbytes hk
    · rw [h, ← hlength, List.take_length] at hvalue
      split at hvalue
      · next number hnumber =>
        cases hvalue
        exact hnumber
      · exact (fail_ne_ok.1 hvalue.symm).elim
  · rw [h] at hfail
    exact (fail_ne_ok.1 hfail.symm).elim

/-- Each element of a field that lies within the data can be read. -/
theorem Field.Covered.holds {f : Field} {layouts : List Layout} {t : Primitive}
    (h : f.Covered layouts data.view) (ht : f.element = .primitive t) {i : Int} (hlo : 0 ≤ i)
    (hhi : i < f.count) {offset : Int64} (hoffset : offset.toInt = f.start.toInt + i * t.size) :
    data.Holds t offset := by
  obtain ⟨n, hn, hbounds⟩ := h
  rw [ht] at hn
  cases hn
  obtain ⟨hfront, hend⟩ := element_end_le (t := t) hlo hhi
  have hpos := t.size_pos
  rcases hbounds with hzero | ⟨hstart, hstop, hmax⟩
  · omega
  · exact ⟨by omega, by omega, by omega⟩

/-! ### Evaluated Expressions -/

theorem primitive_eq_ok_iff {f : Field} {line : Nat} {t : Primitive} :
    f.primitive line = .ok t ↔ f.element = .primitive t := by
  unfold Field.primitive
  cases f.element <;> simp

theorem integer_eq_ok_iff {value : Value} {line : Nat} {i : Int64} :
    value.integer line = .ok i ↔ value = .int i := by
  cases value <;> simp [Value.integer]

/-- The value of a reference is the number of the field that it leads to. -/
theorem eval_access_eq_ok {store : Store} {m : Template.Mark} {t : Primitive} {a : Access}
    {value : Value} (h : eval data store (.access m t a) = .ok value) :
    ∃ f u, store.locate m.line a = .ok f ∧ f.element = .primitive u ∧
      data.read m.line f.name u f.start = .ok value := by
  simp only [eval, bind_eq_ok, primitive_eq_ok_iff] at h
  obtain ⟨f, hf, u, hu, h⟩ := h
  split at h
  · simp at h
  · exact ⟨f, u, hf, hu, h⟩

/-- The value of an element is the number behind those in front of it. -/
theorem eval_element_eq_ok {store : Store} {m baseMark : Template.Mark} {t : Primitive}
    {a : Access} {index : Expr} {value : Value}
    (h : eval data store (.element m t baseMark a index) = .ok value) :
    ∃ f u i offset, store.locate baseMark.line a = .ok f ∧ f.element = .primitive u ∧
      eval data store index = .ok (.int i) ∧ f.elementOffset m.line u i = .ok offset ∧
      data.read m.line f.name u offset = .ok value := by
  simp only [eval, bind_eq_ok, primitive_eq_ok_iff, integer_eq_ok_iff] at h
  obtain ⟨f, hf, u, hu, -, hindex, i, rfl, offset, hoffset, h⟩ := h
  exact ⟨f, u, i, offset, hf, hu, hindex, hoffset, h⟩

/-- An expression that has a value has been evaluated with all its parts. -/
theorem eval_of_mem_nodes {store : Store} {e e' : Expr} {value : Value}
    (h : eval data store e = .ok value) (he : e' ∈ e.nodes) :
    ∃ value', eval data store e' = .ok value' := by
  induction e generalizing value with
  | literal m i =>
    rw [List.mem_singleton.1 he]
    exact ⟨value, h⟩
  | access m t a =>
    rw [List.mem_singleton.1 he]
    exact ⟨value, h⟩
  | element m t baseMark a index ih =>
    rcases List.mem_cons.1 he with rfl | he
    · exact ⟨value, h⟩
    · obtain ⟨f, u, i, offset, -, -, hindex, -, -⟩ := eval_element_eq_ok h
      exact ih hindex he
  | arith m t op lhs rhs ihl ihr =>
    rcases List.mem_cons.1 he with rfl | he
    · exact ⟨value, h⟩
    · rw [eval] at h
      obtain ⟨a, ha, h⟩ := bind_eq_ok.1 h
      obtain ⟨b, hb, -⟩ := bind_eq_ok.1 h
      rcases List.mem_append.1 he with he | he
      · exact ihl ha he
      · exact ihr hb he

theorem eval_of_evalCount {store : Store} {line n : Nat} {d : Declaration}
    (h : evalCount data store line d.count = .ok n) {e : Expr} (he : e ∈ d.nodes) :
    ∃ value, eval data store e = .ok value := by
  unfold Declaration.nodes at he
  cases hcount : d.count with
  | none => simp [hcount] at he
  | some count =>
    rw [hcount] at h he
    rw [evalCount] at h
    obtain ⟨value, hvalue, -⟩ := bind_eq_ok.1 h
    exact eval_of_mem_nodes hvalue he

/-- A command that succeeds has evaluated all its expressions. -/
theorem eval_of_step (hw : s.wall.Coherent) {c : Command} (h : step data s c = .ok s') {e : Expr}
    (he : e ∈ c.nodes) : ∃ value, eval data s.store e = .ok value := by
  cases c with
  | declare line struct ds =>
    obtain ⟨l, sizes, d, hdeclares⟩ := declares_of_declareStruct hw h
    obtain ⟨d', hd', he⟩ := List.mem_flatMap.1 he
    obtain ⟨f, -, hf⟩ := exists_of_forall₂ hdeclares.members hd'
    exact eval_of_evalCount hf.count he
  | place d =>
    obtain ⟨x, hx, -⟩ := placeField_eq_ok_iff.1 h
    obtain ⟨n, -, hcount, -⟩ := extent_eq_ok_iff.1 hx
    exact eval_of_evalCount hcount he
  | evaluate e' =>
    obtain ⟨value, hvalue, -⟩ := noteValue_eq_ok_iff.1 h
    exact eval_of_mem_nodes hvalue he

/-! ### Members -/

/-- A brick shows the part of a field: the field holds a single struct, and the brick is that
    of the part in the wall's definition of the struct. -/
structure Shows (s : State) (owner part : Name) (t : Primitive) (v : Field) (d : Definition)
    (m : Field) (b : Brick) : Prop where
  /-- The newest field of the owner's name is a single one. -/
  owner : s.store.field? owner.text = some v ∧ v.count = 1
  /-- Its struct has the part, and the definition of the wall mirrors the struct. -/
  struct : ∃ i l sizes, v.element = .struct i ∧ s.store.layouts[i]? = some l ∧
    l.members.find? (·.name == part.text) = some m ∧
    s.wall.definitions[l.definition]? = some d ∧ Mirrors s.store.layouts l sizes d
  /-- The part consists of numbers. -/
  element : m.element = .primitive t
  /-- It has a brick in the definition. -/
  brick : b ∈ d.members ∧ Depicts s.store.layouts m b
  /-- The brick has the bytes of all these numbers. -/
  size : b.size.toNat = t.size * m.count
  /-- It lies within the definition. -/
  within : 0 ≤ b.start.toInt ∧ b.start.toInt + b.size.toNat ≤ d.size.toNat

/-- A member that consists of numbers has a brick of as many bytes, within the definition. -/
theorem Mirrors.exists_brick_of_primitive {layouts : List Layout} {l : Layout} {sizes : List Nat}
    {d : Definition} (h : Mirrors layouts l sizes d) {m : Field} (hm : m ∈ l.members)
    (hwithin : m.Within layouts l.size) {t : Primitive} (ht : m.element = .primitive t)
    (hpos : 0 < m.count) :
    ∃ b ∈ d.members, Depicts layouts m b ∧ b.size.toNat = t.size * m.count ∧
      0 ≤ b.start.toInt ∧ b.start.toInt + b.size.toNat ≤ d.size.toNat := by
  obtain ⟨n, hn, hlo, hhi⟩ := hwithin
  have hbytes : m.bytes? layouts = some (n * m.count) := Field.bytes?_eq_some hn
  rw [ht] at hn
  cases hn
  have hcovers : 0 < t.size * m.count := Nat.mul_pos t.size_pos hpos
  obtain ⟨b, hb, hdepicts⟩ := h.exists_brick hm fun hzero => by
    have hnone := Option.some.inj (hbytes.symm.trans hzero)
    omega
  have hsize := Option.some.inj (hdepicts.size.symm.trans hbytes)
  refine ⟨b, hb, hdepicts, hsize, ?_⟩
  rw [hdepicts.start, hsize, h.size, ← h.total]
  exact ⟨hlo, hhi⟩

/-- A reference to a member that has elements leads to the place of its brick. -/
theorem shows_of_locate (h : Agrees Γ s.store data.view) (hm : s.Mirrored) {line : Nat}
    {owner part : Name} {e : Entry} {t : Primitive} (ha : Γ.target? (.member owner part) = some e)
    (ht : e.type = .primitive t) {f : Field}
    (hf : s.store.locate line (.member owner part) = .ok f) (hpos : 0 < f.count) :
    ∃ v d m b, Shows s owner part t v d m b ∧ m.count = f.count ∧
      f.start.toInt = v.start.toInt + b.start.toInt := by
  obtain ⟨f', hf', helement, -⟩ := h.locate line ha ht
  obtain rfl : f = f' := Except.ok.inj (hf.symm.trans hf')
  obtain ⟨v, i, l, m, start, hv, hi, hl, hfind, hstart, rfl⟩ := locate_member_eq_ok_iff.1 hf
  -- The owner holds a single struct, and the wall has a mirror of that.
  obtain ⟨p, struct, entry, hp, harray, -, -, -⟩ := Context.target?_member.1 ha
  obtain ⟨v', hv', hstands, -⟩ := h.fields owner.text p hp
  obtain rfl : v = v' := Option.some.inj (hv.symm.trans hv')
  have hlayout := List.mem_of_getElem? hl
  have hmember := List.mem_of_find?_eq_some hfind
  obtain ⟨sizes, d, hd, hmirrors⟩ := hm l hlayout
  obtain ⟨b, hb, hdepicts, hsize, hbounds⟩ :=
    hmirrors.exists_brick_of_primitive hmember (h.within l hlayout m hmember) helement hpos
  have hshows : Shows s owner part t v d m b :=
    ⟨⟨hv, hstands.single harray⟩, ⟨i, l, sizes, hi, hl, hfind, hd, hmirrors⟩, helement,
      ⟨hb, hdepicts⟩, hsize, hbounds⟩
  refine ⟨v, d, m, b, hshows, rfl, ?_⟩
  rw [hdepicts.start]
  exact Word.toInt_of_int64? hstart

/-- A number is read from the brick that shows the part of a field. -/
def ReadsMember (data : Data) (s : State) (owner part : Name) (t : Primitive) (value : Value) :
    Prop :=
  ∃ v d m b, Shows s owner part t v d m b ∧ b.size.toNat = t.size ∧
    data.NumberAt t (v.start.toInt + b.start.toInt) value

/-- A number is read from the brick that shows the part of a field, behind as many others. -/
def ReadsElement (data : Data) (s : State) (owner part : Name) (t : Primitive) (i : Int)
    (value : Value) : Prop :=
  ∃ v d m b, Shows s owner part t v d m b ∧ 0 ≤ i ∧ i < m.count ∧
    i * t.size + t.size ≤ b.size.toNat ∧
    data.NumberAt t (v.start.toInt + b.start.toInt + i * t.size) value

/-- What a reference to a member reads is what the wall shows there. -/
theorem readsMember_of_eval (h : Agrees Γ s.store data.view) (hm : s.Mirrored)
    {m : Template.Mark} {t : Primitive} {owner part : Name} {value : Value}
    (he : (Expr.access m t (.member owner part)).Typed Γ)
    (heval : eval data s.store (.access m t (.member owner part)) = .ok value) :
    ReadsMember data s owner part t value := by
  obtain ⟨entry, hentry, harray, ht⟩ := he
  obtain ⟨f, u, hf, hu, hread⟩ := eval_access_eq_ok heval
  obtain ⟨f', hf', helement, -, hsingle, hcovered⟩ := h.locate m.line hentry ht
  obtain rfl : f = f' := Except.ok.inj (hf.symm.trans hf')
  obtain rfl : u = t := Element.primitive.inj (hu.symm.trans helement)
  have hcount := hsingle harray
  obtain ⟨v, d, m', b, hshows, hcount', hstart⟩ := shows_of_locate h hm hentry ht hf (by omega)
  have hholds : data.Holds u f.start :=
    hcovered.holds helement (Int.le_refl 0) (by omega) (by omega)
  refine ⟨v, d, m', b, hshows, ?_, ?_⟩
  · rw [hshows.size, hcount', hcount, Nat.mul_one]
  · rw [← hstart]
    exact numberAt_of_read hholds hread

/-- What a reference to an element of a member reads is what the wall shows there. -/
theorem readsElement_of_eval (h : Agrees Γ s.store data.view) (hm : s.Mirrored)
    {m baseMark : Template.Mark} {t : Primitive} {owner part : Name} {index : Expr}
    {value : Value} (he : (Expr.element m t baseMark (.member owner part) index).Typed Γ)
    (heval : eval data s.store (.element m t baseMark (.member owner part) index) = .ok value) :
    ∃ i : Int64, eval data s.store index = .ok (.int i) ∧
      ReadsElement data s owner part t i.toInt value := by
  obtain ⟨⟨entry, hentry, harray, ht⟩, -, -⟩ := he
  obtain ⟨f, u, i, offset, hf, hu, hindex, hoffset, hread⟩ := eval_element_eq_ok heval
  obtain ⟨f', hf', helement, -, -, hcovered⟩ := h.locate baseMark.line hentry ht
  obtain rfl : f = f' := Except.ok.inj (hf.symm.trans hf')
  obtain rfl : u = t := Element.primitive.inj (hu.symm.trans helement)
  -- The index is one of the array's, so there is an element, and the member has a brick.
  obtain ⟨hlo, hhi, hplace⟩ := elementOffset_eq_ok hoffset
  obtain ⟨v, d, m', b, hshows, hcount, hstart⟩ := shows_of_locate h hm hentry ht hf (by omega)
  obtain ⟨-, hend⟩ := element_end_le (t := u) hlo hhi
  refine ⟨i, hindex, v, d, m', b, hshows, hlo, by omega, ?_, ?_⟩
  · rw [hshows.size, hcount]
    exact hend
  · rw [← hstart, ← hplace]
    exact numberAt_of_read (hcovered.holds helement hlo hhi hplace) hread

/-! ### Faithful Commands -/

/-- The command reads members where the wall shows them, and the struct that it declares has a
    definition that mirrors its layout. -/
structure Faithful (data : Data) (s s' : State) (c : Command) : Prop where
  /-- The declared struct has a layout and a definition that mirrors it. -/
  struct : ∀ line struct ds, c = .declare line struct ds →
    ∃ l sizes d, Declares data s s' struct ds l sizes d
  /-- Each member that is referred to is read from its brick. -/
  member : ∀ m t owner part, .access m t (.member owner part) ∈ c.nodes →
    ∃ value, eval data s.store (.access m t (.member owner part)) = .ok value ∧
      ReadsMember data s owner part t value
  /-- Each element of a member that is referred to is read from the brick of the member. -/
  element : ∀ m t baseMark owner part index,
    .element m t baseMark (.member owner part) index ∈ c.nodes →
    ∃ value i, eval data s.store (.element m t baseMark (.member owner part) index) = .ok value ∧
      eval data s.store index = .ok (.int i) ∧
      ReadsElement data s owner part t i.toInt value

/-- A command that succeeds in a state with mirrored layouts is faithful. -/
theorem faithful_of_step (h : Agrees Γ s.store data.view) (hm : s.Mirrored)
    (hw : s.wall.Coherent) {c : Command} (hc : CommandTyped Γ c) (hstep : step data s c = .ok s') :
    Faithful data s s' c where
  struct := by
    intro line struct ds hdeclare
    subst hdeclare
    exact declares_of_declareStruct hw hstep
  member := by
    intro m t owner part hnode
    obtain ⟨value, hvalue⟩ := eval_of_step hw hstep hnode
    exact ⟨value, hvalue, readsMember_of_eval h hm (typed_of_mem_nodes hc hnode) hvalue⟩
  element := by
    intro m t baseMark owner part index hnode
    obtain ⟨value, hvalue⟩ := eval_of_step hw hstep hnode
    obtain ⟨i, hi, hreads⟩ := readsElement_of_eval h hm (typed_of_mem_nodes hc hnode) hvalue
    exact ⟨value, i, hvalue, hi, hreads⟩

/-! ### Executions -/

/-- A run keeps the agreement of what is declared with what is stored. -/
theorem Agrees.run (h : Agrees Γ s.store data.view) {commands : List Command}
    (hc : CommandsTyped Γ commands) (hrun : Execution.run data s commands = (t, none)) :
    Agrees (Γ.afterAll commands) t.store data.view := by
  induction commands generalizing Γ s with
  | nil =>
    cases hrun
    exact h
  | cons c rest ih =>
    obtain ⟨s', hstep, hrest⟩ := run_cons_eq_none hrun
    exact ih (h.step hc.1 hstep) hc.2 hrest

/-- **Main theorem.** Each command of a finished execution on a reachable wall is faithful, and
    the definitions that the wall has then are not changed any more. -/
theorem faithful_of_execute {template : Template} (ht : template.IsCompiled) {w : Wall}
    (hw : w.Reachable) {view : View} {options : Options} {r : Report}
    (hr : (template.execute w view options).result = .ok r) :
    ∀ done c rest, commandsOf template.statements = done ++ c :: rest →
      ∃ s s', Execution.run ⟨view, options.order⟩ (.start w options.start) done = (s, none) ∧
        step ⟨view, options.order⟩ s c = .ok s' ∧ Faithful ⟨view, options.order⟩ s s' c ∧
        s'.wall.definitions <+: (template.execute w view options).wall.definitions := by
  intro done c rest hsplit
  obtain ⟨source, hsource⟩ := ht
  obtain ⟨htyped, -⟩ := Template.typed_of_compile hsource
  obtain ⟨last, hrun, -, hwall⟩ := execute_eq_ok_iff.1 hr
  unfold Template.runOn at hrun
  rw [hsplit] at hrun htyped
  obtain ⟨hbefore, hc, -⟩ := Template.commandsTyped_append.1 htyped
  obtain ⟨s, hdone, hrest⟩ := run_append_eq_none hrun
  obtain ⟨s', hstep, hrest⟩ := run_cons_eq_none hrest
  -- What holds in front of the command.
  have hstart : Agrees .empty (State.start w options.start).store
      (Data.view ⟨view, options.order⟩) := agrees_empty view
  have hagrees := hstart.run hbefore hdone
  have hmirrored := mirrored_of_run (mirrored_start w options.start)
    (defined_start w options.start) hw.coherent hdone
  obtain ⟨hcoherent, hdefined, -⟩ := run_keeps ⟨view, options.order⟩
    (defined_start w options.start) hw.coherent done
  rw [hdone] at hcoherent hdefined
  -- What follows only adds definitions.
  obtain ⟨-, hdefined'⟩ := hdefined.step hcoherent hstep
  obtain ⟨-, -, hgrow⟩ := run_keeps ⟨view, options.order⟩ hdefined' (hcoherent.step hstep) rest
  rw [hrest] at hgrow
  rw [hwall]
  exact ⟨s, s', hdone, hstep, faithful_of_step hagrees hmirrored hcoherent hc hstep, hgrow⟩

/-- A template with a struct that the crowded wall has already, in another one with a member
    that covers no bytes, and with references to members behind it. -/
def padded : Template :=
  .ofSource ("struct Pixel \x7b uint8[2] rgb; \x7d " ++
    "struct Head \x7b uint8 n; uint8[0] none; Pixel[1] p; uint16[2] pair; \x7d " ++
    "Head h; h.n; h.pair[h.n];")

/-- The bytes of one head. -/
def headBytes : View := .bytes #[1, 7, 8, 5, 0, 6, 0]

/-- The wall has one definition more afterwards, so the first struct uses one of its own. -/
theorem padded_faithful :
    padded.IsCompiled ∧ Wall.crowded.Reachable ∧ Wall.crowded.definitions.length = 2 ∧
      (padded.execute .crowded headBytes .default).wall.definitions.length = 3 ∧
      (∃ r, (padded.execute .crowded headBytes .default).result = .ok r ∧ r.stop = 7) ∧
      ∀ done c rest, commandsOf padded.statements = done ++ c :: rest →
        ∃ s s', run ⟨headBytes, .little⟩ (.start .crowded 0) done = (s, none) ∧
          step ⟨headBytes, .little⟩ s c = .ok s' ∧ Faithful ⟨headBytes, .little⟩ s s' c ∧
          s'.wall.definitions <+: (padded.execute .crowded headBytes .default).wall.definitions := by
  have hcompiled : padded.IsCompiled := Template.isCompiled_ofSource (by decide +kernel)
  have hstop : ((padded.execute .crowded headBytes .default).result.toOption.map (·.stop)) =
      some 7 := by decide +kernel
  obtain ⟨r, hr, hstop⟩ := Option.map_eq_some_iff.1 hstop
  have hr := Wall.toOption_eq_some_iff.1 hr
  exact ⟨hcompiled, Wall.crowded_reachable, by decide +kernel, by decide +kernel, ⟨r, hr, hstop⟩,
    faithful_of_execute hcompiled Wall.crowded_reachable hr⟩

end ByteBricks.Execution
