import ByteBricks.Proofs.Wall.Reachable

/-! # Sizes and Element Sizes

  A wall checks once, when it takes a brick or a member, that its size is a multiple of the
  size of its type. The size of a struct grows with each member that is appended to its
  definition, and the bricks and members that use the struct already are not checked again.

  Main statement: all sizes are multiples of the current sizes of their types throughout a
  series of operations if and only if each member that is appended leaves the size of its
  struct a divisor of the sizes of all bricks and members of that struct. -/

namespace ByteBricks

theorem TypeCode.primitive?_of_structIndex? {c : TypeCode} {i : Nat}
    (h : c.structIndex? = some i) : c.primitive? = none := by
  unfold structIndex? at h
  split at h
  · next hbase => exact List.getElem?_eq_none (Nat.le_trans (by decide) hbase)
  · simp at h

namespace Wall

variable {w w' : Wall} {b : Brick}

/-! ### Aligned Pieces -/

/-- The bricks of a wall and the members of its definitions. -/
def pieces (w : Wall) : List Brick := w.bricks ++ w.definitions.flatMap (·.members)

/-- The type of the brick is known, and its current size divides that of the brick. -/
def Aligns (w : Wall) (b : Brick) : Prop :=
  ∃ info, w.typeInfo? b.type = some info ∧ info.size ∣ b.size.toNat

/-- The size of every brick and of every member is a multiple of the current size of its
    type. -/
def Aligned (w : Wall) : Prop := ∀ b ∈ w.pieces, w.Aligns b

/-- A piece of the wall whose size is no multiple of the current size of its type. -/
def Stale (w : Wall) (b : Brick) : Prop := b ∈ w.pieces ∧ ¬ w.Aligns b

theorem aligned_iff_forall_not_stale : w.Aligned ↔ ∀ b, ¬ w.Stale b := by
  unfold Aligned Stale
  grind

theorem mem_pieces : b ∈ w.pieces ↔ b ∈ w.bricks ∨ ∃ d ∈ w.definitions, b ∈ d.members := by
  unfold pieces
  rw [List.mem_append, List.mem_flatMap]

theorem mem_pieces_of_brick (hb : b ∈ w.bricks) : b ∈ w.pieces := mem_pieces.2 (.inl hb)

theorem mem_pieces_of_member {i : Nat} {d : Definition} (hd : w.definitions[i]? = some d)
    (hb : b ∈ d.members) : b ∈ w.pieces :=
  mem_pieces.2 (.inr ⟨d, List.mem_of_getElem? hd, hb⟩)

theorem aligns_congr (h : w'.types = w.types) : w'.Aligns b ↔ w.Aligns b := by
  unfold Aligns typeInfo?
  rw [h]

theorem aligns_of_typeInfo?_eq (h : w'.typeInfo? b.type = w.typeInfo? b.type) (hb : w.Aligns b) :
    w'.Aligns b := by
  unfold Aligns
  rw [h]
  exact hb

/-- A known struct type is that of a definition. -/
theorem Coherent.mayContain_of_typeInfo? (hw : w.Coherent) {c : TypeCode} {info : TypeInfo}
    (h : w.typeInfo? c = some info) : mayContain w.definitions.length c = true := by
  rw [hw.typeInfo?_eq] at h
  rw [mayContain_iff]
  cases hprim : c.primitive? with
  | some t => exact .inl ⟨t, TypeCode.eq_ofPrimitive_of_primitive? hprim⟩
  | none =>
    simp only [hprim, Option.bind_eq_some_iff, Option.map_eq_some_iff] at h
    obtain ⟨i, hi, d, hd, -⟩ := h
    exact .inr ⟨rfl, i, (List.getElem?_eq_some_iff.1 hd).1, hi⟩

/-- A struct brick is aligned if the size of the definition divides its own. -/
theorem Coherent.aligns_struct_iff (hw : w.Coherent) {i : Nat} {d : Definition}
    (hi : b.type.structIndex? = some i) (hd : w.definitions[i]? = some d) :
    w.Aligns b ↔ d.size.toNat ∣ b.size.toNat := by
  unfold Aligns
  rw [hw.typeInfo?_eq, TypeCode.primitive?_of_structIndex? hi, hi]
  simp [hd]

/-! ### Insertion and Removal -/

theorem stale_of_insert (h : w.insert b = .ok w') {e : Brick} (he : w'.Stale e) : w.Stale e := by
  obtain ⟨info, hinfo, -, -, hmod, -, rfl⟩ := insert_eq_ok_iff.1 h
  obtain ⟨hmem, hstale⟩ := he
  rw [aligns_congr rfl] at hstale
  -- The new brick has just been checked.
  have hne : e ≠ b := by
    intro heq
    subst heq
    exact hstale ⟨info, hinfo, Nat.dvd_of_mod_eq_zero hmod⟩
  refine ⟨?_, hstale⟩
  rcases mem_pieces.1 hmem with hbrick | hmember
  · exact mem_pieces_of_brick ((mem_place.1 hbrick).resolve_left hne)
  · exact mem_pieces.2 (.inr hmember)

theorem stale_of_eraseAt {offset : Int64} (h : (w.eraseAt offset).Stale b) : w.Stale b := by
  obtain ⟨hmem, hstale⟩ := h
  refine ⟨?_, fun halign => hstale ((aligns_congr rfl).2 halign)⟩
  rcases mem_pieces.1 hmem with hbrick | hmember
  · exact mem_pieces_of_brick (List.mem_of_mem_eraseP hbrick)
  · exact mem_pieces.2 (.inr hmember)

/-! ### Definitions -/

/-- Every member that the wall takes for a new definition fits. -/
theorem fits_of_foldlM_appendMember? (hw : w.Coherent) {d : Definition} {members : List Brick}
    (h : members.foldlM (fun v m => v.appendMember? w.definitions.length m)
      (w.redefine (w.definitions ++ [d])) = some w') : ∀ m ∈ members, w.Fits m := by
  -- Each member is checked against a longer last definition, which its type cannot refer to.
  induction members generalizing d with
  | nil => simp
  | cons m members ih =>
    rw [List.foldlM_cons] at h
    obtain ⟨v, hv, h⟩ := Option.bind_eq_some_iff.1 h
    obtain ⟨info, d', hinfo, hmay, hne, hmod, -, rfl⟩ := appendMember?_last_eq_some_iff.1 hv
    rw [hw.typeInfo?_redefine_append hmay] at hinfo
    exact List.forall_mem_cons.2 ⟨⟨info, hinfo, hmay, hne, hmod⟩, ih h⟩

theorem fits_of_addDefinition (hw : w.Coherent) {struct : String} {members : List Brick}
    (h : Execution.addDefinition w struct members = some w') : ∀ m ∈ members, w.Fits m :=
  fits_of_foldlM_appendMember? hw h

theorem aligns_of_fits (hb : w.Fits b) : w.Aligns b := by
  obtain ⟨info, hinfo, -, -, hmod⟩ := hb
  exact ⟨info, hinfo, Nat.dvd_of_mod_eq_zero hmod⟩

/-- A definition that is added with members that fit makes no piece stale. -/
theorem stale_of_redefine_append (hw : w.Coherent) {d : Definition}
    (hfits : ∀ m ∈ d.members, w.Fits m) (h : (w.redefine (w.definitions ++ [d])).Stale b) :
    w.Stale b := by
  obtain ⟨hmem, hstale⟩ := h
  -- The types that were known before mean what they did.
  have hkept : ¬ w.Aligns b := by
    intro halign
    have hkeep := halign
    obtain ⟨info, hinfo, -⟩ := halign
    have hmay := hw.mayContain_of_typeInfo? hinfo
    exact hstale (aligns_of_typeInfo?_eq (hw.typeInfo?_redefine_append hmay [d]) hkeep)
  refine ⟨?_, hkept⟩
  rcases mem_pieces.1 hmem with hbrick | ⟨e, he, hmember⟩
  · exact mem_pieces_of_brick hbrick
  · rcases List.mem_append.1 he with he | he
    · exact mem_pieces.2 (.inr ⟨e, he, hmember⟩)
    · rw [List.mem_singleton.1 he] at hmember
      exact absurd (aligns_of_fits (hfits b hmember)) hkept

theorem stale_of_define (hw : w.Coherent) {name : String} {color : Color}
    (h : (w.define name color).Stale b) : w.Stale b :=
  stale_of_redefine_append hw (by simp [Definition.empty]) h

/-! ### Extension -/

/-- A member that is appended changes what is known about the extended struct alone. -/
theorem Coherent.typeInfo?_set (hw : w.Coherent) {index : Nat} {d : Definition} {c : TypeCode}
    (hc : c.structIndex? ≠ some index) :
    (w.redefine (w.definitions.set index d)).typeInfo? c = w.typeInfo? c := by
  rw [hw.typeInfo?_eq]
  unfold typeInfo? redefine
  cases hprim : c.primitive? with
  | some t => exact typeTable_getElem?_primitive _ t
  | none =>
    cases hi : c.structIndex? with
    | none => rfl
    | some i =>
      have hne : index ≠ i := by
        intro heq
        exact hc (by rw [hi, heq])
      show (typeTable (w.definitions.set index d))[Primitive.all.length + i]? = _
      rw [typeTable_getElem?_struct, List.getElem?_set_ne hne]
      rfl

/-- The type of a member is not the struct that it becomes a part of. -/
theorem structIndex?_ne_of_mayContain {index : Nat} {c : TypeCode}
    (h : mayContain index c = true) : c.structIndex? ≠ some index := by
  intro hindex
  rcases mayContain_iff.1 h with ⟨t, rfl⟩ | ⟨-, j, hj, hj'⟩
  · have hnone := TypeCode.primitive?_of_structIndex? hindex
    rw [TypeCode.primitive?_ofPrimitive] at hnone
    simp at hnone
  · rw [hindex] at hj'
    cases hj'
    exact Nat.lt_irrefl _ hj

/-- A definition with one more member has only that member more, and is larger by its size. -/
theorem Coherent.extended (hw : w.Coherent) {index : Nat} {member : Brick}
    (h : w.appendMember? index member = some w') :
    ∃ d d', w.definitions[index]? = some d ∧ w' = w.redefine (w.definitions.set index d') ∧
      d'.size.toNat = d.size.toNat + member.size.toNat ∧ d'.members = d.members ++ [member] := by
  obtain ⟨d, info, d', hd, -, -, -, -, happ, rfl⟩ := appendMember?_eq_some_iff.1 h
  obtain ⟨-, hsize, -, -, hmembers⟩ := (hw.summed d (List.mem_of_getElem? hd)).append? happ
  exact ⟨d, d', hd, rfl, hsize, hmembers⟩

theorem mem_pieces_appendMember? (hw : w.Coherent) {index : Nat} {member : Brick}
    (h : w.appendMember? index member = some w') :
    b ∈ w'.pieces ↔ b = member ∨ b ∈ w.pieces := by
  obtain ⟨d, d', hd, rfl, -, hmembers⟩ := hw.extended h
  have hlt : index < w.definitions.length := (List.getElem?_eq_some_iff.1 hd).1
  constructor
  · intro hb
    rcases mem_pieces.1 hb with hbrick | ⟨e, he, hmember⟩
    · exact .inr (mem_pieces_of_brick hbrick)
    rcases List.mem_or_eq_of_mem_set he with he | rfl
    · exact .inr (mem_pieces.2 (.inr ⟨e, he, hmember⟩))
    · rw [hmembers] at hmember
      rcases List.mem_append.1 hmember with hold | hnew
      · exact .inr (mem_pieces_of_member hd hold)
      · exact .inl (List.mem_singleton.1 hnew)
  · intro hb
    have hset : (w.definitions.set index d')[index]? = some d' := List.getElem?_set_self hlt
    have hlast : ∀ m ∈ d'.members, m ∈ (w.redefine (w.definitions.set index d')).pieces :=
      fun m hm => mem_pieces_of_member hset hm
    rw [hmembers] at hlast
    rcases hb with rfl | hb
    · exact hlast b (by simp)
    rcases mem_pieces.1 hb with hbrick | ⟨e, he, hmember⟩
    · exact mem_pieces_of_brick hbrick
    obtain ⟨i, hi⟩ := List.mem_iff_getElem?.1 he
    by_cases heq : index = i
    · subst heq
      rw [hd] at hi
      cases hi
      exact hlast b (List.mem_append_left _ hmember)
    · have hother : (w.definitions.set index d')[i]? = some e := by
        rw [List.getElem?_set_ne heq]
        exact hi
      exact mem_pieces_of_member hother hmember

/-- After an extension, only pieces of the extended struct may have become stale. -/
theorem stale_of_appendMember? (hw : w.Coherent) {index : Nat} {member : Brick}
    (h : w.appendMember? index member = some w') (hb : w'.Stale b) :
    w.Stale b ∨ (b ∈ w.pieces ∧ b.type.structIndex? = some index) := by
  obtain ⟨hmem, hstale⟩ := hb
  have hother (hne : b.type.structIndex? ≠ some index) : ¬ w.Aligns b := by
    intro halign
    obtain ⟨d, d', -, rfl, -⟩ := hw.extended h
    exact hstale (aligns_of_typeInfo?_eq (hw.typeInfo?_set hne) halign)
  rcases (mem_pieces_appendMember? hw h).1 hmem with rfl | hold
  · -- The new member has been checked, and its type is not the extended struct.
    obtain ⟨-, info, -, -, hinfo, hmay, -, hmod, -⟩ := appendMember?_eq_some_iff.1 h
    exact absurd ⟨info, hinfo, Nat.dvd_of_mod_eq_zero hmod⟩
      (hother (structIndex?_ne_of_mayContain hmay))
  · by_cases hindex : b.type.structIndex? = some index
    · exact .inr ⟨hold, hindex⟩
    · exact .inl ⟨hold, hother hindex⟩

/-! ### Executions -/

open Execution in
theorem stale_of_step {data : Data} {s s' : State} {c : Command} (hw : s.wall.Coherent)
    (h : step data s c = .ok s') (hb : s'.wall.Stale b) : s.wall.Stale b := by
  cases c with
  | declare line struct members =>
    obtain ⟨body, index, wall, -, hfound, rfl⟩ := declareStruct_eq_ok_iff.1 h
    rcases obtainDefinition_eq_ok_iff.1 hfound with ⟨-, rfl⟩ | ⟨-, -, hadd⟩
    · exact hb
    · have hfits := fits_of_addDefinition hw hadd
      obtain ⟨d, rfl, -, -, hmembers, -⟩ := addDefinition_eq_some hadd
      rw [← hmembers] at hfits
      exact stale_of_redefine_append hw hfits hb
  | place d =>
    obtain ⟨e, -, ⟨-, rfl⟩ | ⟨-, stop, answer, -, -, hanswer, rfl⟩⟩ := placeField_eq_ok_iff.1 h
    · exact hb
    · cases answer with
      | ok wall =>
        obtain ⟨brick, hbrick⟩ := insert_of_insertField hanswer
        exact stale_of_insert hbrick hb
      | error rejection => exact hb
  | evaluate e =>
    obtain ⟨value, -, rfl⟩ := noteValue_eq_ok_iff.1 h
    exact hb

/-- An execution leaves no piece stale that was not stale before. -/
theorem stale_of_execute (hw : w.Coherent) {t : Template} {view : View}
    {options : Execution.Options}
    (hb : (t.execute w view options).wall.Stale b) : w.Stale b := by
  have hrun : (t.runOn w view options).1.wall.Coherent ∧
      ((t.runOn w view options).1.wall.Stale b → w.Stale b) := by
    refine Execution.run_induction
      (P := fun s => s.wall.Coherent ∧ (s.wall.Stale b → w.Stale b)) ?_ ⟨hw, id⟩
    intro s s' c _ hs hstep
    exact ⟨hs.1.step hstep, fun h => hs.2 (stale_of_step hs.1 hstep h)⟩
  unfold Template.execute at hb
  split at hb
  · next s heq =>
    rw [heq] at hrun
    exact hrun.2 hb
  · exact hb

/-! ### Operations -/

/-- The operation does not extend a struct that is in use, or the new size of the struct
    divides the sizes of all bricks and members of its type. -/
def Respects (w : Wall) : Operation → Prop
  | .appendMember index member => (w.appendMember? index member).isSome →
      ∀ d, w.definitions[index]? = some d → ∀ b ∈ w.pieces, b.type.structIndex? = some index →
        d.size.toNat + member.size.toNat ∣ b.size.toNat
  | _ => True

theorem stale_of_settle {r : Option Wall} (h : ∀ w', r = some w' → w'.Stale b → w.Stale b)
    (hb : (w.settle r).1.Stale b) : w.Stale b := by
  cases r with
  | some w' => exact h w' rfl hb
  | none => exact hb

theorem perform_appendMember_of_some {index : Nat} {member : Brick}
    (h : w.appendMember? index member = some w') :
    w.perform (.appendMember index member) = (w', true) := by
  show w.settle (w.appendMember? index member) = _
  rw [h]
  rfl

theorem perform_appendMember_of_none {index : Nat} {member : Brick}
    (h : w.appendMember? index member = none) :
    w.perform (.appendMember index member) = (w, false) := by
  show w.settle (w.appendMember? index member) = _
  rw [h]
  rfl

/-- A piece goes stale only when the definition of its type is extended. -/
theorem stale_of_perform (hw : w.Coherent) {op : Operation} (hb : (w.perform op).1.Stale b) :
    w.Stale b ∨ ∃ index member, op = .appendMember index member ∧ b ∈ w.pieces ∧
      b.type.structIndex? = some index := by
  cases op with
  | insert e =>
    exact .inl (stale_of_settle (fun _ h => stale_of_insert (toOption_eq_some_iff.1 h)) hb)
  | insertStruct name start count index =>
    refine .inl (stale_of_settle (fun w' h => ?_) hb)
    obtain ⟨e, he⟩ := insert_of_insertStruct (toOption_eq_some_iff.1 h)
    exact stale_of_insert he
  | eraseAt offset => exact .inl (stale_of_eraseAt hb)
  | define name color => exact .inl (stale_of_define hw hb)
  | appendMember index member =>
    cases happ : w.appendMember? index member with
    | some w' =>
      rw [perform_appendMember_of_some happ] at hb
      rcases stale_of_appendMember? hw happ hb with hold | ⟨hmem, hindex⟩
      · exact .inl hold
      · exact .inr ⟨index, member, rfl, hmem, hindex⟩
    | none =>
      rw [perform_appendMember_of_none happ] at hb
      exact .inl hb
  | execute t _ view options => exact .inl (stale_of_execute hw hb)

/-- An extension keeps a piece of the extended struct aligned if the new size of the struct
    divides the size of the piece. -/
theorem aligns_appendMember?_iff (hw : w.Coherent) {index : Nat} {member : Brick}
    {d : Definition} (hd : w.definitions[index]? = some d)
    (h : w.appendMember? index member = some w') (hb : b.type.structIndex? = some index) :
    w'.Aligns b ↔ d.size.toNat + member.size.toNat ∣ b.size.toNat := by
  have hw' : w'.Coherent := hw.appendMember? h
  obtain ⟨e, d', he, rfl, hsize, -⟩ := hw.extended h
  rw [hd] at he
  cases he
  have hset : (w.definitions.set index d')[index]? = some d' :=
    List.getElem?_set_self (List.getElem?_eq_some_iff.1 hd).1
  rw [hw'.aligns_struct_iff hb hset, hsize]

/-- An operation on an aligned wall leads to an aligned wall if and only if it respects the
    pieces that are there. -/
theorem aligned_perform_iff (hw : w.Coherent) (halign : w.Aligned) (op : Operation) :
    (w.perform op).1.Aligned ↔ w.Respects op := by
  rw [aligned_iff_forall_not_stale] at halign
  constructor
  · intro hafter
    cases op with
    | appendMember index member =>
      intro hsome d hd b hb hindex
      obtain ⟨w', happ⟩ := Option.isSome_iff_exists.1 hsome
      rw [perform_appendMember_of_some happ] at hafter
      have hmem : b ∈ w'.pieces := (mem_pieces_appendMember? hw happ).2 (.inr hb)
      exact (aligns_appendMember?_iff hw hd happ hindex).1 (hafter b hmem)
    | _ => trivial
  · intro hrespects
    rw [aligned_iff_forall_not_stale]
    intro b hstale
    rcases stale_of_perform hw hstale with hold | ⟨index, member, rfl, hmem, hindex⟩
    · exact halign b hold
    · cases happ : w.appendMember? index member with
      | none =>
        rw [perform_appendMember_of_none happ] at hstale
        exact halign b hstale
      | some w' =>
        rw [perform_appendMember_of_some happ] at hstale
        obtain ⟨d, d', hd, -⟩ := hw.extended happ
        have hdvd := hrespects (Option.isSome_of_eq_some happ) d hd b hmem hindex
        exact hstale.2 ((aligns_appendMember?_iff hw hd happ hindex).2 hdvd)

/-! ### Series of Operations -/

/-- The wall that a series of operations leads to from the wall without bricks and
    definitions. -/
def performAll (ops : List Operation) : Wall := ops.foldl (fun w op => (w.perform op).1) .empty

theorem coherent_performAll (ops : List Operation) : (performAll ops).Coherent :=
  List.foldlRecOn ops _ coherent_empty fun _ hw op _ => hw.perform op

/-- Every reachable wall is one that a series of operations leads to. -/
theorem Reachable.exists_performAll (hw : w.Reachable) : ∃ ops, w = performAll ops := by
  induction hw with
  | empty => exact ⟨[], rfl⟩
  | perform op _ _ ih =>
    obtain ⟨ops, rfl⟩ := ih
    refine ⟨ops ++ [op], ?_⟩
    unfold performAll
    rw [List.foldl_append]
    rfl

theorem performAll_take_succ {ops : List Operation} {n : Nat} {op : Operation}
    (h : ops[n]? = some op) :
    performAll (ops.take (n + 1)) = ((performAll (ops.take n)).perform op).1 := by
  unfold performAll
  rw [List.take_add_one, h, List.foldl_append]
  rfl

theorem take_succ_of_getElem?_eq_none {ops : List Operation} {n : Nat} (h : ops[n]? = none) :
    ops.take (n + 1) = ops.take n := by
  rw [List.take_add_one, h]
  exact List.append_nil _

/-- A stale piece was there when the definition of its type was extended. -/
theorem extended_of_stale (ops : List Operation) (n : Nat)
    (hb : (performAll (ops.take n)).Stale b) :
    ∃ k index member, k < n ∧ ops[k]? = some (.appendMember index member) ∧
      b ∈ (performAll (ops.take k)).pieces ∧ b.type.structIndex? = some index := by
  induction n with
  | zero => exact absurd hb.1 (by simp [performAll, empty, pieces])
  | succ n ih =>
    have hearlier (hold : (performAll (ops.take n)).Stale b) :
        ∃ k index member, k < n + 1 ∧ ops[k]? = some (.appendMember index member) ∧
          b ∈ (performAll (ops.take k)).pieces ∧ b.type.structIndex? = some index := by
      obtain ⟨k, index, member, hk, h⟩ := ih hold
      exact ⟨k, index, member, Nat.lt_succ_of_lt hk, h⟩
    cases hop : ops[n]? with
    | none =>
      rw [take_succ_of_getElem?_eq_none hop] at hb
      exact hearlier hb
    | some op =>
      rw [performAll_take_succ hop] at hb
      rcases stale_of_perform (coherent_performAll _) hb with
        hold | ⟨index, member, rfl, hmem, hindex⟩
      · exact hearlier hold
      · exact ⟨n, index, member, Nat.lt_succ_self n, hop, hmem, hindex⟩

/-- **Main theorem.** All sizes are multiples of the current sizes of their types after each
    operation of a series if and only if each operation respects the pieces that are there.
    A piece that is stale in the end was there when the struct of its type was extended, so
    a brick or member of a primitive type is never stale. -/
theorem aligned_throughout_iff (ops : List Operation) :
    ((∀ n, (performAll (ops.take n)).Aligned) ↔
      ∀ n op, ops[n]? = some op → (performAll (ops.take n)).Respects op) ∧
    ∀ b, (performAll ops).Stale b → ∃ n index member,
      ops[n]? = some (.appendMember index member) ∧
      b ∈ (performAll (ops.take n)).pieces ∧ b.type.structIndex? = some index := by
  refine ⟨⟨?_, ?_⟩, ?_⟩
  · intro hall n op hop
    have hafter := hall (n + 1)
    rw [performAll_take_succ hop] at hafter
    exact (aligned_perform_iff (coherent_performAll _) (hall n) op).1 hafter
  · intro hall n
    induction n with
    | zero => exact fun b hb => absurd hb (by simp [performAll, empty, pieces])
    | succ n ih =>
      cases hop : ops[n]? with
      | none =>
        rw [take_succ_of_getElem?_eq_none hop]
        exact ih
      | some op =>
        rw [performAll_take_succ hop]
        exact (aligned_perform_iff (coherent_performAll _) ih op).2 (hall n op hop)
  · intro b hb
    rw [← List.take_length (l := ops)] at hb
    obtain ⟨n, index, member, -, h⟩ := extended_of_stale ops ops.length hb
    exact ⟨n, index, member, h⟩

/-- A wall with a brick of a struct that was extended afterwards. -/
def outgrown : Wall :=
  performAll [.define "S" 0, .appendMember 0 (.plain "x" (.ofPrimitive .uint8) 0 1 0),
    .insertStruct "s" 0 1 0, .appendMember 0 (.plain "y" (.ofPrimitive .uint8) 1 1 0)]

theorem outgrown_reachable : outgrown.Reachable :=
  .perform _ (.perform _ (.perform _ (.perform _ .empty (by decide +kernel))
    (by decide +kernel)) (by decide +kernel)) (by decide +kernel)

/-- The brick of one byte is not a multiple of its type, which has two. -/
theorem outgrown_not_aligned : outgrown.Reachable ∧ ¬ outgrown.Aligned := by
  refine ⟨outgrown_reachable, ?_⟩
  intro h
  have hbrick : (⟨Label.ofString "s", .ofStruct 0, 0, 1, 0, some 0⟩ : Brick) ∈ outgrown.pieces := by
    decide +kernel
  obtain ⟨info, hinfo, hdvd⟩ := h _ hbrick
  have hsize : outgrown.typeInfo? (.ofStruct 0) = some ⟨"S", 2⟩ := by decide +kernel
  rw [hsize] at hinfo
  cases hinfo
  exact absurd hdvd (by decide)

end Wall

end ByteBricks
