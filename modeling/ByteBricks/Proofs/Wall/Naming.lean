import ByteBricks.Proofs.Execution.Repeat

/-! # The Names of Definitions

  A wall keeps the names of its definitions and of their members as labels, which are cut
  after 31 bytes, and looks both up by the text of a label. Operations add definitions behind
  those that are there, and members behind those that a definition has.

  Main statement: a new definition is found by the text of its label for as long as none with
  the same label is added, and an appended member is found by the text of its label for good,
  if no member in front of it has the same label. A name of at most 31 bytes is the text of its
  label. -/

namespace ByteBricks

/-- The second definition is the first one, perhaps with more members behind its own. -/
structure Definition.Grows (d d' : Definition) : Prop where
  /-- The label stays. -/
  name : d'.name = d.name
  /-- The members that were there come first. -/
  members : d.members <+: d'.members

namespace Definition

variable {d d' d'' : Definition} {member : Brick} {text : String}

theorem Grows.refl (d : Definition) : d.Grows d := ⟨rfl, List.prefix_rfl⟩

theorem Grows.trans (h : d.Grows d') (h' : d'.Grows d'') : d.Grows d'' where
  name := h'.name.trans h.name
  members := h.members.trans h'.members

theorem grows_of_append? (h : d.append? member = some d') :
    d.Grows d' ∧ d'.members = d.members ++ [member] := by
  obtain ⟨-, rfl⟩ := append?_eq_some_iff.1 h
  exact ⟨⟨rfl, List.prefix_append _ _⟩, rfl⟩

/-- A member that is found stays the first of its name. -/
theorem Grows.member? (h : d.Grows d') (hfound : d.member? text = some member) :
    d'.member? text = some member := by
  obtain ⟨more, hmore⟩ := h.members
  unfold Definition.member? at hfound ⊢
  rw [← hmore, List.find?_append, hfound, Option.some_or]

/-- The last member is found by its label, unless one in front of it has the same label. -/
theorem member?_of_append? (h : d.append? member = some d')
    (hnew : ∀ e ∈ d.members, e.name ≠ member.name) :
    d'.member? member.name.text = some member := by
  obtain ⟨-, hmembers⟩ := grows_of_append? h
  have hothers : d.members.find? (·.name.text == member.name.text) = none := by
    rw [List.find?_eq_none]
    intro e he heq
    exact hnew e he (Label.ext (beq_iff_eq.1 heq))
  unfold Definition.member?
  rw [hmembers, List.find?_append, hothers, Option.none_or]
  exact List.find?_cons_of_pos (beq_self_eq_true _)

end Definition

namespace Wall

variable {w w' : Wall} {i : Nat} {d : Definition}

/-! ### Operations -/

/-- The definition at an index of the first wall is there in the second one, perhaps with more
    members. -/
def Retains (w w' : Wall) : Prop :=
  ∀ (i : Nat) (d : Definition), w.definitions[i]? = some d →
    ∃ d', w'.definitions[i]? = some d' ∧ d.Grows d'

theorem Retains.trans {w'' : Wall} (h : w.Retains w') (h' : w'.Retains w'') :
    w.Retains w'' := by
  intro i d hd
  obtain ⟨d', hd', hgrows⟩ := h i d hd
  obtain ⟨d'', hd'', hgrows'⟩ := h' i d' hd'
  exact ⟨d'', hd'', hgrows.trans hgrows'⟩

theorem retains_of_prefix (h : w.definitions <+: w'.definitions) : w.Retains w' :=
  fun _ d hd => ⟨d, Execution.getElem?_of_prefix h hd, .refl d⟩

theorem retains_of_eq (h : w'.definitions = w.definitions) : w.Retains w' :=
  retains_of_prefix (h ▸ List.prefix_rfl)

theorem retains_of_appendMember? {index : Nat} {member : Brick}
    (h : w.appendMember? index member = some w') : w.Retains w' := by
  obtain ⟨e, info, e', he, -, -, -, -, happ, rfl⟩ := appendMember?_eq_some_iff.1 h
  intro i d hd
  show ∃ d', (w.definitions.set index e')[i]? = some d' ∧ d.Grows d'
  by_cases hi : index = i
  · subst hi
    rw [List.getElem?_set_self (List.getElem?_eq_some_iff.1 he).1]
    cases he.symm.trans hd
    exact ⟨e', rfl, (Definition.grows_of_append? happ).1⟩
  · rw [List.getElem?_set_ne hi]
    exact ⟨d, hd, .refl d⟩

theorem retains_execute (w : Wall) (t : Template) (view : View) (options : Execution.Options) :
    w.Retains (t.execute w view options).wall := by
  unfold Template.execute
  split
  · next s heq =>
    obtain ⟨ds, hds, -⟩ := Execution.definitions_of_run heq
    apply retains_of_prefix
    exact ⟨ds, hds.symm⟩
  · -- An execution that stops early leaves the wall as it was.
    exact retains_of_eq rfl

theorem retains_settle {r : Option Wall} (h : ∀ w', r = some w' → w.Retains w') :
    w.Retains (w.settle r).1 := by
  cases r with
  | some w' => exact h w' rfl
  | none => exact retains_of_eq rfl

theorem retains_of_insert {b : Brick} (h : w.insert b = .ok w') : w.Retains w' := by
  obtain ⟨-, -, -, -, -, -, rfl⟩ := insert_eq_ok_iff.1 h
  exact retains_of_eq rfl

/-- No operation renames a definition or takes it or one of its members away. -/
theorem retains_perform (w : Wall) (op : Operation) : w.Retains (w.perform op).1 := by
  cases op with
  | insert b =>
    apply retains_settle
    intro w' h
    exact retains_of_insert (toOption_eq_some_iff.1 h)
  | insertStruct name start count index =>
    apply retains_settle
    intro w' h
    obtain ⟨b, hb⟩ := insert_of_insertStruct (toOption_eq_some_iff.1 h)
    exact retains_of_insert hb
  | eraseAt offset => exact retains_of_eq rfl
  | define name color => exact retains_of_prefix (List.prefix_append _ _)
  | appendMember index member => exact retains_settle fun w' h => retains_of_appendMember? h
  | execute t _ view options => exact retains_execute w t view options

/-- The wall that a series of operations leads to. -/
def follow (w : Wall) (ops : List Operation) : Wall := ops.foldl (fun w op => (w.perform op).1) w

/-- What one operation retains, a series of them does. -/
theorem retains_follow (w : Wall) (ops : List Operation) : w.Retains (w.follow ops) := by
  induction ops generalizing w with
  | nil => exact retains_of_eq rfl
  | cons op ops ih => exact (retains_perform w op).trans (ih _)

/-! ### Looking Up Definitions and Members -/

/-- A definition is found by its label if and only if it is the last of its label. -/
theorem structIndex?_eq_some_iff (hd : w.definitions[i]? = some d) :
    w.structIndex? d.name.text = some i ↔
      ∀ j e, i < j → w.definitions[j]? = some e → e.name ≠ d.name := by
  have hother (e : Definition) : (e.name.text == d.name.text) = false ↔ e.name ≠ d.name := by
    rw [beq_eq_false_iff_ne, ne_eq, ne_eq, ← Label.ext_iff]
  unfold structIndex?
  rw [lastIdx?_eq_some_iff]
  simp only [hother]
  constructor
  · intro h
    exact h.2
  · intro h
    exact ⟨⟨d, hd, beq_self_eq_true _⟩, h⟩

/-- The wall that operations lead to after a definition without members was added. -/
def defineThen (w : Wall) (name : String) (color : Color) (ops : List Operation) : Wall :=
  (w.define name color).follow ops

/-- The definition that was added stays where it is, under its label. -/
theorem definition_defineThen (w : Wall) (name : String) (color : Color) (ops : List Operation) :
    ∃ d, (w.defineThen name color ops).definitions[w.definitions.length]? = some d ∧
      d.name = Label.ofString name := by
  have hnew : (w.define name color).definitions[w.definitions.length]? =
      some (.empty name color) := by
    rw [define_definitions]
    exact List.getElem?_concat_length
  obtain ⟨d, hd, hgrows⟩ := retains_follow (w.define name color) ops _ _ hnew
  exact ⟨d, hd, hgrows.name⟩

/-- An appended member is found in its definition, whatever happens to the wall afterwards. -/
theorem member?_of_appendMember? {member : Brick} (h : w.appendMember? i member = some w')
    (hnew : ∀ d, w.definitions[i]? = some d → ∀ e ∈ d.members, e.name ≠ member.name)
    (ops : List Operation) :
    ∃ d, (w'.follow ops).definitions[i]? = some d ∧
      d.member? member.name.text = some member := by
  obtain ⟨d, info, d', hd, -, -, -, -, happ, rfl⟩ := appendMember?_eq_some_iff.1 h
  have hd' : (w.redefine (w.definitions.set i d')).definitions[i]? = some d' :=
    List.getElem?_set_self (List.getElem?_eq_some_iff.1 hd).1
  have hfound := Definition.member?_of_append? happ (hnew d hd)
  obtain ⟨d'', hd'', hgrows⟩ := retains_follow _ ops i d' hd'
  exact ⟨d'', hd'', hgrows.member? hfound⟩

/-- **Main theorem.** A new definition is found by the text of its label for as long as no other
    definition of that label is added. A member that is appended to it is found by the text of
    its label from then on, if no member in front of it has that label. A name that is not too
    long is the text of its label. -/
theorem found_by_label (w : Wall) (name : String) (color : Color) :
    (∀ ops, (w.defineThen name color ops).structIndex? (Label.ofString name).text =
        some w.definitions.length ↔
      ∀ j d, w.definitions.length < j →
        (w.defineThen name color ops).definitions[j]? = some d → d.name ≠ Label.ofString name) ∧
    (∀ ops part type start size partColor w',
      (w.defineThen name color ops).appendMember? w.definitions.length
        (.plain part type start size partColor) = some w' →
      (∀ d, (w.defineThen name color ops).definitions[w.definitions.length]? = some d →
        ∀ e ∈ d.members, e.name ≠ Label.ofString part) →
      ∀ ops', ∃ d, (w'.follow ops').definitions[w.definitions.length]? = some d ∧
        d.member? (Label.ofString part).text = some (.plain part type start size partColor)) ∧
    ∀ text : String, text.utf8ByteSize ≤ Label.maxSize → (Label.ofString text).text = text := by
  refine ⟨?_, ?_, ?_⟩
  · intro ops
    obtain ⟨d, hd, hname⟩ := definition_defineThen w name color ops
    rw [← hname]
    exact structIndex?_eq_some_iff hd
  · intro ops part type start size partColor w' h hnew ops'
    exact member?_of_appendMember? h hnew ops'
  · intro text h
    exact Label.text_ofString h

/-- A name of 32 bytes. -/
def longName : String := "checksum_of_the_compressed_block"

/-- The first 31 bytes of the long name. -/
def cutName : String := "checksum_of_the_compressed_bloc"

/-- A member of the long name. -/
def longPart : Brick := .plain longName (.ofPrimitive .uint8) 0 1 0

/-- A member of the name that the long name is cut to. -/
def cutPart : Brick := .plain cutName (.ofPrimitive .uint16) 1 2 0

/-- A wall with a struct of the long name that has both members. -/
def abridged : Wall :=
  Wall.empty.follow [.define longName 0, .appendMember 0 longPart, .appendMember 0 cutPart]

theorem abridged_reachable : abridged.Reachable :=
  .perform _ (.perform _ (.perform _ .empty (by decide +kernel)) (by decide +kernel))
    (by decide +kernel)

/-- The struct and its first member are found by the name that theirs is cut to. -/
theorem abridged_found_by_label :
    abridged.structIndex? cutName = some 0 ∧
      ∃ d, abridged.definitions[0]? = some d ∧ d.member? cutName = some longPart := by
  obtain ⟨hstruct, hmember, -⟩ := found_by_label .empty longName 0
  have hcut : (Label.ofString longName).text = cutName := by decide +kernel
  rw [hcut] at hstruct
  constructor
  · apply (hstruct [.appendMember 0 longPart, .appendMember 0 cutPart]).2
    intro j d hj hd
    -- There is no other definition.
    have hlength : abridged.definitions.length = 1 := by decide +kernel
    have hlt : j < abridged.definitions.length := (List.getElem?_eq_some_iff.1 hd).1
    exact absurd hj (by omega)
  · have hfound := hmember [] longName (.ofPrimitive .uint8) 0 1 0
      ((Wall.empty.define longName 0).perform (.appendMember 0 longPart)).1 (by decide +kernel)
      (by decide +kernel) [.appendMember 0 cutPart]
    rw [hcut] at hfound
    exact hfound

/-- The struct is not found by the name that it was given, and the name of the second member,
    which no other member was given, leads to the first one. -/
theorem longName_not_found :
    Wall.empty.Reachable ∧ (Wall.empty.define longName 0).structIndex? longName = none ∧
      abridged.Reachable ∧ longName ≠ cutName ∧
      abridged.definitions[0]?.bind (·.member? cutName) = some longPart :=
  ⟨.empty, by decide +kernel, abridged_reachable, by decide, by decide +kernel⟩

end Wall

end ByteBricks
