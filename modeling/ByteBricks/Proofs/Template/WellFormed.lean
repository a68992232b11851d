import ByteBricks.Proofs.Template.Linking
import ByteBricks.Proofs.Template.References

/-! # Well-Formed Templates

  The cells that a source is lowered to form a tree that is walked along its links without
  ever coming back: there is one way to each cell, chains go on to later cells and lead down
  to earlier ones, and the end of the script is the end of the first chain. The names that
  the cells refer to are those of the source. -/

namespace ByteBricks.Template

open Token (nameTexts)

/-! ### Plain Cells -/

/-- The cell is not the end of the script, and only declarations have the type of a struct,
    whose name is the one that they refer to. -/
structure Cell.Plain (c : Cell) : Prop where
  goesOn : c.content ≠ .scriptEnd
  typed : ∀ name, c.type = some (.struct name) → ∃ count field,
    c.content = .fieldDecl name count field

theorem Cell.Plain.of_primitive {c : Cell} {t : Primitive} (hcontent : c.content ≠ .scriptEnd)
    (htype : c.type = some (.primitive t)) : c.Plain where
  goesOn := hcontent
  typed name h := by simp [htype] at h

section HasCells

variable {α : Type} [HasCells α]

/-- All cells of the tree are plain. -/
def Plain (x : α) : Prop := ∀ next, ∀ p ∈ treeCells x next, p.2.Plain

theorem Plain.root {x : α} (hroot : ∀ next, (rootCell x next).2.Plain)
    (hinner : ∀ p ∈ HasCells.inner x, p.2.Plain) : Plain x := by
  intro next p hp
  rcases List.mem_append.1 hp with hp | hp
  · exact hinner p hp
  · rw [List.mem_singleton.1 hp]
    exact hroot next

theorem plain_chain {xs : List α} (h : ∀ x ∈ xs, Plain x) : ∀ p ∈ chainCells xs, p.2.Plain := by
  induction xs with
  | nil => simp [chainCells]
  | cons x xs ih =>
    obtain ⟨hx, hxs⟩ := List.forall_mem_cons.1 h
    exact List.forall_mem_append.2 ⟨hx _, ih hxs⟩

/-- Behind its last tree, a chain goes on nowhere. -/
theorem chainRoots_concat (xs : List α) (x : α) :
    ∃ front, chainRoots (xs ++ [x]) = front ++ [rootCell x none] := by
  induction xs with
  | nil => exact ⟨[], rfl⟩
  | cons y xs ih =>
    obtain ⟨front, hfront⟩ := ih
    refine ⟨rootCell y (headOf? (xs ++ [x])) :: front, ?_⟩
    rw [List.cons_append, chainRoots, hfront]
    rfl

theorem mem_chainCells_concat {xs : List α} {x : α} {p : Placed}
    (h : p ∈ chainCells (xs ++ [x])) :
    (∃ y ∈ xs, ∃ next, p ∈ treeCells y next) ∨ p ∈ treeCells x none := by
  induction xs with
  | nil => exact .inr (by simpa [chainCells, headOf?] using h)
  | cons y xs ih =>
    rw [List.cons_append, chainCells, List.mem_append] at h
    rcases h with h | h
    · exact .inl ⟨y, List.mem_cons_self, _, h⟩
    · rcases ih h with ⟨z, hz, next, hp⟩ | hp
      · exact .inl ⟨z, List.mem_cons_of_mem _ hz, next, hp⟩
      · exact .inr hp

end HasCells

theorem plain_expr (e : Expr) : Plain e := by
  have hroot (e : Expr) (next : Option Handle) : (rootCell e next).2.Plain :=
    .of_primitive (by cases e <;> exact nofun) rfl
  induction e with
  | literal m value | access m t field =>
    exact .root (hroot _) (by simp [HasCells.inner, Expr.inner])
  | element m t baseMark field index ih =>
    exact .root (hroot _) (List.forall_mem_cons.2 ⟨.of_primitive nofun rfl, ih none⟩)
  | arith m t op lhs rhs ihl ihr =>
    refine .root (hroot _) ?_
    have h := List.forall_mem_append.2 ⟨ihl none, ihr none⟩
    rwa [treeCells, List.append_assoc] at h

theorem plain_declaration (d : Declaration) : Plain d := by
  refine .root (fun next => ⟨nofun, fun name h => ?_⟩) (plain_chain fun e _ => plain_expr e)
  have htype : d.cellType = .struct name := Option.some.inj h
  unfold Declaration.cellType CellType.ofName at htype
  split at htype
  · cases htype
  · cases htype
    exact ⟨_, _, rfl⟩

mutual

/-- Only the end of the script has no text. -/
theorem plain_statement : ∀ {s : Statement}, s.Printable → Plain s
  | .struct m name members, _ =>
    .root (fun _ => ⟨nofun, nofun⟩) (plain_chain fun d _ => plain_declaration d)
  | .field d, _ => plain_declaration d
  | .block m body, hs => by
    rw [Statement.Printable] at hs
    refine .root (fun _ => ⟨nofun, nofun⟩) ?_
    show ∀ p ∈ Statement.innerAll body, _
    rw [Statement.innerAll_eq]
    exact plain_chain (plain_statements hs.2)
  | .expression e, _ => plain_expr e
  | .scriptEnd m, hs => by simp [Statement.Printable] at hs

theorem plain_statements : ∀ {xs : List Statement}, Statement.PrintableAll xs →
    ∀ x ∈ xs, Plain x
  | [], _ => by simp
  | s :: rest, hs => by
    rw [Statement.PrintableAll] at hs
    exact List.forall_mem_cons.2 ⟨plain_statement hs.1, plain_statements hs.2⟩

end

/-! ### The Code of a Source -/

/-- What the cells that a source is lowered to are like. -/
structure Code.WellFormed (source : String) (c : Code) : Prop where
  /-- The entries are what is found in the store. -/
  found : ∀ h cell, (h, cell) ∈ c.entries ↔ c.cells.get? h = some cell
  /-- The chain of statements ends, and its last cell is the only end of the script. -/
  ends : ∃ front last, IsChain c.entries c.first (front ++ [last]) ∧
    ∀ p ∈ c.entries, p.content = .scriptEnd ↔ p = last
  /-- Chains go on to later cells and lead down to earlier ones. -/
  ordered : ∀ p ∈ c.entries, p.Ordered
  /-- There is one link to each cell, if the code links to its first statement. -/
  once : (c.first.toList ++ c.entries.flatMap Placed.links).Perm
    (c.entries.map Prod.fst)
  /-- Each cell is reached from the first statement. -/
  reached : ∀ p ∈ c.entries, ∃ h, c.first = some h ∧ Reaches c.entries h p.1
  /-- Members are declarations, and elements are those of references. -/
  shaped : ∀ p ∈ c.entries, p.2.Shaped c.entries
  /-- Only a declaration has the type of a struct, whose name it refers to. -/
  typed : ∀ p ∈ c.entries, ∀ name, p.2.type = some (.struct name) → ∃ count field,
    p.content = .fieldDecl name count field
  /-- The references along the links are those of the cells, and from left to right they stand
      for the names of the source. -/
  named : ∃ references, CitesAll c.entries c.first references ∧
    references.Perm (c.entries.flatMap Placed.references) ∧
    references.map (fun r => c.names.get? r.2.offset) =
      (nameTexts ((Token.scan source).tokens.map Token.word)).map some

variable {source : String} {t : Template}

/-- A compiled template is printable statements and the end of the script behind them. -/
theorem ends_of_compile (h : compile source = .ok t) :
    ∃ xs m, t.statements = xs ++ [.scriptEnd m] ∧ Statement.PrintableAll xs := by
  obtain ⟨xs, m, s, u, line, ht, hrestates, -⟩ := restates_of_compile h
  exact ⟨xs, m, ht, hrestates.printable trivial⟩

/-- The cells of the statements hang together, that of the end of the script included. -/
theorem hangs_of_compile (h : compile source = .ok t) : Hangs t.first?.toList t.cells [] := by
  obtain ⟨xs, m, ht, hprintable⟩ := ends_of_compile h
  have hend : Grown (Statement.scriptEnd m) := ⟨.nil, fun _ => trivial⟩
  have hgrown : ∀ x ∈ t.statements, Grown x := by
    rw [ht]
    exact List.forall_mem_append.2
      ⟨grown_statements hprintable, List.forall_mem_singleton.2 hend⟩
  exact hangs_chain hgrown

/-- Nodes are numbered in the order in which they are finished, which is that of the cells. -/
theorem ascending_of_compile (h : compile source = .ok t) : Ascending t.cells := by
  have hsorted := List.pairwise_lt_range (n := t.count)
  rw [← map_id_cells_of_compile h, List.pairwise_map] at hsorted
  exact hsorted

/-- All cells are plain but the last one of the chain of statements. -/
theorem plain_of_compile (h : compile source = .ok t) :
    ∃ front last, chainRoots t.statements = front ++ [last] ∧ last.content = .scriptEnd ∧
      last.2.type = none ∧ ∀ p ∈ t.cells, p.2.Plain ∨ p = last := by
  obtain ⟨xs, m, ht, hprintable⟩ := ends_of_compile h
  obtain ⟨front, hfront⟩ := chainRoots_concat xs (Statement.scriptEnd m)
  refine ⟨front, rootCell (Statement.scriptEnd m) none, ht ▸ hfront, rfl, rfl, fun p hp => ?_⟩
  have hp : p ∈ chainCells (xs ++ [.scriptEnd m]) := ht ▸ hp
  rcases mem_chainCells_concat hp with ⟨y, hy, next, hp⟩ | hp
  · exact .inl (plain_statements hprintable y hy next p hp)
  · exact .inr (List.mem_singleton.1 hp)

/-- The names are cited along the links, from left to right. -/
theorem citesAll_of_compile (h : compile source = .ok t) :
    CitesAll t.cells t.first? (Statement.referencesAll t.statements) := by
  obtain ⟨xs, m, ht, hprintable⟩ := ends_of_compile h
  have hcited : ∀ x ∈ t.statements, Cited x x.references := by
    rw [ht]
    exact List.forall_mem_append.2 ⟨cited_statements hprintable,
      List.forall_mem_singleton.2 fun cells next _ => .scriptEnd rfl⟩
  rw [Statement.referencesAll_eq]
  exact citesAll_chain hcited (List.Subset.refl _)

/-- **Main theorem.** A source that compiles is lowered to the cells of its template, which are
    well formed. -/
theorem wellFormed_of_compile {source : String} {t : Template} (h : compile source = .ok t) :
    ∃ c, Code.ofSource source = .ok c ∧ c.Represents t ∧ c.WellFormed source := by
  obtain ⟨c, hc, hrepresents⟩ := exists_represents h
  refine ⟨c, hc, hrepresents, ?_⟩
  obtain ⟨hsound, hcells, hnames, hfirst⟩ := hrepresents
  have hhangs := hangs_of_compile h
  obtain ⟨front, last, hroots, hlast, htype, hplain⟩ := plain_of_compile h
  constructor
  case found => exact fun h cell => hsound.mem_entries
  all_goals rw [hcells]
  case ends =>
    refine ⟨front, last, ?_, fun p hp => ⟨fun hcontent => ?_, ?_⟩⟩
    · rw [← hroots, hfirst]
      exact isChain_chainRoots t.statements
    · exact (hplain p hp).resolve_left fun hplain => hplain.goesOn hcontent
    · rintro rfl
      exact hlast
  case ordered => exact hhangs.ordered (ascending_of_compile h) (by simp)
  case once =>
    have honce := hhangs.once
    rwa [List.append_nil, ← hfirst] at honce
  case reached =>
    intro p hp
    obtain ⟨i, hi, hpath⟩ := hhangs.reached p hp
    exact ⟨i, hfirst.trans (Option.mem_toList.1 hi), hpath⟩
  case shaped => exact hhangs.shaped
  case typed =>
    intro p hp name hname
    rcases hplain p hp with hplain | rfl
    · exact hplain.typed name hname
    · rw [htype] at hname
      cases hname
  case named =>
    obtain ⟨hreferences, hread⟩ := references_of_compile h
    rw [hfirst, hnames]
    exact ⟨Statement.referencesAll t.statements, citesAll_of_compile h, hreferences, hread⟩

theorem loose_wellFormed : ∃ t, compile looseSource = .ok t ∧
    ∃ c, Code.ofSource looseSource = .ok c ∧ c.Represents t ∧ c.WellFormed looseSource := by
  have hcompiled : (compile looseSource).toBool = true := by decide +kernel
  cases ht : compile looseSource with
  | error e => simp [ht, Except.toBool] at hcompiled
  | ok t => exact ⟨t, rfl, wellFormed_of_compile ht⟩

end ByteBricks.Template
