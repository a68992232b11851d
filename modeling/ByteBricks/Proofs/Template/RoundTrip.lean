import ByteBricks.Proofs.Template.Apart
import ByteBricks.Proofs.Template.Sequence

/-! # Compiling a Printed Template

  The text of a template, a semicolon behind each statement, is a source again. It is
  compiled to the same template, but for the lines, if and only if the statements of each
  block are kept apart when only their texts are left: parentheses around the name of a
  field are not printed, and without them the name may be read as a type. -/

namespace ByteBricks.Template

open Syntax (Node Origin Joined Script)

/-! ### Texts without Lines -/

@[simp] theorem Expr.text_unlined (e : Expr) : e.unlined.text = e.text := by
  induction e with
  | literal m value => rfl
  | access m t field => rfl
  | element m t baseMark field index ih => rw [unlined, text, ih, text]
  | arith m t op lhs rhs ihl ihr => rw [unlined, text, ihl, ihr, text]

@[simp] theorem Declaration.text_unlined (d : Declaration) : d.unlined.text = d.text := by
  obtain ⟨m, typeName, count, name⟩ := d
  cases count <;> simp [unlined, text]

mutual

theorem Statement.text_unlined : ∀ (x : Statement), x.unlined.text = x.text
  | .struct m name members => by
    have hmembers : (members.map Declaration.unlined).map Declaration.text =
        members.map Declaration.text := by
      simp
    rw [unlined, text, hmembers, text]
  | .field d => by rw [unlined, text, Declaration.text_unlined, text]
  | .block m body => by rw [unlined, text, Statement.texts_unlinedAll body, text]
  | .expression e => by rw [unlined, text, Expr.text_unlined, text]
  | .scriptEnd m => by rw [unlined, text, text]

/-- The lines are no part of the text. -/
theorem Statement.texts_unlinedAll : ∀ (xs : List Statement),
    Statement.texts (Statement.unlinedAll xs) = Statement.texts xs
  | [] => by rw [unlinedAll]
  | x :: rest => by
    rw [unlinedAll, texts, Statement.text_unlined x, Statement.texts_unlinedAll rest, texts]

end

theorem Statement.unlinedAll_append (xs ys : List Statement) :
    Statement.unlinedAll (xs ++ ys) = Statement.unlinedAll xs ++ Statement.unlinedAll ys := by
  induction xs with
  | nil => rfl
  | cons x xs ih => rw [List.cons_append, unlinedAll, ih, unlinedAll, List.cons_append]

/-- The template without lines. -/
def unlined (t : Template) : Template := ⟨Statement.unlinedAll t.statements, t.names, t.count⟩

namespace Resolve

/-! ### Fused Statements -/

/-- A type in front of a name makes a declaration of both. -/
theorem statements_fused {x : Statement} {nodes rest : List Node} (hx : x.ReadAs nodes)
    (hfused : (x.isType && beginsWithName rest) = true) {s u : Scope} {zs : List Statement}
    (h : statements (nodes ++ rest) s = .ok (zs, u)) : ∃ d ds, zs = .field d :: ds := by
  obtain ⟨htype, hname⟩ := Bool.and_eq_true_iff.1 hfused
  have hrest : ∃ o rest', rest = .name o :: rest' := by
    unfold beginsWithName at hname
    split at hname
    · exact ⟨_, _, rfl⟩
    · simp at hname
  obtain ⟨name, rest', rfl⟩ := hrest
  -- An element looks like the type of an array: its index is read as the count.
  have hnodes : ∃ type bracket, nodes ++ .name name :: rest' =
      declarationNodes type bracket name ++ rest' := by
    cases hx with
    | struct | block => simp [Statement.isType] at htype
    | field => simp [Statement.isType] at htype
    | expression he =>
      cases he with
      | literal | arith => simp [Statement.isType] at htype
      | access ha =>
        cases ha with
        | @field _ o _ => exact ⟨o, none, rfl⟩
        | member => simp [Statement.isType] at htype
      | @element _ _ _ _ _ o _ n ha _ =>
        cases ha with
        | @field _ o' _ => exact ⟨o', some (o, [n]), rfl⟩
        | member => simp [Statement.isType] at htype
  obtain ⟨type, bracket, hnodes⟩ := hnodes
  rw [hnodes, statements_declarationNodes] at h
  simp only [bind_eq_ok, pure_eq_ok] at h
  obtain ⟨d, t, -, ds, u', -, rfl, -⟩ := h
  exact ⟨d, ds, rfl⟩

mutual

/-- Where a text has the meaning of its statement, the texts in its blocks are kept apart. -/
theorem isApart_of_statements : ∀ {x : Statement} {nodes : List Node} {s u : Scope}
    {zs : List Statement}, x.ReadAs nodes → statements nodes s = .ok (zs, u) →
    Statement.unlinedAll zs = [x.unlined] → x.isApart = true
  | .block m body, nodes, s, u, zs, hx, h, hsame => by
    cases hx with
    | @block _ _ o nodes hbody =>
      rw [statements_cons rfl, statements, statement] at h
      simp only [bind_eq_ok, pure_eq_ok] at h
      obtain ⟨_, t, ⟨inner, v, hinner, m', w, hm, rfl, rfl⟩, _, _, ⟨rfl, rfl⟩, rfl, rfl⟩ := h
      rw [Statement.isApart]
      refine areApart_of_statements hbody hinner ?_
      simp only [Statement.unlinedAll, Statement.unlined, List.cons.injEq,
        Statement.block.injEq, and_true] at hsame
      exact hsame.2
  | .struct m name members, _, _, _, _, _, _, _ => by simp [Statement.isApart]
  | .field d, _, _, _, _, _, _, _ => by simp [Statement.isApart]
  | .expression e, _, _, _, _, _, _, _ => by simp [Statement.isApart]
  | .scriptEnd m, _, _, _, _, _, _, _ => by simp [Statement.isApart]

theorem areApart_of_statements : ∀ {xs : List Statement} {nodes : List Node} {s u : Scope}
    {zs : List Statement}, Joined Statement.ReadAs xs nodes → statements nodes s = .ok (zs, u) →
    Statement.unlinedAll zs = Statement.unlinedAll xs → Statement.areApart xs = true
  | [], _, _, _, _, _, _, _ => by rw [Statement.areApart]
  | x :: xs, nodes, s, u, zs, hxs, h, hsame => by
    cases hxs with
    | @cons _ _ nodes rest hx hxs =>
      have hkept : (x.isType && beginsWithName rest) = false := by
        by_contra hfused
        obtain ⟨d, ds, rfl⟩ := statements_fused hx (by simpa using hfused) h
        -- The texts have become a declaration, but the statement was an expression.
        rw [Statement.unlinedAll, Statement.unlinedAll, Statement.unlined] at hsame
        cases x with
        | expression e =>
          rw [Statement.unlined] at hsame
          simp at hsame
        | struct | field | block | scriptEnd => simp [Statement.isType] at hfused
      obtain ⟨y, t, ys, hy, hys, rfl⟩ := (statements_append_eq_ok hx hkept).1 h
      rw [Statement.unlinedAll, Statement.unlinedAll] at hsame
      obtain ⟨hfirst, hothers⟩ := List.cons.inj hsame
      rw [beginsWithName_of_joined hxs] at hkept
      have halone : Statement.unlinedAll [y] = [x.unlined] := by
        rw [Statement.unlinedAll, hfirst, Statement.unlinedAll]
      rw [Statement.areApart, isApart_of_statements hx hy halone, hkept,
        areApart_of_statements hxs hys hothers]
      rfl

end

/-! ### Chains -/

/-- The end of the script belongs to no declaration. -/
theorem beginsDeclaration_scriptEnd {n : Node} {rest : List Node} (o : Origin) :
    beginsDeclaration n (rest ++ [.scriptEnd o]) = beginsDeclaration n rest := by
  have hname : beginsWithName (rest ++ [.scriptEnd o]) = beginsWithName rest := by
    cases rest with
    | nil => rfl
    | cons m rest => cases m <;> rfl
  have hblock : beginsWithBlock (rest ++ [.scriptEnd o]) = beginsWithBlock rest := by
    cases rest with
    | nil => rfl
    | cons m rest => cases m <;> rfl
  unfold beginsDeclaration
  rw [hname, hblock]

/-- The end of the script is a statement behind those of its chain. -/
theorem statements_scriptEnd (ns : List Node) (o : Origin) :
    statements (ns ++ [.scriptEnd o]) = (do
      let xs ← statements ns
      pure (xs ++ [.scriptEnd (← mark o.token.line)])) := by
  refine (statement.mutual_induct_unfolding (fun _ _ => True)
    (fun ns r => statements (ns ++ [.scriptEnd o]) = (do
      let xs ← r
      pure (xs ++ [.scriptEnd (← mark o.token.line)])))
    ?structHead ?block ?scriptEnd ?expression ?nil ?field ?array ?struct ?other).2 ns
  case structHead | block | scriptEnd | expression => intros; trivial
  case nil =>
    rw [List.nil_append, statements_cons rfl, statement, statements]
    simp
  case field | array | struct =>
    intros
    next ih =>
    rw [List.cons_append, List.cons_append, statements, ih]
    simp
  case other =>
    intro n rest hfield harray hstruct _ ih
    have hbegins := beginsDeclaration_eq_false hfield harray hstruct
    rw [← beginsDeclaration_scriptEnd o] at hbegins
    rw [List.cons_append, statements_cons hbegins, ih]
    simp

/-- Chains of proper trees are read as statements whose texts have their meaning. -/
theorem chains_restate {cs : List (List Node)} (hcs : ∀ chain ∈ cs, Node.ProperAll chain)
    {xs : List Statement} {s u : Scope} (h : chains cs s = .ok (xs, u)) :
    RestatesAll True s xs u := by
  induction cs generalizing xs s with
  | nil =>
    rw [chains] at h
    obtain ⟨rfl, rfl⟩ := pure_eq_ok.1 h
    exact .nil _
  | cons chain cs ih =>
    obtain ⟨hchain, hcs⟩ := List.forall_mem_cons.1 hcs
    rw [chains] at h
    simp only [bind_eq_ok, pure_eq_ok] at h
    obtain ⟨first, t, hfirst, others, u', hothers, rfl, rfl⟩ := h
    have hrestates : RestatesAll True s first t :=
      (statements_restate chain first s t hfirst).1.mono fun _ => hchain
    exact hrestates.append (ih hcs hothers)

/-- In chains of their own, texts have the meaning of their statements if those in each block
    are kept apart. -/
theorem RestatesAll.chains {p : Prop} {s u : Scope} {xs : List Statement}
    (h : RestatesAll p s xs u) (hapart : ∀ x ∈ xs, x.isApart = true) {cs : List (List Node)}
    (hcs : List.Forall₂ Statement.ReadAs xs cs) : ∃ xs', chains cs s = .ok (xs', u) ∧
      Statement.unlinedAll xs' = Statement.unlinedAll xs := by
  induction h generalizing cs with
  | nil s =>
    cases hcs
    exact ⟨[], rfl, rfl⟩
  | cons first others ih =>
    cases hcs with
    | cons hchain hcs =>
      obtain ⟨hapartFirst, hapartOthers⟩ := List.forall_mem_cons.1 hapart
      obtain ⟨x', hx', hsame⟩ := first.again hapartFirst _ hchain
      obtain ⟨xs', hxs', hsames⟩ := ih hapartOthers hcs
      refine ⟨x' :: xs', ?_, ?_⟩
      · rw [Resolve.chains]
        exact bind_eq_ok.2 ⟨[x'], _, hx', bind_eq_ok.2 ⟨xs', _, hxs', rfl⟩⟩
      · rw [Statement.unlinedAll, hsame, hsames, Statement.unlinedAll]

/-- Where chains have the meaning of the statements, the texts in each block are kept apart. -/
theorem isApart_of_chains {xs : List Statement} {cs : List (List Node)}
    (hcs : List.Forall₂ Statement.ReadAs xs cs) {s u : Scope} {zs : List Statement}
    (h : chains cs s = .ok (zs, u))
    (hsame : Statement.unlinedAll zs = Statement.unlinedAll xs) : ∀ x ∈ xs, x.isApart = true := by
  induction hcs generalizing s zs with
  | nil => simp
  | @cons x chain xs cs hx hcs ih =>
    rw [chains] at h
    simp only [bind_eq_ok, pure_eq_ok] at h
    obtain ⟨first, t, hfirst, others, u', hothers, rfl, rfl⟩ := h
    -- A chain of its own gives one statement.
    have halone := hfirst
    rw [← List.append_nil chain] at halone
    obtain ⟨y, t', ys, hy, hys, rfl⟩ :=
      (statements_append_eq_ok hx (by simp [beginsWithName])).1 halone
    rw [statements] at hys
    obtain ⟨rfl, rfl⟩ := pure_eq_ok.1 hys
    rw [List.singleton_append, Statement.unlinedAll, Statement.unlinedAll] at hsame
    obtain ⟨hsameFirst, hsameOthers⟩ := List.cons.inj hsame
    refine List.forall_mem_cons.2 ⟨?_, ih hothers hsameOthers⟩
    refine isApart_of_statements hx hy ?_
    rw [Statement.unlinedAll, hsameFirst, Statement.unlinedAll]

end Resolve

/-! ### Printed Templates -/

/-- The statements of a template are those that its text has the meaning of, and behind them
    the end of the script. -/
theorem restates_of_compile {source : String} {t : Template} (h : compile source = .ok t) :
    ∃ xs m s u line, t.statements = xs ++ [.scriptEnd m] ∧ Resolve.RestatesAll True .empty xs s ∧
      Resolve.mark line s = .ok (m, u) ∧ t.names = u.names ∧ t.count = u.count := by
  obtain ⟨script, u, hscript, hchains, hnames, hcount⟩ := compile_eq_ok_iff.1 h
  obtain ⟨before, last, o, hstatements, hbefore, hlast⟩ := Script.proper_of_ofSource hscript
  rw [hstatements] at hchains
  obtain ⟨xs, s, ys, hxs, hys, hall⟩ := Resolve.chains_append.1 hchains
  rw [Resolve.chains, Resolve.chains, Resolve.statements_scriptEnd] at hys
  simp only [Resolve.bind_eq_ok, Resolve.pure_eq_ok] at hys
  obtain ⟨_, _, ⟨zs, v, hzs, m, _, hm, rfl, rfl⟩, _, _, ⟨rfl, rfl⟩, rfl, rfl⟩ := hys
  have hlastRestates : Resolve.RestatesAll True s zs v :=
    (Resolve.statements_restate last zs s v hzs).1.mono fun _ => hlast
  refine ⟨xs ++ zs, m, v, u, o.token.line, ?_, ?_, hm, hnames, hcount⟩
  · rw [hall, List.append_nil, List.append_assoc]
  · exact (Resolve.chains_restate hbefore hxs).append hlastRestates

/-- **Main theorem.** If the delimiters of a printed template are not nested too deeply, it is
    compiled to a template with the same text, which is the same but for the lines, if and
    only if the statements in each block are kept apart. -/
theorem compile_printed_iff {source : String} {t : Template} (h : compile source = .ok t)
    (hnesting : Token.nesting 0 (Token.scan t.printed).tokens ≤ Syntax.maxDepth) :
    (∃ t', compile t.printed = .ok t' ∧ t'.text = t.text ∧ t'.unlined = t.unlined) ↔
      ∀ x ∈ t.statements, x.isApart = true := by
  obtain ⟨xs, m, s, u, line, ht, hrestates, hm, hnames, hcount⟩ := restates_of_compile h
  have hprintable := hrestates.printable trivial
  obtain ⟨cs, o, trees, hcs, hscript⟩ := ofSource_printed hprintable ht hnesting
  have hend : Statement.unlinedAll t.statements =
      Statement.unlinedAll xs ++ [.scriptEnd m.unlined] := by
    rw [ht, Statement.unlinedAll_append]
    rfl
  constructor
  · intro h'
    obtain ⟨t', ht', -, hsame⟩ := h'
    obtain ⟨script, v, hscript', hchains, -⟩ := compile_eq_ok_iff.1 ht'
    rw [hscript] at hscript'
    cases hscript'
    -- All chains but the last one have the meaning of the statements.
    obtain ⟨ys, w, zs, hys, hzs, hall⟩ := Resolve.chains_append.1 hchains
    obtain ⟨m', -, rfl⟩ := Resolve.chains_scriptEnd_eq_ok.1 hzs
    have hstatements := congrArg Template.statements hsame
    have hstatements : Statement.unlinedAll t'.statements = Statement.unlinedAll t.statements :=
      hstatements
    rw [hend, hall, Statement.unlinedAll_append] at hstatements
    have hsames := (List.append_inj' hstatements rfl).1
    rw [ht]
    refine List.forall_mem_append.2 ⟨Resolve.isApart_of_chains hcs hys hsames, ?_⟩
    simp [Statement.isApart]
  · intro hapart
    rw [ht] at hapart
    -- The chains are resolved from the empty scope again, as they were the first time.
    obtain ⟨xs', hxs', hsames⟩ := hrestates.chains (List.forall_mem_append.1 hapart).1 hcs
    let m' : Mark := ⟨m.id, o.token.line⟩
    have hstatements : Statement.unlinedAll (xs' ++ [.scriptEnd m']) =
        Statement.unlinedAll t.statements := by
      rw [hend, Statement.unlinedAll_append, hsames]
      rfl
    refine ⟨⟨xs' ++ [.scriptEnd m'], u.names, u.count⟩, compile_eq_ok_iff.2 ?_, ?_, ?_⟩
    · refine ⟨_, u, hscript, Resolve.chains_append.2 ⟨xs', s, _, hxs', ?_, rfl⟩, rfl, rfl⟩
      exact Resolve.chains_scriptEnd_eq_ok.2 ⟨m', Resolve.mark_again hm, rfl⟩
    · unfold text
      rw [← Statement.texts_unlinedAll, hstatements, Statement.texts_unlinedAll]
    · unfold unlined
      rw [hstatements, hnames, hcount]

/-- A source with statements in blocks that are kept apart. -/
def apartSource : String :=
  "struct Head \x7b uint8 n; uint8[1 + 1] v; \x7d Head h uint16 w;
    \x7b (h.n) w; \x7b struct Body \x7b float32 f; \x7d Body[h.n * (2)] b; w uint8[h.v[0]] x; \x7d
    x[w - 1] / h.n + 01; \x7d"

theorem compile_apart_printed :
    ∃ t, compile apartSource = .ok t ∧
      ∃ t', compile t.printed = .ok t' ∧ t'.text = t.text ∧ t'.unlined = t.unlined := by
  have hchecks : ((compile apartSource).toOption.any fun t =>
      decide (Token.nesting 0 (Token.scan t.printed).tokens ≤ Syntax.maxDepth) &&
        t.statements.all Statement.isApart) = true := by decide +kernel
  obtain ⟨t, ht, hchecks⟩ := (Option.any_eq_true _ _).1 hchecks
  simp only [Bool.and_eq_true, decide_eq_true_eq, List.all_eq_true] at hchecks
  have ht := Wall.toOption_eq_some_iff.1 ht
  exact ⟨t, ht, (compile_printed_iff ht hchecks.1).2 hchecks.2⟩

/-- A source with a block in which only parentheses keep two statements apart. -/
def fusedSource : String := "uint8 x; uint8 y; \x7b (x); y; \x7d"

/-- Not every printed template is compiled again: the text of this block declares a field of
    a type that does not exist. -/
theorem fused_printed_not_compiled :
    fusedSource.utf8ByteSize < 2 ^ 28 ∧ ∃ t, compile fusedSource = .ok t ∧
      Token.nesting 0 (Token.scan t.printed).tokens ≤ Syntax.maxDepth ∧
      ∀ t', compile t.printed ≠ .ok t' := by
  have hchecks : ((compile fusedSource).toOption.any fun t =>
      decide (Token.nesting 0 (Token.scan t.printed).tokens ≤ Syntax.maxDepth) &&
        !(compile t.printed).toBool) = true := by decide +kernel
  obtain ⟨t, ht, hchecks⟩ := (Option.any_eq_true _ _).1 hchecks
  simp only [Bool.and_eq_true, decide_eq_true_eq, Bool.not_eq_true'] at hchecks
  refine ⟨by decide +kernel, t, Wall.toOption_eq_some_iff.1 ht, hchecks.1, fun t' ht' => ?_⟩
  simp [ht', Except.toBool] at hchecks

end ByteBricks.Template
